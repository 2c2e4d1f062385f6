-- SUMMARY: One batch against the same records one by one: nodes, answers and entity counters.
import Brainzgraphinator.Projections.BatchEquivalence
import Brainzgraphinator.Projections.EntityTypes

/-!
# Entity writes on the two paths

A batch and the per-message projections in list order leave the last record of
every id on its node, answer alike for every record and count alike. A record's
answer is whether its node exists, which no entity write changes.
-/

namespace Brainzgraphinator

variable {rt : Runtime} {gate : Bool} {now : Json}

/-! ## Counting -/

/-- `enriched` more entities were matched and `skipped` more were not. -/
structure Counted (enriched skipped : Nat) (s s' : Stats) : Prop where
  enriched : s'.entitiesEnriched = s.entitiesEnriched + enriched
  skipped : s'.entitiesSkippedNoDiscogsMatch = s.entitiesSkippedNoDiscogsMatch + skipped

/-- The counters of entities are as before. -/
structure SameEntityStats (s s' : Stats) : Prop where
  enriched : s'.entitiesEnriched = s.entitiesEnriched
  skipped : s'.entitiesSkippedNoDiscogsMatch = s.entitiesSkippedNoDiscogsMatch
  replays : s'.replaysSkippedUnchanged = s.replaysSkippedUnchanged

theorem SameEntityStats.refl (s : Stats) : SameEntityStats s s := ⟨rfl, rfl, rfl⟩

theorem SameEntityStats.trans {s s₁ s' : Stats} (h : SameEntityStats s s₁)
    (h' : SameEntityStats s₁ s') : SameEntityStats s s' :=
  ⟨h'.enriched.trans h.enriched, h'.skipped.trans h.skipped, h'.replays.trans h.replays⟩

theorem SameEntityStats.counted {s s' : Stats} (h : SameEntityStats s s') : Counted 0 0 s s' :=
  ⟨by simp [h.enriched], by simp [h.skipped]⟩

theorem Counted.refl (s : Stats) : Counted 0 0 s s := (SameEntityStats.refl s).counted

theorem Counted.trans {m n m' n' : Nat} {s s₁ s' : Stats} (h : Counted m n s s₁)
    (h' : Counted m' n' s₁ s') : Counted (m + m') (n + n') s s' := by
  constructor
  · rw [h'.enriched, h.enriched]
    omega
  · rw [h'.skipped, h.skipped]
    omega

/-- Relations do not count as entities. -/
theorem createRelationshipEdge_stats {owner : String} {tx tx' : Tx} {relation : Json}
    (h : createRelationshipEdge rt owner tx relation = .ok tx') :
    SameEntityStats tx.stats tx'.stats := by
  obtain ⟨r, _, h⟩ := Except.bind_eq_ok.mp h
  match r with
  | none =>
    cases Except.pure_eq_ok.mp h
    exact .refl _
  | some (_, none) =>
    cases Except.pure_eq_ok.mp h
    exact ⟨rfl, rfl, rfl⟩
  | some (type, some row) =>
    cases Except.pure_eq_ok.mp h
    dsimp only
    split
    · exact ⟨rfl, rfl, rfl⟩
    · split
      · exact ⟨rfl, rfl, rfl⟩
      · exact ⟨rfl, rfl, rfl⟩

theorem createRelationshipEdges_stats {owner : String} {relations : List Json} {tx tx' : Tx}
    (h : createRelationshipEdges rt owner relations tx = .ok tx') :
    SameEntityStats tx.stats tx'.stats := by
  unfold createRelationshipEdges at h
  induction relations generalizing tx with
  | nil =>
    cases Except.pure_eq_ok.mp h
    exact .refl _
  | cons relation relations ih =>
    rw [List.foldlM_cons] at h
    obtain ⟨tx₁, hedge, h⟩ := Except.bind_eq_ok.mp h
    exact (createRelationshipEdge_stats hedge).trans (ih h)

theorem foldl_addType_stats (groups : List (RelType × List RelationRow)) (p : RelationProgress) :
    SameEntityStats p.tx.stats (groups.foldl RelationProgress.addType p).tx.stats := by
  induction groups generalizing p with
  | nil => exact .refl _
  | cons group groups ih =>
    have hone : SameEntityStats p.tx.stats (p.addType group).tx.stats := ⟨rfl, rfl, rfl⟩
    exact hone.trans (ih (p.addType group))

theorem projectRelations_stats {w : RelationWork} {tx tx' : Tx}
    (h : projectRelations rt w tx = .ok tx') : SameEntityStats tx.stats tx'.stats := by
  unfold projectRelations at h
  split at h
  · cases Except.pure_eq_ok.mp h
    exact .refl _
  · obtain ⟨⟨tx₁, complete⟩, hbatch, h⟩ := Except.bind_eq_ok.mp h
    cases Except.pure_eq_ok.mp h
    obtain ⟨plan, _, hbatch⟩ := Except.bind_eq_ok.mp hbatch
    cases Except.pure_eq_ok.mp hbatch
    have hplan := foldl_addType_stats plan.byType
      { tx := { tx with stats := { tx.stats with
        relationshipsSkippedMissingSide := tx.stats.relationshipsSkippedMissingSide + plan.skipped } } }
    exact ⟨hplan.enriched, hplan.skipped, hplan.replays⟩

/-- The per-message write counts its record as matched or as skipped. -/
theorem enrichNode_counted {spec : EntitySpec} {record : Dict} {tx tx' : Tx}
    {matched : Option (String × Bool)}
    (h : enrichNode rt gate now spec record tx = .ok (tx', matched)) :
    Counted matched.isSome.toNat (!matched.isSome).toNat tx.stats tx'.stats := by
  unfold enrichNode at h
  split at h
  · cases h
    exact ⟨by simp [recordOutcome], by simp [recordOutcome]⟩
  · obtain ⟨row, _, h⟩ := Except.bind_eq_ok.mp h
    obtain ⟨⟨g, results⟩, _, h⟩ := Except.bind_eq_ok.mp h
    cases Except.pure_eq_ok.mp h
    cases results.head? with
    | none => exact ⟨by simp, by simp⟩
    | some res =>
      dsimp only
      split
      · exact ⟨by simp, by simp⟩
      · exact ⟨by simp, by simp⟩

theorem isSome_matched {t : EntityType} {record : Dict} {tx tx' : Tx} {matched : Option (String × Bool)}
    (h : enrichNode rt gate now (t.spec rt) record tx = .ok (tx', matched)) :
    matched.isSome = matchesNode rt t tx.graph record := by
  rw [Bool.eq_iff_iff, matchesNode_iff, Option.isSome_iff_exists]
  constructor
  · rintro ⟨⟨id, b⟩, rfl⟩
    exact ⟨id, (enrichNode_matched_iff h).mp ⟨b, rfl⟩⟩
  · rintro ⟨id, hid⟩
    obtain ⟨b, hb⟩ := (enrichNode_matched_iff h).mpr hid
    exact ⟨_, hb⟩

theorem processors_counted {t : EntityType} {record : Dict} {tx tx' : Tx}
    (h : processors rt gate now t record tx = .ok tx') :
    Counted (matchesNode rt t tx.graph record).toNat (!matchesNode rt t tx.graph record).toNat
      tx.stats tx'.stats := by
  have hnode : ∀ {tx₁ matched}, enrichNode rt gate now (t.spec rt) record tx = .ok (tx₁, matched) →
      Counted (matchesNode rt t tx.graph record).toNat (!matchesNode rt t tx.graph record).toNat
        tx.stats tx₁.stats := by
    intro tx₁ matched hrun
    rw [← isSome_matched hrun]
    exact enrichNode_counted hrun
  cases t with
  | artists =>
    obtain ⟨⟨tx₁, matched⟩, hrun, h⟩ := Except.bind_eq_ok.mp h
    dsimp only at h
    split at h
    · cases Except.pure_eq_ok.mp h
      exact hnode hrun
    · split at h
      · obtain ⟨xs, _, h⟩ := Except.bind_eq_ok.mp h
        exact (hnode hrun).trans (createRelationshipEdges_stats h).counted
      · cases Except.pure_eq_ok.mp h
        exact hnode hrun
  | labels =>
    obtain ⟨⟨tx₁, matched⟩, hrun, h⟩ := Except.bind_eq_ok.mp h
    cases Except.pure_eq_ok.mp h
    exact hnode hrun
  | releaseGroups =>
    obtain ⟨⟨tx₁, matched⟩, hrun, h⟩ := Except.bind_eq_ok.mp h
    cases Except.pure_eq_ok.mp h
    exact hnode hrun
  | releases =>
    obtain ⟨⟨tx₁, matched⟩, hrun, h⟩ := Except.bind_eq_ok.mp h
    have hcounted := hnode hrun
    dsimp only at h
    split at h
    · obtain ⟨g', _, h⟩ := Except.bind_eq_ok.mp h
      cases Except.pure_eq_ok.mp h
      exact hcounted
    · cases Except.pure_eq_ok.mp h
      exact hcounted

/-- The shared part of a batch answers for every record and counts the answers. -/
theorem runEntityBatch_counted {t : EntityType} {relations : Bool} {records : List Dict} {tx tx' : Tx}
    {outcomes : List Outcome}
    (h : runEntityBatch rt gate now (t.spec rt) relations records tx = .ok (tx', outcomes)) :
    outcomes.map Outcome.matched = records.map (matchesNode rt t tx.graph) ∧
      Counted (records.countP (matchesNode rt t tx.graph))
        (records.length - records.countP (matchesNode rt t tx.graph)) tx.stats tx'.stats := by
  obtain ⟨outcome, houtcomes, hspec⟩ := runEntityBatch_outcomes h
  have hflags : outcomes.map Outcome.matched = records.map (matchesNode rt t tx.graph) := by
    rw [houtcomes, List.map_map]
    calc records.zipIdx.map (Outcome.matched ∘ outcome)
        = records.zipIdx.map (matchesNode rt t tx.graph ∘ Prod.fst) := by
          refine List.map_congr_left fun r hr => ?_
          rw [Function.comp_apply, Function.comp_apply, Bool.eq_iff_iff, matchesNode_iff]
          exact (hspec r hr).matched
      _ = records.map (matchesNode rt t tx.graph) := by
          rw [← List.map_map, List.zipIdx_map_fst]
  refine ⟨hflags, ?_⟩
  have hcount : outcomes.countP (·.matched) = records.countP (matchesNode rt t tx.graph) := by
    have hmap := congrArg (List.countP id) hflags
    rwa [List.countP_map, List.countP_map] at hmap
  have hlength : outcomes.length = records.length := by
    rw [houtcomes, List.length_map, List.length_zipIdx]
  obtain ⟨rows, _, h⟩ := Except.bind_eq_ok.mp h
  obtain ⟨⟨g, results⟩, _, h⟩ := Except.bind_eq_ok.mp h
  rw [Except.pure_eq_ok] at h
  cases h
  constructor
  · simp only [countOutcomes, hcount]
  · have hle : records.countP (matchesNode rt t tx.graph) ≤ records.length := List.countP_le_length
    simp only [countOutcomes, hcount, hlength]
    omega

theorem batchProjections_counted {t : EntityType} {records : List Dict} {tx tx' : Tx}
    {flags : List Bool} (h : batchProjections rt gate now t records tx = .ok (tx', flags)) :
    flags = records.map (matchesNode rt t tx.graph) ∧
      Counted (records.countP (matchesNode rt t tx.graph))
        (records.length - records.countP (matchesNode rt t tx.graph)) tx.stats tx'.stats := by
  cases t with
  | artists =>
    obtain ⟨⟨tx₁, outcomes⟩, hrun, h⟩ := Except.bind_eq_ok.mp h
    obtain ⟨w, _, h⟩ := Except.bind_eq_ok.mp h
    obtain ⟨tx₂, hproject, h⟩ := Except.bind_eq_ok.mp h
    cases Except.pure_eq_ok.mp h
    obtain ⟨hflags, hcounted⟩ := runEntityBatch_counted (t := .artists) hrun
    exact ⟨hflags, hcounted.trans (projectRelations_stats hproject).counted⟩
  | labels =>
    obtain ⟨⟨tx₁, outcomes⟩, hrun, h⟩ := Except.bind_eq_ok.mp h
    cases Except.pure_eq_ok.mp h
    exact runEntityBatch_counted (t := .labels) hrun
  | releaseGroups =>
    obtain ⟨⟨tx₁, outcomes⟩, hrun, h⟩ := Except.bind_eq_ok.mp h
    cases Except.pure_eq_ok.mp h
    exact runEntityBatch_counted (t := .releaseGroups) hrun
  | releases =>
    obtain ⟨⟨tx₁, outcomes⟩, hrun, h⟩ := Except.bind_eq_ok.mp h
    have hcounted := runEntityBatch_counted (t := .releases) hrun
    obtain ⟨g', _, h⟩ := Except.bind_eq_ok.mp h
    cases Except.pure_eq_ok.mp h
    exact hcounted

/-! ## Records one by one -/

/-- `_merge_global_stats`. -/
def Stats.merge (s s' : Stats) : Stats where
  entitiesEnriched := s.entitiesEnriched + s'.entitiesEnriched
  entitiesSkippedNoDiscogsMatch := s.entitiesSkippedNoDiscogsMatch + s'.entitiesSkippedNoDiscogsMatch
  relationshipsCreated := s.relationshipsCreated + s'.relationshipsCreated
  relationshipsUpdated := s.relationshipsUpdated + s'.relationshipsUpdated
  relationshipsSkippedMissingSide :=
    s.relationshipsSkippedMissingSide + s'.relationshipsSkippedMissingSide
  replaysSkippedUnchanged := s.replaysSkippedUnchanged + s'.replaysSkippedUnchanged

/-- One record in a transaction of its own, with counters of its own. The answer is
whether it counted an enriched entity. -/
def writeOne (rt : Runtime) (gate : Bool) (now : Json) (t : EntityType) (record : Dict) (g : Graph) :
    Except Failure (Tx × Bool) := do
  let tx ← processors rt gate now t record ⟨g, {}⟩
  return (tx, decide (0 < tx.stats.entitiesEnriched))

/-- The records one by one; `clock` is the time of each write. -/
def writeInOrder (rt : Runtime) (gate : Bool) (clock : Nat → Json) (t : EntityType) :
    List (Dict × Nat) → Tx → Except Failure (Tx × List Bool)
  | [], tx => return (tx, [])
  | r :: rs, tx => do
    let (one, matched) ← writeOne rt gate (clock r.2) t r.1 tx.graph
    let (tx, flags) ← writeInOrder rt gate clock t rs ⟨one.graph, tx.stats.merge one.stats⟩
    return (tx, matched :: flags)

theorem Counted.merge {m n : Nat} {s' : Stats} (h : Counted m n {} s') (s : Stats) :
    Counted m n s (s.merge s') := by
  constructor
  · rw [Stats.merge, h.enriched, Int.zero_add]
  · rw [Stats.merge, h.skipped, Int.zero_add]

theorem writeOne_spec {t : EntityType} {record : Dict} {g : Graph} {tx' : Tx} {matched : Bool}
    (h : writeOne rt gate now t record g = .ok (tx', matched)) :
    EntityWrite rt gate now t [record] g tx'.graph ∧ matched = matchesNode rt t g record ∧
      Counted (matchesNode rt t g record).toNat (!matchesNode rt t g record).toNat {} tx'.stats := by
  obtain ⟨tx, hrun, h⟩ := Except.bind_eq_ok.mp h
  cases Except.pure_eq_ok.mp h
  have hcounted := processors_counted hrun
  refine ⟨processors_entityWrite hrun, ?_, hcounted⟩
  rw [hcounted.enriched]
  cases matchesNode rt t g record <;> rfl

/-! ## Runs of entity writes -/

/-- What entity writes of the records, in this order, leave of the graph. -/
structure EntityRun (rt : Runtime) (t : EntityType) (records : List Dict) (g g' : Graph) : Prop where
  isSome_node : ∀ k : NodeKey, t.Fixes k.label → (g'.node k).isSome = (g.node k).isSome
  frame : ∀ k : NodeKey, t.Fixes k.label → k.label ≠ (t.spec rt).kind → g'.node k = g.node k
  props : ∀ k : NodeKey, t.Fixes k.label → ∀ key ∉ t.props rt,
    (g'.node k).map (· key) = (g.node k).map (· key)
  unnamed : ∀ id, lastOf rt (t.spec rt).idKey records id = none →
    ∀ key ∈ (t.spec rt).fields.map Prod.fst ++ stamps,
      (g'.node ⟨(t.spec rt).kind, id⟩).map (· key) = (g.node ⟨(t.spec rt).kind, id⟩).map (· key)
  carries : ∀ id record n', lastOf rt (t.spec rt).idKey records id = some record →
    g'.node ⟨(t.spec rt).kind, id⟩ = some n' → Carries rt (t.spec rt) record n'

/-- The stored digests of the type are those of what the nodes carry. -/
def TruthfulNodes (rt : Runtime) (t : EntityType) (g : Graph) : Prop :=
  ∀ id n, g.node ⟨(t.spec rt).kind, id⟩ = some n → Truthful rt (t.spec rt) n

section Run

variable {t : EntityType} {records records' : List Dict} {g g₁ g' : Graph}

/-- Nodes with the same mapped properties and stamps carry the same record. -/
theorem Carries.of_mapped {spec : EntitySpec} {record : Dict} {n n' : Props}
    (h : Carries rt spec record n)
    (hsame : ∀ key ∈ spec.fields.map Prod.fst ++ stamps, n' key = n key) :
    Carries rt spec record n' := by
  refine h.congr (hsame "mb_hash" (List.mem_append_right _ (by decide))) fun field hf => ?_
  exact hsame field.1 (List.mem_append_left _ (List.mem_map_of_mem hf))

theorem EntityWrite.run (h : EntityWrite rt gate now t records g g')
    (hinj : Function.Injective rt.hexdigest) (htruthful : TruthfulNodes rt t g) :
    EntityRun rt t records g g' := by
  refine ⟨fun k => h.isSome_node, fun k => h.frame, fun k hk key => h.props hk,
    fun id hnone key => h.unnamed hnone, fun id record n' hlast hn' => ?_⟩
  obtain ⟨g₁, n₁, hwrite, hn₁, hsame⟩ := h.exists_node hn'
  exact (hwrite.carries (t.spec_wellFormed rt) hinj htruthful hlast hn₁).of_mapped hsame

theorem EntityRun.nil (g : Graph) : EntityRun rt t [] g g :=
  ⟨fun _ _ => rfl, fun _ _ _ => rfl, fun _ _ _ _ => rfl, fun _ _ _ _ => rfl, nofun⟩

theorem EntityRun.trans (h : EntityRun rt t records g g₁) (h' : EntityRun rt t records' g₁ g') :
    EntityRun rt t (records ++ records') g g' := by
  refine ⟨fun k hk => ?_, fun k hk hkind => ?_, fun k hk key hkey => ?_, fun id hnone key hkey => ?_,
    fun id record n' hlast hn' => ?_⟩
  · rw [h'.isSome_node k hk, h.isSome_node k hk]
  · rw [h'.frame k hk hkind, h.frame k hk hkind]
  · rw [h'.props k hk key hkey, h.props k hk key hkey]
  · rw [lastOf_append, Option.or_eq_none_iff] at hnone
    rw [h'.unnamed id hnone.1 key hkey, h.unnamed id hnone.2 key hkey]
  · rw [lastOf_append] at hlast
    cases hlast' : lastOf rt (t.spec rt).idKey records' id with
    | some record' =>
      rw [hlast', Option.some_or, Option.some.injEq] at hlast
      subst hlast
      exact h'.carries id record' n' hlast' hn'
    | none =>
      rw [hlast', Option.none_or] at hlast
      have hsome := h'.isSome_node ⟨(t.spec rt).kind, id⟩ (t.fixes_kind rt)
      rw [hn', Option.isSome_some, eq_comm, Option.isSome_iff_exists] at hsome
      obtain ⟨n₁, hn₁⟩ := hsome
      refine (h.carries id record n₁ hlast hn₁).of_mapped fun key hkey => ?_
      have hsame := h'.unnamed id hlast' key hkey
      rw [hn', hn₁, Option.map_some, Option.map_some, Option.some.injEq] at hsame
      exact hsame

theorem EntityRun.truthful (h : EntityRun rt t records g g') (htruthful : TruthfulNodes rt t g) :
    TruthfulNodes rt t g' := by
  intro id n' hn'
  cases hlast : lastOf rt (t.spec rt).idKey records id with
  | some record => exact .inr ⟨record, h.carries id record n' hlast hn'⟩
  | none =>
    have hsome := h.isSome_node ⟨(t.spec rt).kind, id⟩ (t.fixes_kind rt)
    rw [hn', Option.isSome_some, eq_comm, Option.isSome_iff_exists] at hsome
    obtain ⟨n, hn⟩ := hsome
    have hsame : ∀ key ∈ (t.spec rt).fields.map Prod.fst ++ stamps, n' key = n key := by
      intro key hkey
      have hmap := h.unnamed id hlast key hkey
      rw [hn', hn, Option.map_some, Option.map_some, Option.some.injEq] at hmap
      exact hmap
    refine (htruthful id n hn).congr (hsame "mb_hash" (List.mem_append_right _ (by decide))) ?_
    exact fun field hf => hsame field.1 (List.mem_append_left _ (List.mem_map_of_mem hf))

/-- No entity write changes which records match. -/
theorem EntityRun.matchesNode (h : EntityRun rt t records g g') (record : Dict) :
    matchesNode rt t g' record = matchesNode rt t g record := by
  unfold Brainzgraphinator.matchesNode
  split
  · rfl
  · exact h.isSome_node _ (t.fixes_kind rt)

end Run

/-- The records one by one: a run, with one answer and one count for each record. -/
theorem writeInOrder_spec (hinj : Function.Injective rt.hexdigest) {clock : Nat → Json}
    {t : EntityType} {rs : List (Dict × Nat)} {tx tx' : Tx} {flags : List Bool}
    (htruthful : TruthfulNodes rt t tx.graph)
    (h : writeInOrder rt gate clock t rs tx = .ok (tx', flags)) :
    EntityRun rt t (rs.map Prod.fst) tx.graph tx'.graph ∧
      flags = (rs.map Prod.fst).map (matchesNode rt t tx.graph) ∧
      Counted ((rs.map Prod.fst).countP (matchesNode rt t tx.graph))
        (rs.length - (rs.map Prod.fst).countP (matchesNode rt t tx.graph)) tx.stats tx'.stats := by
  induction rs generalizing tx flags with
  | nil =>
    cases Except.pure_eq_ok.mp h
    exact ⟨.nil _, rfl, .refl _⟩
  | cons r rs ih =>
    obtain ⟨⟨one, matched⟩, hone, h⟩ := Except.bind_eq_ok.mp h
    obtain ⟨⟨tx₁, flags₁⟩, hrest, h⟩ := Except.bind_eq_ok.mp h
    cases Except.pure_eq_ok.mp h
    obtain ⟨hwrite, rfl, hcounted⟩ := writeOne_spec hone
    have hrun := hwrite.run hinj htruthful
    have htruthful' : TruthfulNodes rt t (⟨one.graph, tx.stats.merge one.stats⟩ : Tx).graph :=
      hrun.truthful htruthful
    obtain ⟨hrun', rfl, hcounted'⟩ := ih htruthful' hrest
    have hmatches : matchesNode rt t one.graph = matchesNode rt t tx.graph :=
      funext hrun.matchesNode
    dsimp only at hrun' hcounted' ⊢
    rw [hmatches] at hcounted' ⊢
    refine ⟨hrun.trans hrun', rfl, ?_⟩
    have hsum := (hcounted.merge tx.stats).trans hcounted'
    have hle : (rs.map Prod.fst).countP (matchesNode rt t tx.graph) ≤ rs.length := by
      rw [← List.length_map (f := Prod.fst)]
      exact List.countP_le_length
    rw [List.map_cons, List.countP_cons, List.length_cons]
    generalize (rs.map Prod.fst).countP (matchesNode rt t tx.graph) = count at hle hsum ⊢
    constructor
    · rw [hsum.enriched]
      cases matchesNode rt t tx.graph r.1 with
      | false => simp
      | true => simp; omega
    · rw [hsum.skipped]
      cases matchesNode rt t tx.graph r.1 with
      | false => simp; omega
      | true => simp

/-! ## The two paths agree -/

/-- The same mapped properties and digest on every node that only these writes touch. -/
def SameEntities (rt : Runtime) (t : EntityType) (g g' : Graph) : Prop :=
  ∀ k : NodeKey, t.Fixes k.label → ∀ key ∈ (t.spec rt).fields.map Prod.fst ++ ["mb_hash"],
    (g'.node k).map (· key) = (g.node k).map (· key)

/-- No node is created or deleted, no other kind of node is touched, and no other
property than those of the type. -/
structure TouchesOnly (rt : Runtime) (t : EntityType) (g g' : Graph) : Prop where
  isSome_node : ∀ k : NodeKey, t.Fixes k.label → (g'.node k).isSome = (g.node k).isSome
  frame : ∀ k : NodeKey, t.Fixes k.label → k.label ≠ (t.spec rt).kind → g'.node k = g.node k
  props : ∀ k : NodeKey, t.Fixes k.label → ∀ key ∉ t.props rt,
    (g'.node k).map (· key) = (g.node k).map (· key)

theorem EntityRun.touchesOnly {t : EntityType} {records : List Dict} {g g' : Graph}
    (h : EntityRun rt t records g g') : TouchesOnly rt t g g' := ⟨h.isSome_node, h.frame, h.props⟩

/-- Two runs of the same records agree on mapped properties and digests. -/
theorem EntityRun.sameEntities {t : EntityType} {records : List Dict} {g g₁ g₂ : Graph}
    (h₁ : EntityRun rt t records g g₁) (h₂ : EntityRun rt t records g g₂) :
    SameEntities rt t g₁ g₂ := by
  intro k hk key hkey
  by_cases hkind : k.label = (t.spec rt).kind
  · obtain ⟨kind, id⟩ := k
    cases hkind
    cases hlast : lastOf rt (t.spec rt).idKey records id with
    | none =>
      have hmapped : key ∈ (t.spec rt).fields.map Prod.fst ++ stamps := by
        rcases List.mem_append.mp hkey with hkey | hkey
        · exact List.mem_append_left _ hkey
        · rw [List.mem_singleton.mp hkey]
          exact List.mem_append_right _ (by decide)
      rw [h₂.unnamed id hlast key hmapped, h₁.unnamed id hlast key hmapped]
    | some record =>
      have hsome := (h₂.isSome_node ⟨(t.spec rt).kind, id⟩ hk).trans
        (h₁.isSome_node ⟨(t.spec rt).kind, id⟩ hk).symm
      cases hn₁ : g₁.node ⟨(t.spec rt).kind, id⟩ with
      | none =>
        rw [hn₁] at hsome
        rw [Option.isSome_eq_false_iff.mp hsome |> Option.isNone_iff_eq_none.mp]
      | some n₁ =>
        rw [hn₁, Option.isSome_some, Option.isSome_iff_exists] at hsome
        obtain ⟨n₂, hn₂⟩ := hsome
        obtain ⟨hhash, hfields⟩ := (h₂.carries id record n₂ hlast hn₂).unique
          (h₁.carries id record n₁ hlast hn₁)
        rw [hn₂, Option.map_some, Option.map_some, Option.some.injEq]
        rcases List.mem_append.mp hkey with hkey | hkey
        · obtain ⟨field, hf, rfl⟩ := List.mem_map.mp hkey
          exact hfields field hf
        · rw [List.mem_singleton.mp hkey]
          exact hhash
  · rw [h₂.frame k hk hkind, h₁.frame k hk hkind]

theorem OneByOne.of_writeInOrder {clock : Nat → Json} {t : EntityType} {rs : List (Dict × Nat)} {tx tx' : Tx}
    {flags : List Bool} (h : writeInOrder rt gate clock t rs tx = .ok (tx', flags)) :
    OneByOne rt gate t (rs.map Prod.fst) tx.graph := by
  induction rs generalizing tx tx' flags with
  | nil => exact .nil _
  | cons r rs ih =>
    obtain ⟨⟨one, matched⟩, hone, h⟩ := Except.bind_eq_ok.mp h
    obtain ⟨⟨tx₁, flags₁⟩, hrest, _⟩ := Except.bind_eq_ok.mp h
    obtain ⟨tx₀, hrun, hpure⟩ := Except.bind_eq_ok.mp hone
    cases Except.pure_eq_ok.mp hpure
    have hlater := ih hrest
    exact @OneByOne.cons rt gate t (clock r.2) r.1 (rs.map Prod.fst) ⟨tx.graph, {}⟩ one hrun hlater

/-- Records that go through one by one go through as a batch: the same mapped properties
and digests, the same answers, the same counts, and nothing else touched by either. -/
theorem entityWrites_agree (hinj : Function.Injective rt.hexdigest) {clock : Nat → Json}
    {t : EntityType} {records : List Dict} {tx tx₂ : Tx} {flags₂ : List Bool}
    (htruthful : TruthfulNodes rt t tx.graph)
    (hseq : writeInOrder rt gate clock t records.zipIdx tx = .ok (tx₂, flags₂)) :
    ∃ tx₁ flags₁, batchProjections rt gate now t records tx = .ok (tx₁, flags₁) ∧
      SameEntities rt t tx₁.graph tx₂.graph ∧ TouchesOnly rt t tx.graph tx₁.graph ∧
      TouchesOnly rt t tx.graph tx₂.graph ∧ flags₁ = flags₂ ∧
      tx₁.stats.entitiesEnriched = tx₂.stats.entitiesEnriched ∧
      tx₁.stats.entitiesSkippedNoDiscogsMatch = tx₂.stats.entitiesSkippedNoDiscogsMatch := by
  have hone := OneByOne.of_writeInOrder hseq
  rw [List.zipIdx_map_fst] at hone
  obtain ⟨⟨tx₁, flags₁⟩, hbatch⟩ := hone.exists_batch now hinj
  have hrun₁ := (batchProjections_entityWrite hbatch).run hinj htruthful
  obtain ⟨hflags₁, hcounted₁⟩ := batchProjections_counted hbatch
  obtain ⟨hrun₂, hflags₂, hcounted₂⟩ := writeInOrder_spec hinj htruthful hseq
  rw [List.zipIdx_map_fst] at hrun₂ hflags₂ hcounted₂
  rw [List.length_zipIdx] at hcounted₂
  refine ⟨tx₁, flags₁, hbatch, hrun₁.sameEntities hrun₂, hrun₁.touchesOnly, hrun₂.touchesOnly,
    hflags₁.trans hflags₂.symm, ?_, ?_⟩
  · rw [hcounted₁.enriched, hcounted₂.enriched]
  · rw [hcounted₁.skipped, hcounted₂.skipped]

theorem truthfulNodes_bareRelease : TruthfulNodes plainRuntime .releases bareRelease := by
  intro id n hn
  simp only [bareRelease, Option.ite_none_right_eq_some, Option.some.injEq] at hn
  exact .inl (by rw [← hn.2]; rfl)

/-- Two records of one release, the second without a media block. -/
theorem entityWrites_agree_bareRelease : ∃ tx₁ flags₁ tx₂ flags₂,
    batchProjections plainRuntime true .null .releases [mediaRecord, mediaLessRecord]
        ⟨bareRelease, {}⟩ = .ok (tx₁, flags₁) ∧
      writeInOrder plainRuntime true (fun _ => .null) .releases
        [mediaRecord, mediaLessRecord].zipIdx ⟨bareRelease, {}⟩ = .ok (tx₂, flags₂) ∧
      SameEntities plainRuntime .releases tx₁.graph tx₂.graph ∧ flags₁ = flags₂ := by
  obtain ⟨⟨tx₂, flags₂⟩, hseq, _⟩ : ∃ r, writeInOrder plainRuntime true (fun _ => .null) .releases
      [mediaRecord, mediaLessRecord].zipIdx ⟨bareRelease, {}⟩ = .ok r ∧ r.2 = [true, true] :=
    Except.exists_eq_ok (by decide +kernel)
  obtain ⟨tx₁, flags₁, hbatch, hsame, _, _, hflags, _⟩ :=
    entityWrites_agree plainRuntime_injective truthfulNodes_bareRelease hseq
  exact ⟨tx₁, flags₁, tx₂, flags₂, hbatch, hseq, hsame, hflags⟩

/-- An artist that MusicBrainz has not written yet. -/
def bareArtist : Graph := bareArtists ["x"] [] (by decide)

/-- A record of it whose life span is no object, and one without a life span. -/
def brokenThenPlain : List Dict :=
  [[("discogs_artist_id", .str "x"), ("life_span", .str "abc")], [("discogs_artist_id", .str "x")]]

/-- The batch reads the last record only, and alone the first one raises. -/
theorem batch_passes_superseded_record :
    ¬ ∀ (rt : Runtime) (gate : Bool) (now : Json) (clock : Nat → Json) (t : EntityType) (records : List Dict)
      (tx tx₁ : Tx) (flags₁ : List Bool), Function.Injective rt.hexdigest → TruthfulNodes rt t tx.graph →
      batchProjections rt gate now t records tx = .ok (tx₁, flags₁) →
      ∃ tx₂ flags₂, writeInOrder rt gate clock t records.zipIdx tx = .ok (tx₂, flags₂) ∧ flags₁ = flags₂ ∧
        tx₁.stats.entitiesEnriched = tx₂.stats.entitiesEnriched := by
  intro h
  have htruthful : TruthfulNodes plainRuntime .artists bareArtist := by
    intro id n hn
    simp only [bareArtist, bareArtists, Option.ite_none_right_eq_some, Option.some.injEq] at hn
    exact .inl (by rw [← hn.2]; rfl)
  obtain ⟨⟨tx₁, flags₁⟩, hbatch, _⟩ : ∃ r, batchProjections plainRuntime true .null .artists brokenThenPlain
      ⟨bareArtist, {}⟩ = .ok r ∧ (r.2, r.1.stats.entitiesEnriched) = ([true, true], 2) :=
    Except.exists_eq_ok (by decide +kernel)
  obtain ⟨tx₂, flags₂, hseq, _⟩ := h plainRuntime true .null (fun _ => .null) .artists _ _ tx₁ flags₁
    plainRuntime_injective htruthful hbatch
  have hraises : (writeInOrder plainRuntime true (fun _ => .null) .artists brokenThenPlain.zipIdx
      ⟨bareArtist, {}⟩).toOption.isNone = true := by decide +kernel
  rw [hseq] at hraises
  cases hraises

end Brainzgraphinator
