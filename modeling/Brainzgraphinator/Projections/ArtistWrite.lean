-- SUMMARY: What the two artist write paths leave: nodes, relationship edges and the stored relations digest.
import Brainzgraphinator.Projections.NodeProps
import Brainzgraphinator.Projections.RelationBatch

/-!
# Artist writes

`enrichArtist` merges every relation of its record. `enrichArtistsBatch` merges
those of the records it selects: matched, not superseded by a later record with
the same id text, and not gated out by the stored relations digest. It stores the
digest of an owner only when it calls it complete.
-/

namespace Brainzgraphinator

variable {rt : Runtime} {gate : Bool} {now : Json}

/-! ## The selected records -/

/-- What a loop over the value sees; nothing when it cannot be looped over. -/
def Json.elems (v : Json) : List Json := v.iter.toOption.getD []

theorem Json.elems_of_iter {v : Json} {xs : List Json} (h : v.iter = .ok xs) : v.elems = xs := by
  rw [Json.elems, h]
  rfl

/-- `str(record.get("discogs_artist_id"))`. -/
def ownerText (rt : Runtime) (record : Dict) : String := (record.get "discogs_artist_id").toStr rt

/-- The relations of a record, each with its owner. -/
def ownedRelations (rt : Runtime) (record : Dict) : List (String × Json) :=
  (recordRelations record).elems.map (Prod.mk (ownerText rt record))

/-- The digest of the record's relations. -/
def relationsDigest (rt : Runtime) (record : Dict) : Json := payloadHash rt [recordRelations record]

/-- The batch projects the relations of this record. -/
def selected (rt : Runtime) (gate : Bool) (records : List Dict) (r : Dict × Nat) (o : Outcome) : Bool :=
  o.matched && !superseded rt r.2 records &&
    !(gate && decide (o.storedRelationsHash = relationsDigest rt r.1))

/-- A later record with the same id text supersedes. -/
theorem superseded_of_lt {records : List Dict} {r r' : Dict × Nat} (hr : r ∈ records.zipIdx)
    (hr' : r' ∈ records.zipIdx) (hlt : r.2 < r'.2) (htext : ownerText rt r'.1 = ownerText rt r.1) :
    superseded rt r.2 records = true := by
  have hget' := List.mk_mem_zipIdx_iff_getElem?.mp hr'
  simp only [superseded, getD_of_mem_zipIdx hr, List.any_eq_true, decide_eq_true_eq]
  refine ⟨r'.1, ?_, htext⟩
  apply List.mem_of_getElem? (i := r'.2 - (r.2 + 1))
  rw [List.getElem?_drop, Nat.add_sub_cancel' hlt]
  exact hget'

/-- A record that is not superseded is the only unsuperseded one of its id text. -/
theorem eq_of_not_superseded {records : List Dict} {r r' : Dict × Nat} (hr : r ∈ records.zipIdx)
    (hr' : r' ∈ records.zipIdx) (hs : superseded rt r.2 records = false)
    (hs' : superseded rt r'.2 records = false) (htext : ownerText rt r.1 = ownerText rt r'.1) :
    r = r' := by
  rcases Nat.lt_trichotomy r.2 r'.2 with hlt | heq | hlt
  · rw [superseded_of_lt hr hr' hlt htext.symm] at hs
    cases hs
  · apply Prod.ext _ heq
    rw [← getD_of_mem_zipIdx hr, ← getD_of_mem_zipIdx hr', heq]
  · rw [superseded_of_lt hr' hr hlt htext] at hs'
    cases hs'

/-! ## The work of a batch -/

/-- The work collected from the selected records `sel`. -/
structure WorkSpec (rt : Runtime) (sel : List (Dict × Nat)) (w : RelationWork) : Prop where
  relations : w.relations = sel.flatMap fun r => ownedRelations rt r.1
  digests : w.digests =
    OrderedDict.collect (fun r => some (ownerText rt r.1)) (fun r => relationsDigest rt r.1) sel
  iter : ∀ r ∈ sel, (recordRelations r.1).iter = .ok (recordRelations r.1).elems

theorem WorkSpec.add {records : List Dict} {sel : List (Dict × Nat)} {r : Dict × Nat} {o : Outcome}
    {w w' : RelationWork} (hw : WorkSpec rt sel w)
    (h : RelationWork.add rt gate records w ((r.1, o), r.2) = .ok w') :
    WorkSpec rt (sel ++ if selected rt gate records r o then [r] else []) w' := by
  unfold RelationWork.add at h
  dsimp only at h
  split at h
  · rename_i hskip
    cases Except.pure_eq_ok.mp h
    have hsel : selected rt gate records r o = false := by
      simp only [Bool.or_eq_true, Bool.not_eq_true'] at hskip
      rcases hskip with hskip | hskip <;> simp [selected, hskip]
    rw [hsel]
    simpa using hw
  · rename_i hskip
    simp only [Bool.or_eq_true, Bool.not_eq_true', not_or, Bool.not_eq_false, Bool.not_eq_true] at hskip
    split at h
    · rename_i hgate
      cases Except.pure_eq_ok.mp h
      have hsel : selected rt gate records r o = false := by
        simp only [Bool.and_eq_true, decide_eq_true_eq] at hgate
        simp [selected, relationsDigest, hgate.1, hgate.2]
      rw [hsel]
      simpa using hw
    · rename_i hgate
      obtain ⟨xs, hiter, h⟩ := Except.bind_eq_ok.mp h
      cases Except.pure_eq_ok.mp h
      have hsel : selected rt gate records r o = true := by
        rw [Bool.not_eq_true] at hgate
        simp only [selected, relationsDigest, hskip.1, hskip.2, Bool.not_false, Bool.and_self]
        exact congrArg (fun b => true && !b) hgate
      have helems := Json.elems_of_iter hiter
      rw [hsel, if_pos rfl]
      refine ⟨?_, ?_, ?_⟩
      · rw [List.flatMap_append, ← hw.relations]
        simp only [List.flatMap_cons, List.flatMap_nil, List.append_nil, ownedRelations, helems]
        rfl
      · rw [OrderedDict.collect_concat, ← hw.digests]
        rfl
      · intro r' hr'
        rcases List.mem_append.mp hr' with hr' | hr'
        · exact hw.iter r' hr'
        · rw [List.mem_singleton.mp hr', helems]
          exact hiter

/-- The loop over a batch collects the work of its selected records. -/
theorem workSpec {records : List Dict} {outcome : Dict × Nat → Outcome} {rs : List (Dict × Nat)}
    {w : RelationWork}
    (h : (rs.map fun r => ((r.1, outcome r), r.2)).foldlM (RelationWork.add rt gate records) {} =
      .ok w) :
    WorkSpec rt (rs.filter fun r => selected rt gate records r (outcome r)) w := by
  induction rs using List.reverseRecOn generalizing w with
  | nil =>
    cases Except.pure_eq_ok.mp h
    exact ⟨rfl, rfl, nofun⟩
  | append_singleton rs r ih =>
    rw [List.map_append, List.foldlM_append] at h
    obtain ⟨w₁, hprefix, h⟩ := Except.bind_eq_ok.mp h
    rw [List.map_singleton, List.foldlM_cons] at h
    obtain ⟨w₂, hadd, h⟩ := Except.bind_eq_ok.mp h
    cases Except.pure_eq_ok.mp h
    have hspec := (ih hprefix).add hadd
    rw [List.filter_append]
    by_cases hsel : selected rt gate records r (outcome r) = true
    · rw [if_pos hsel] at hspec
      simpa [hsel] using hspec
    · rw [if_neg hsel] at hspec
      simpa [hsel] using hspec

/-- Among selected records each owner text occurs once, so its relations are
those of one record. -/
theorem filter_relations_eq {sel : List (Dict × Nat)} (hnd : sel.Nodup)
    (hinj : ∀ r ∈ sel, ∀ r' ∈ sel, ownerText rt r.1 = ownerText rt r'.1 → r = r')
    {r : Dict × Nat} (hr : r ∈ sel) :
    (sel.flatMap fun r => ownedRelations rt r.1).filter (fun x => x.1 = ownerText rt r.1) =
      ownedRelations rt r.1 := by
  have hself : ∀ r : Dict × Nat, ∀ owner, (ownedRelations rt r.1).filter (fun x => x.1 = owner) =
      if ownerText rt r.1 = owner then ownedRelations rt r.1 else [] := by
    intro r owner
    split
    · rename_i heq
      apply List.filter_eq_self.mpr
      intro x hx
      obtain ⟨_, _, rfl⟩ := List.mem_map.mp hx
      simpa using heq
    · rename_i hne
      apply List.filter_eq_nil_iff.mpr
      intro x hx
      obtain ⟨_, _, rfl⟩ := List.mem_map.mp hx
      simpa using hne
  induction sel with
  | nil => cases hr
  | cons r₀ sel ih =>
    obtain ⟨hr₀, hnd⟩ := List.nodup_cons.mp hnd
    rw [List.flatMap_cons, List.filter_append, hself]
    have hinj' : ∀ r ∈ sel, ∀ r' ∈ sel, ownerText rt r.1 = ownerText rt r'.1 → r = r' :=
      fun a ha b hb => hinj a (List.mem_cons_of_mem _ ha) b (List.mem_cons_of_mem _ hb)
    rcases List.mem_cons.mp hr with rfl | hr
    · have hrest : (sel.flatMap fun r => ownedRelations rt r.1).filter
          (fun x => x.1 = ownerText rt r.1) = [] := by
        rw [List.filter_flatMap, List.flatMap_eq_nil_iff]
        intro r' hr'
        rw [hself, if_neg]
        intro heq
        rw [hinj r' (List.mem_cons_of_mem _ hr') r List.mem_cons_self heq] at hr'
        exact hr₀ hr'
      rw [if_pos rfl, hrest, List.append_nil]
    · have hne : ownerText rt r₀.1 ≠ ownerText rt r.1 := by
        intro heq
        rw [hinj r₀ List.mem_cons_self r (List.mem_cons_of_mem _ hr) heq] at hr₀
        exact hr₀ hr
      rw [if_neg hne, List.nil_append, ih hnd hinj' hr]

/-- The counts of an owner depend on its own relations only. -/
theorem expectedCount_filter (relations : List (String × Json)) (owner : String) :
    expectedCount rt relations owner =
      expectedCount rt (relations.filter fun x => x.1 = owner) owner := by
  rw [expectedCount, expectedCount, List.countP_filter]
  refine List.countP_congr fun x _ => ?_
  simp only [Bool.and_eq_true, decide_eq_true_eq]
  tauto

theorem ownerRows_filter (g : Graph) (relations : List (String × Json)) (owner : String) :
    ownerRows g (relations.filterMap (mergeOf rt)) owner =
      ownerRows g ((relations.filter fun x => x.1 = owner).filterMap (mergeOf rt)) owner := by
  unfold ownerRows
  congr 2
  induction relations with
  | nil => rfl
  | cons x relations ih =>
    cases hm : mergeOf rt x with
    | none =>
      rw [List.filterMap_cons_none hm, ih, List.filter_cons]
      split
      · rw [List.filterMap_cons_none hm]
      · rfl
    | some m =>
      have howner : m.2.owner = x.1 := supported_owner (mergeOf_eq_some.mp hm)
      rw [List.filterMap_cons_some hm, List.filter_cons, List.filter_cons, ih]
      by_cases hx : x.1 = owner
      · simp [howner, hx, List.filterMap_cons_some hm]
      · simp [howner, hx]

/-! ## What a batch projects -/

/-- The batch projects the relations of `r`, seen from the graph `g` before it:
the artist exists, no later record supersedes `r`, and the stored digest of the
relations, if the gate is on, is another one. -/
def Selects (rt : Runtime) (gate : Bool) (records : List Dict) (g : Graph) (r : Dict × Nat) : Prop :=
  r ∈ records.zipIdx ∧ superseded rt r.2 records = false ∧
    ∃ id n, discogsId rt "discogs_artist_id" r.1 = some id ∧ g.node (artistKey id) = some n ∧
      ¬ (gate = true ∧ n "mb_relations_hash" = relationsDigest rt r.1)

/-- Its relations return at least as many rows as are expected: what is
unresolved is outnumbered by parallel edges. -/
def Complete (rt : Runtime) (g : Graph) (record : Dict) : Prop :=
  (recordRelations record).elems.countP (unresolved rt g (ownerText rt record)) ≤
    ((recordRelations record).elems.map (surplus rt g (ownerText rt record))).sum

/-- A supported relation of the record has this type and these ends, and both
artists exist. -/
def Projects (rt : Runtime) (g : Graph) (record : Dict) (type : RelType) (row : RelationRow) : Prop :=
  ∃ relation ∈ (recordRelations record).elems, ∃ row₀,
    supported rt (ownerText rt record) relation = some (type, some row₀) ∧ SameEnds row₀ row ∧
      bothSides g row₀ = true

theorem selected_iff {records : List Dict} {g : Graph} {r : Dict × Nat} {o : Outcome}
    (hr : r ∈ records.zipIdx) (hspec : OutcomeSpec rt gate artistSpec records true g r o) :
    selected rt gate records r o = true ↔ Selects rt gate records g r := by
  have hstored := hspec.stored
  simp only [selected, Bool.and_eq_true, Bool.not_eq_true', hspec.matched, Selects, hr, true_and,
    Bool.and_eq_false_iff, decide_eq_false_iff_not]
  constructor
  · rintro ⟨⟨⟨id, hid, hnode⟩, hsup⟩, hgate⟩
    obtain ⟨n, hn⟩ := Option.isSome_iff_exists.mp hnode
    refine ⟨hsup, id, n, hid, hn, ?_⟩
    rintro ⟨rfl, heq⟩
    rw [hstored id n hid hn rfl] at hgate
    simp [heq] at hgate
  · rintro ⟨hsup, id, n, hid, hn, hgate⟩
    refine ⟨⟨⟨id, hid, Option.isSome_iff_exists.mpr ⟨n, hn⟩⟩, hsup⟩, ?_⟩
    rw [hstored id n hid hn rfl]
    cases gate with
    | false => exact .inl rfl
    | true => exact .inr fun heq => hgate ⟨rfl, heq⟩

theorem Selects.owner {records : List Dict} {g : Graph} {r : Dict × Nat}
    (h : Selects rt gate records g r) : ∃ n, g.node (artistKey (ownerText rt r.1)) = some n ∧
      discogsId rt "discogs_artist_id" r.1 = some (ownerText rt r.1) ∧
      ¬ (gate = true ∧ n "mb_relations_hash" = relationsDigest rt r.1) := by
  obtain ⟨_, _, id, n, hid, hn, hgate⟩ := h
  have howner : ownerText rt r.1 = id := (discogsId_eq_some.mp hid).2
  rw [howner]
  exact ⟨n, hn, hid, hgate⟩

/-! ## What it leaves -/

def setRelationsHash (digest : Json) (n : Props) : Props :=
  Function.update n "mb_relations_hash" digest

/-- The relation phase of a batch: the edges of the selected records, and the
digests of those that are complete. -/
structure RelationPhase (rt : Runtime) (gate : Bool) (records : List Dict) (g g₁ g' : Graph) :
    Prop where
  edges : ∀ type row, HasEdge g' type row ↔ HasEdge g type row ∨
    ∃ r, Selects rt gate records g r ∧ Projects rt g r.1 type row
  stored : ∀ r, Selects rt gate records g r → Complete rt g r.1 →
    g'.node (artistKey (ownerText rt r.1)) =
      (g₁.node (artistKey (ownerText rt r.1))).map (setRelationsHash (relationsDigest rt r.1))
  frame : ∀ k, (∀ r, Selects rt gate records g r → Complete rt g r.1 →
    artistKey (ownerText rt r.1) ≠ k) → g'.node k = g₁.node k

section Congr

variable {g g₁ : Graph} (hnode : ∀ k, (g₁.node k).isSome = (g.node k).isSome)
include hnode

theorem bothSides_congr (row : RelationRow) : bothSides g₁ row = bothSides g row := by
  simp only [bothSides, hnode]

variable (hrels : g₁.rels = g.rels)
include hrels

theorem matchedRows_congr (type : RelType) (row : RelationRow) :
    matchedRows type g₁ row = matchedRows type g row := by
  simp only [matchedRows, bothSides_congr hnode, hrels]

theorem ownerRows_congr (merges : List (RelType × RelationRow)) (owner : String) :
    ownerRows g₁ merges owner = ownerRows g merges owner := by
  simp only [ownerRows, matchedRows_congr hnode hrels]

end Congr

/-- The owner of a selected record is complete when its own relations are. -/
theorem complete_iff {sel : List (Dict × Nat)} (hnd : sel.Nodup)
    (hinj : ∀ r ∈ sel, ∀ r' ∈ sel, ownerText rt r.1 = ownerText rt r'.1 → r = r') {g : Graph}
    {r : Dict × Nat} (hr : r ∈ sel) :
    expectedCount rt (sel.flatMap fun r => ownedRelations rt r.1) (ownerText rt r.1) ≤
        ownerRows g ((sel.flatMap fun r => ownedRelations rt r.1).filterMap (mergeOf rt))
          (ownerText rt r.1) ↔
      Complete rt g r.1 := by
  rw [expectedCount_filter, ownerRows_filter, filter_relations_eq hnd hinj hr, Complete]
  have hsum := expected_add_surplus rt g (ownerText rt r.1) (recordRelations r.1).elems
  rw [ownedRelations]
  omega

section Phase

variable {sel : List (Dict × Nat)} {w : RelationWork} {tx tx' : Tx}

theorem WorkSpec.mem_digests (hw : WorkSpec rt sel w)
    (hinj : ∀ r ∈ sel, ∀ r' ∈ sel, ownerText rt r.1 = ownerText rt r'.1 → r = r')
    {owner : String} {digest : Json} :
    (owner, digest) ∈ w.digests ↔
      ∃ r ∈ sel, ownerText rt r.1 = owner ∧ relationsDigest rt r.1 = digest := by
  rw [hw.digests, ← OrderedDict.lookup_eq_some_iff (OrderedDict.nodup_keys_collect _ _ _),
    OrderedDict.lookup_collect, Option.map_eq_some_iff]
  constructor
  · rintro ⟨r, hfind, rfl⟩
    exact ⟨r, List.mem_reverse.mp (List.mem_of_find?_eq_some hfind),
      by simpa using List.find?_some hfind, rfl⟩
  · rintro ⟨r, hr, rfl, rfl⟩
    have hsome : (sel.reverse.find? fun r' =>
        decide (some (ownerText rt r'.1) = some (ownerText rt r.1))).isSome := by
      rw [List.find?_isSome]
      exact ⟨r, List.mem_reverse.mpr hr, by simp⟩
    obtain ⟨r', hfind⟩ := Option.isSome_iff_exists.mp hsome
    have hmem := List.mem_reverse.mp (List.mem_of_find?_eq_some hfind)
    have htext : ownerText rt r'.1 = ownerText rt r.1 := by simpa using List.find?_some hfind
    exact ⟨r', hfind, by rw [hinj r' hmem r hr htext]⟩

/-- The merges of a batch are the supported relations of its selected records. -/
theorem WorkSpec.mem_merges (hw : WorkSpec rt sel w) {m : RelType × RelationRow} :
    m ∈ w.relations.filterMap (mergeOf rt) ↔ ∃ r ∈ sel, ∃ relation ∈ (recordRelations r.1).elems,
      supported rt (ownerText rt r.1) relation = some (m.1, some m.2) := by
  rw [List.mem_filterMap, hw.relations]
  simp only [mergeOf_eq_some, List.mem_flatMap, ownedRelations, List.mem_map]
  constructor
  · rintro ⟨_, ⟨r, hr, relation, hrel, rfl⟩, hs⟩
    exact ⟨r, hr, relation, hrel, hs⟩
  · rintro ⟨r, hr, relation, hrel, hs⟩
    exact ⟨_, ⟨r, hr, relation, hrel, rfl⟩, hs⟩

/-- Work without digests is that of no record. -/
theorem WorkSpec.eq_nil (hw : WorkSpec rt sel w)
    (hinj : ∀ r ∈ sel, ∀ r' ∈ sel, ownerText rt r.1 = ownerText rt r'.1 → r = r')
    (hnil : w.digests = []) (r : Dict × Nat) : r ∉ sel := by
  intro hr
  have hmem := (hw.mem_digests hinj).mpr ⟨r, hr, rfl, rfl⟩
  rw [hnil] at hmem
  cases hmem

/-- The edges after the collected work: those of its rows, merged in some order. -/
theorem projectRelations_merges (hw : WorkSpec rt sel w)
    (hinj : ∀ r ∈ sel, ∀ r' ∈ sel, ownerText rt r.1 = ownerText rt r'.1 → r = r')
    (h : projectRelations rt w tx = .ok tx') :
    ∃ merges : List (RelType × RelationRow),
      (∀ m, m ∈ merges ↔ ∃ r ∈ sel, ∃ relation ∈ (recordRelations r.1).elems,
        supported rt (ownerText rt r.1) relation = some (m.1, some m.2)) ∧
      tx'.graph.rels = (mergeAll merges tx.graph).rels := by
  unfold projectRelations at h
  split at h
  · rename_i hnil
    cases Except.pure_eq_ok.mp h
    refine ⟨[], fun m => ⟨nofun, ?_⟩, rfl⟩
    rintro ⟨r, hr, _⟩
    exact absurd hr (hw.eq_nil hinj hnil r)
  · obtain ⟨⟨tx₁, complete⟩, hbatch, h⟩ := Except.bind_eq_ok.mp h
    cases Except.pure_eq_ok.mp h
    obtain ⟨⟨merges, hperm, hgraph⟩, _, _⟩ := createRelationshipEdgesBatch_spec hbatch
    refine ⟨merges, fun m => hperm.mem_iff.trans hw.mem_merges, ?_⟩
    rw [← hgraph]
    exact PropertyGraph.Graph.rels_foldl_update _ _

/-- What projecting the collected work leaves. -/
theorem projectRelations_spec (hw : WorkSpec rt sel w) (hnd : sel.Nodup)
    (hinj : ∀ r ∈ sel, ∀ r' ∈ sel, ownerText rt r.1 = ownerText rt r'.1 → r = r')
    (h : projectRelations rt w tx = .ok tx') :
    (∀ type row, HasEdge tx'.graph type row ↔ HasEdge tx.graph type row ∨
      ∃ r ∈ sel, Projects rt tx.graph r.1 type row) ∧
    (∀ r ∈ sel, Complete rt tx.graph r.1 → tx'.graph.node (artistKey (ownerText rt r.1)) =
      (tx.graph.node (artistKey (ownerText rt r.1))).map
        (setRelationsHash (relationsDigest rt r.1))) ∧
    ∀ k, (∀ r ∈ sel, Complete rt tx.graph r.1 → artistKey (ownerText rt r.1) ≠ k) →
      tx'.graph.node k = tx.graph.node k := by
  refine ⟨fun type row => ?_, ?_⟩
  · obtain ⟨merges, hmerges, hrels⟩ := projectRelations_merges hw hinj h
    rw [HasEdge, hrels, ← HasEdge, hasEdge_mergeAll]
    apply or_congr_right
    constructor
    · rintro ⟨m, hm, rfl, hends, hboth⟩
      obtain ⟨r, hr, relation, hrel, hs⟩ := (hmerges m).mp hm
      exact ⟨r, hr, relation, hrel, m.2, hs, hends, hboth⟩
    · rintro ⟨r, hr, relation, hrel, row₀, hs, hends, hboth⟩
      exact ⟨(type, row₀), (hmerges _).mpr ⟨r, hr, relation, hrel, hs⟩, rfl, hends, hboth⟩
  unfold projectRelations at h
  split at h
  · rename_i hnil
    cases Except.pure_eq_ok.mp h
    exact ⟨fun r hr => absurd hr (hw.eq_nil hinj hnil r), fun _ _ => rfl⟩
  · obtain ⟨⟨tx₁, complete⟩, hbatch, h⟩ := Except.bind_eq_ok.mp h
    cases Except.pure_eq_ok.mp h
    obtain ⟨⟨merges, _, hgraph⟩, _, hcomplete⟩ := createRelationshipEdgesBatch_spec hbatch
    dsimp only at hgraph ⊢
    -- The owners whose digest is stored are the complete ones.
    have hdone : ∀ d : String × Json,
        d ∈ (w.digests.filter fun d => (complete.lookup d.1).getD true) ↔
          ∃ r ∈ sel, Complete rt tx.graph r.1 ∧ (ownerText rt r.1, relationsDigest rt r.1) = d := by
      rintro ⟨owner, digest⟩
      rw [List.mem_filter, hw.mem_digests hinj]
      constructor
      · rintro ⟨⟨r, hr, rfl, rfl⟩, hdone⟩
        rw [hcomplete, hw.relations] at hdone
        exact ⟨r, hr, (complete_iff hnd hinj hr).mp hdone, rfl⟩
      · rintro ⟨r, hr, hcomp, heq⟩
        cases heq
        refine ⟨⟨r, hr, rfl, rfl⟩, ?_⟩
        rw [hcomplete, hw.relations]
        exact (complete_iff hnd hinj hr).mpr hcomp
    have hkeys : ((w.digests.filter fun d => (complete.lookup d.1).getD true).map
        fun d => artistKey d.1).Nodup := by
      have hdigests : (w.digests.map Prod.fst).Nodup := by
        rw [hw.digests]
        exact OrderedDict.nodup_keys_collect _ _ _
      have hsub := (List.filter_sublist (p := fun d : String × Json =>
        (complete.lookup d.1).getD true) (l := w.digests)).map Prod.fst
      have hmap := (hsub.nodup hdigests).map fun _ _ heq => artistKey_inj.mp heq
      rwa [List.map_map] at hmap
    refine ⟨fun r hr hcomp => ?_, fun k hk => ?_⟩
    · have hmem := (hdone _).mpr ⟨r, hr, hcomp, rfl⟩
      have hnode := PropertyGraph.Graph.node_foldl_update_of_mem hkeys hmem tx₁.graph
        (f := fun d n => Function.update n "mb_relations_hash" d.2)
      rw [hgraph, node_mergeAll] at hnode
      rw [hgraph]
      exact hnode
    · rw [storeRelationsHashCypher, PropertyGraph.Graph.node_foldl_update_of_forall_ne, hgraph,
        node_mergeAll]
      intro d hd heq
      obtain ⟨r, hr, hcomp, rfl⟩ := (hdone d).mp hd
      exact hk r hr hcomp heq

end Phase

/-- A batch writes the nodes of its last records and collects the work of the
records it selects, at most one of each owner. -/
theorem enrichArtistsBatch_phases {records : List Dict} {tx tx' : Tx} {flags : List Bool}
    (h : enrichArtistsBatch rt gate now records tx = .ok (tx', flags)) :
    ∃ tx₁ sel w, NodeWrite rt gate now artistSpec records tx.graph tx₁.graph ∧
      (∀ r, r ∈ sel ↔ Selects rt gate records tx.graph r) ∧ sel.Nodup ∧
      (∀ r ∈ sel, ∀ r' ∈ sel, ownerText rt r.1 = ownerText rt r'.1 → r = r') ∧
      WorkSpec rt sel w ∧ projectRelations rt w tx₁ = .ok tx' := by
  obtain ⟨⟨tx₁, outcomes⟩, hrun, h⟩ := Except.bind_eq_ok.mp h
  obtain ⟨w, hwork, h⟩ := Except.bind_eq_ok.mp h
  obtain ⟨tx₂, hproject, h⟩ := Except.bind_eq_ok.mp h
  cases Except.pure_eq_ok.mp h
  obtain ⟨outcome, rfl, hspec⟩ := runEntityBatch_outcomes hrun
  rw [zipIdx_zip_zipIdx] at hwork
  have hmem : ∀ r, r ∈ (records.zipIdx.filter fun r => selected rt gate records r (outcome r)) ↔
      Selects rt gate records tx.graph r := by
    intro r
    rw [List.mem_filter]
    constructor
    · rintro ⟨hr, hsel⟩
      exact (selected_iff hr (hspec r hr)).mp hsel
    · intro hsel
      exact ⟨hsel.1, (selected_iff hsel.1 (hspec r hsel.1)).mpr hsel⟩
  have hnd : records.zipIdx.Nodup :=
    List.Nodup.of_map Prod.snd (by rw [List.zipIdx_map_snd]; exact List.nodup_range')
  refine ⟨tx₁, _, w, runEntityBatch_nodeWrite hrun, hmem, hnd.filter _, ?_, workSpec hwork, hproject⟩
  intro r hr r' hr' htext
  have hsel := (hmem r).mp hr
  have hsel' := (hmem r').mp hr'
  exact eq_of_not_superseded hsel.1 hsel'.1 hsel.2.1 hsel'.2.1 htext

/-- A batch writes the nodes of its last records, then projects the relations of
the records it selects. -/
theorem enrichArtistsBatch_spec {records : List Dict} {tx tx' : Tx} {flags : List Bool}
    (h : enrichArtistsBatch rt gate now records tx = .ok (tx', flags)) :
    ∃ g₁, NodeWrite rt gate now artistSpec records tx.graph g₁ ∧
      RelationPhase rt gate records tx.graph g₁ tx'.graph := by
  obtain ⟨tx₁, sel, w, hwrite, hmem, hnd, hinj, hw, hproject⟩ := enrichArtistsBatch_phases h
  obtain ⟨hedges, hstored, hframe⟩ := projectRelations_spec hw hnd hinj hproject
  have hprojects : ∀ record type row,
      Projects rt tx₁.graph record type row ↔ Projects rt tx.graph record type row := by
    intro record type row
    simp only [Projects, bothSides_congr hwrite.isSome_node]
  have hcomplete : ∀ r ∈ sel, (Complete rt tx₁.graph r.1 ↔ Complete rt tx.graph r.1) := by
    intro r hr
    rw [← complete_iff hnd hinj hr, ← complete_iff hnd hinj hr,
      ownerRows_congr hwrite.isSome_node hwrite.rels]
  refine ⟨tx₁.graph, hwrite, ?_, ?_, ?_⟩
  · intro type row
    rw [hedges, HasEdge, hwrite.rels, ← HasEdge]
    simp only [hmem, hprojects]
  · intro r hsel hcomp
    have hr := (hmem r).mpr hsel
    exact hstored r hr ((hcomplete r hr).mpr hcomp)
  · intro k hk
    exact hframe k fun r hr hcomp => hk r ((hmem r).mp hr) ((hcomplete r hr).mp hcomp)

/-! ## One record -/

theorem createRelationshipEdges_graph {owner : String} {relations : List Json} {tx tx' : Tx}
    (h : createRelationshipEdges rt owner relations tx = .ok tx') :
    tx'.graph = mergeAll ((relations.map (Prod.mk owner)).filterMap (mergeOf rt)) tx.graph := by
  unfold createRelationshipEdges at h
  induction relations generalizing tx with
  | nil =>
    cases Except.pure_eq_ok.mp h
    rfl
  | cons relation relations ih =>
    rw [List.foldlM_cons] at h
    obtain ⟨tx₁, hedge, h⟩ := Except.bind_eq_ok.mp h
    obtain ⟨r, hr, hedge⟩ := Except.bind_eq_ok.mp hedge
    have hsupported := supported_of_eq_ok hr
    rw [ih h, List.map_cons]
    match r with
    | none =>
      cases Except.pure_eq_ok.mp hedge
      rw [List.filterMap_cons_none (by simp [mergeOf, hsupported])]
    | some (type, none) =>
      cases Except.pure_eq_ok.mp hedge
      rw [List.filterMap_cons_none (by simp [mergeOf, hsupported])]
    | some (type, some row) =>
      cases Except.pure_eq_ok.mp hedge
      rw [List.filterMap_cons_some ((mergeOf_eq_some (m := (type, row))).mpr hsupported)]
      rfl

/-- A record matches exactly when it has an id and the node exists. -/
theorem enrichNode_matched_iff {record : Dict} {spec : EntitySpec} {tx tx' : Tx}
    {matched : Option (String × Bool)}
    (h : enrichNode rt gate now spec record tx = .ok (tx', matched)) {id : String} :
    (∃ b, matched = some (id, b)) ↔
      discogsId rt spec.idKey record = some id ∧ (tx.graph.node ⟨spec.kind, id⟩).isSome := by
  constructor
  · rintro ⟨b, hb⟩
    obtain ⟨hid, n, _, hn, _⟩ := (enrichNode_matched h).mp hb
    exact ⟨hid, Option.isSome_iff_exists.mpr ⟨n, hn⟩⟩
  · rintro ⟨hid, hnode⟩
    obtain ⟨n, hn⟩ := Option.isSome_iff_exists.mp hnode
    have hlast : lastOf rt spec.idKey [record] id = some record := by
      rw [lastOf_singleton, if_pos hid]
    obtain ⟨row, hproj, _⟩ := (enrichNode_nodeWrite h).written id record hlast
    exact ⟨_, (enrichNode_matched h).mpr ⟨hid, n, row, hn, hproj, rfl⟩⟩

/-- Relations that read as false are none. -/
theorem elems_recordRelations_of_not_truthy {record : Dict}
    (h : ¬ (recordRelations record).truthy = true) : (recordRelations record).elems = [] := by
  rw [recordRelations, Json.or] at h ⊢
  split
  · rename_i htruthy
    rw [if_pos htruthy] at h
    exact absurd htruthy h
  · rfl

/-- The per-message write: the node of the record, then all its relations if the
node is there. -/
theorem enrichArtist_merges {record : Dict} {tx tx' : Tx}
    (h : enrichArtist rt gate now record tx = .ok tx') :
    ∃ g₁ merges, NodeWrite rt gate now artistSpec [record] tx.graph g₁ ∧
      tx'.graph = mergeAll merges g₁ ∧
      ∀ m, m ∈ merges ↔ (∃ id, discogsId rt "discogs_artist_id" record = some id ∧
          (tx.graph.node (artistKey id)).isSome) ∧
        ∃ relation ∈ (recordRelations record).elems,
          supported rt (ownerText rt record) relation = some (m.1, some m.2) := by
  obtain ⟨⟨tx₁, matched⟩, hnode, h⟩ := Except.bind_eq_ok.mp h
  refine ⟨tx₁.graph, ?_⟩
  dsimp only at h
  split at h
  · -- No artist matched, so no relation is projected.
    cases Except.pure_eq_ok.mp h
    refine ⟨[], enrichNode_nodeWrite hnode, rfl, fun m => ⟨nofun, ?_⟩⟩
    rintro ⟨⟨id, hid⟩, _⟩
    obtain ⟨b, hb⟩ := (enrichNode_matched_iff hnode).mpr hid
    cases hb
  · rename_i id b
    have hmatch := (enrichNode_matched_iff hnode).mp ⟨b, rfl⟩
    have howner : ownerText rt record = id := (discogsId_eq_some.mp hmatch.1).2
    split at h
    · obtain ⟨xs, hiter, h⟩ := Except.bind_eq_ok.mp h
      refine ⟨_, enrichNode_nodeWrite hnode, createRelationshipEdges_graph h, fun m => ?_⟩
      rw [Json.elems_of_iter hiter, howner]
      simp only [List.mem_filterMap, mergeOf_eq_some, List.mem_map]
      constructor
      · rintro ⟨_, ⟨relation, hrel, rfl⟩, hs⟩
        exact ⟨⟨id, hmatch⟩, relation, hrel, hs⟩
      · rintro ⟨_, relation, hrel, hs⟩
        exact ⟨_, ⟨relation, hrel, rfl⟩, hs⟩
    · rename_i hfalsy
      cases Except.pure_eq_ok.mp h
      refine ⟨[], enrichNode_nodeWrite hnode, rfl, fun m => ⟨nofun, ?_⟩⟩
      rintro ⟨_, relation, hrel, _⟩
      rw [elems_recordRelations_of_not_truthy hfalsy] at hrel
      cases hrel

theorem enrichArtist_spec {record : Dict} {tx tx' : Tx}
    (h : enrichArtist rt gate now record tx = .ok tx') :
    ∃ g₁, NodeWrite rt gate now artistSpec [record] tx.graph g₁ ∧ tx'.graph.node = g₁.node ∧
      ∀ type row, HasEdge tx'.graph type row ↔ HasEdge tx.graph type row ∨
        (∃ id, discogsId rt "discogs_artist_id" record = some id ∧
          (tx.graph.node (artistKey id)).isSome) ∧ Projects rt tx.graph record type row := by
  obtain ⟨g₁, merges, hwrite, hgraph, hmerges⟩ := enrichArtist_merges h
  refine ⟨g₁, hwrite, by rw [hgraph, node_mergeAll], fun type row => ?_⟩
  rw [hgraph, hasEdge_mergeAll, HasEdge, hwrite.rels, ← HasEdge]
  apply or_congr_right
  simp only [bothSides_congr hwrite.isSome_node]
  constructor
  · rintro ⟨m, hm, rfl, hends, hboth⟩
    obtain ⟨hid, relation, hrel, hs⟩ := (hmerges m).mp hm
    exact ⟨hid, relation, hrel, m.2, hs, hends, hboth⟩
  · rintro ⟨hid, relation, hrel, row₀, hs, hends, hboth⟩
    exact ⟨(type, row₀), (hmerges _).mpr ⟨hid, relation, hrel, hs⟩, rfl, hends, hboth⟩

end Brainzgraphinator
