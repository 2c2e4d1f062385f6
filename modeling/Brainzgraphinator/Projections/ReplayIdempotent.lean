-- SUMMARY: Running a batch again, or its records one by one, on the graph the batch left.
import Brainzgraphinator.Projections.SettledRelations

/-!
# Replays

After a batch every node has the digest of the last record of its id, so a second
run writes no property, reconciles no media and selects only artists whose
relations were incomplete: those it merges again are settled. One by one the same
records change nothing either, unless an id-less record made the batch drop the
relations of the artist `None`.
-/

namespace Brainzgraphinator

variable {rt : Runtime} {gate : Bool} {now : Json}

/-! ## Stored digests keep writes out -/

/-- Every matched node has the digest of the last record of its id. -/
def HashesStored (rt : Runtime) (t : EntityType) (records : List Dict) (g : Graph) : Prop :=
  ∀ id record row n, lastOf rt (t.spec rt).idKey records id = some record →
    (t.spec rt).Projects rt record row → g.node ⟨(t.spec rt).kind, id⟩ = some n →
    n "mb_hash" = row.mbHash

theorem not_changed_of_eq_hash {n : Props} {parts : List Json}
    (h : n "mb_hash" = payloadHash rt parts) : changed true n (payloadHash rt parts) = false := by
  simp [changed, h]

section Stored

variable {t : EntityType} {records : List Dict} {g g' : Graph}

/-- A write stores the digests of its records. -/
theorem EntityWrite.hashesStored (h : EntityWrite rt gate now t records g g') :
    HashesStored rt t records g' := by
  intro id record row n' hlast hproj hn'
  obtain ⟨g₁, n₁, hwrite, hn₁, hsame⟩ := h.exists_node hn'
  obtain ⟨row', hproj', hnode⟩ := hwrite.written id record hlast
  rw [hnode, Option.map_eq_some_iff] at hn₁
  obtain ⟨n, _, rfl⟩ := hn₁
  rw [hsame "mb_hash" (List.mem_append_right _ (by decide)), gatedWrite_hash,
    (hproj.unique hproj').2]

/-- A gated write of stored digests leaves the graph as it is. -/
theorem NodeWrite.eq_of_hashesStored (hwrite : NodeWrite rt true now (t.spec rt) records g g')
    (hstored : HashesStored rt t records g) : g' = g := by
  apply PropertyGraph.Graph.ext
  · funext k
    by_cases hk : k.label = (t.spec rt).kind
    · obtain ⟨kind, id⟩ := k
      cases hk
      cases hlast : lastOf rt (t.spec rt).idKey records id with
      | none => exact hwrite.frame _ fun _ => hlast
      | some record =>
        obtain ⟨row, hproj, hnode⟩ := hwrite.written id record hlast
        rw [hnode]
        cases hn : g.node ⟨(t.spec rt).kind, id⟩ with
        | none => rfl
        | some n =>
          have hhash := hstored id record row n hlast hproj hn
          rw [hproj.2] at hhash
          rw [Option.map_some, gatedWrite, hproj.2, not_changed_of_eq_hash hhash]
          rfl
    · exact hwrite.frame k fun heq => absurd heq hk
  · exact hwrite.rels

/-- A release write of stored digests reconciles no media. -/
theorem ReleaseWrite.eq_of_hashesStored (h : ReleaseWrite rt true now records g g')
    (hstored : HashesStored rt .releases records g) : g' = g := by
  obtain ⟨g₁, summaries, items, hwrite, hplan, hmedia⟩ := h
  have hnone : ∀ id block, ¬ Reconciles rt true records g id block := by
    rintro id block ⟨record, n, row, hlast, hn, hproj, hc, _⟩
    have hhash := hstored id record row n hlast hproj hn
    rw [hproj.2] at hhash hc
    rw [not_changed_of_eq_hash hhash] at hc
    cases hc
  have hempty : summaries = [] := by
    refine List.eq_nil_iff_forall_not_mem.mpr fun row hrow => ?_
    obtain ⟨id, block, hrec, _⟩ := (hplan.mem_summaries row).mp hrow
    exact hnone id block hrec
  rw [hempty] at hmedia
  have hsame : g' = g₁ := (Except.pure_eq_ok.mp hmedia).symm
  have hwrite' : NodeWrite rt true now (EntityType.spec rt .releases) records g g₁ := hwrite
  rw [hsame, hwrite'.eq_of_hashesStored hstored]

end Stored

/-! ## Relations of a replayed batch -/

section Artists

variable {records : List Dict} {tx tx' : Tx} {flags : List Bool}

/-- A batch that went through has read the relations of every record it selects. -/
theorem enrichArtistsBatch_wellFormed
    (h : enrichArtistsBatch rt gate now records tx = .ok (tx', flags)) {r : Dict × Nat}
    (hr : Selects rt gate records tx.graph r) : WellFormedRelations rt r.1 := by
  obtain ⟨tx₁, sel, w, _, hsel, _, hinj, hw, hproject⟩ := enrichArtistsBatch_phases h
  have hmem := (hsel r).mpr hr
  refine ⟨hw.iter r hmem, fun relation hrel => ?_⟩
  unfold projectRelations at hproject
  split at hproject
  · rename_i hnil
    exact absurd hmem (hw.eq_nil hinj hnil r)
  · obtain ⟨⟨tx₂, complete⟩, hbatch, _⟩ := Except.bind_eq_ok.mp hproject
    obtain ⟨_, hok, _⟩ := createRelationshipEdgesBatch_spec hbatch
    refine hok (ownerText rt r.1, relation) ?_
    rw [hw.relations, List.mem_flatMap]
    exact ⟨r, hmem, List.mem_map.mpr ⟨relation, hrel, rfl⟩⟩

/-- A batch does not change how many rows a merge matches. -/
theorem enrichArtistsBatch_matchedRows
    (h : enrichArtistsBatch rt gate now records tx = .ok (tx', flags)) (type : RelType)
    (row : RelationRow) : matchedRows type tx'.graph row = matchedRows type tx.graph row := by
  obtain ⟨tx₁, _, _, hwrite, _, _, hinj, hw, hproject⟩ := enrichArtistsBatch_phases h
  obtain ⟨merges, _, hrels⟩ := projectRelations_merges hw hinj hproject
  obtain ⟨g₁, hwrite', hphase⟩ := enrichArtistsBatch_spec h
  have hnode : ∀ k, (tx'.graph.node k).isSome = ((mergeAll merges tx₁.graph).node k).isSome := by
    intro k
    rw [hphase.isSome_node, hwrite'.isSome_node, node_mergeAll, hwrite.isSome_node]
  rw [matchedRows_congr hnode hrels, matchedRows_mergeAll,
    matchedRows_congr hwrite.isSome_node hwrite.rels]

theorem enrichArtistsBatch_complete
    (h : enrichArtistsBatch rt gate now records tx = .ok (tx', flags)) (record : Dict) :
    Complete rt tx'.graph record ↔ Complete rt tx.graph record := by
  have hboth : ∀ row, bothSides tx'.graph row = bothSides tx.graph row :=
    (batchProjections_keepsSettled (t := .artists) h).bothSides
  have hunresolved : unresolved rt tx'.graph = unresolved rt tx.graph := by
    funext owner relation
    simp only [unresolved, hboth]
  have hsurplus : surplus rt tx'.graph = surplus rt tx.graph := by
    funext owner relation
    simp only [surplus, enrichArtistsBatch_matchedRows h]
  rw [Complete, hunresolved, hsurplus, Complete]

/-- A replay selects records the batch has selected and found incomplete. -/
theorem selects_of_replay (h : enrichArtistsBatch rt true now records tx = .ok (tx', flags))
    {r : Dict × Nat} (hr : Selects rt true records tx'.graph r) :
    Selects rt true records tx.graph r ∧ ¬ Complete rt tx.graph r.1 := by
  obtain ⟨g₁, hwrite, hphase⟩ := enrichArtistsBatch_spec h
  obtain ⟨n', hn', hid, hgate'⟩ := hr.owner
  have hhash' : n' "mb_relations_hash" ≠ relationsDigest rt r.1 := fun heq => hgate' ⟨rfl, heq⟩
  have hsome : (tx.graph.node (artistKey (ownerText rt r.1))).isSome := by
    rw [← hwrite.isSome_node, ← hphase.isSome_node, hn']
    rfl
  obtain ⟨n, hn⟩ := Option.isSome_iff_exists.mp hsome
  have hsel : Selects rt true records tx.graph r := by
    refine ⟨hr.1, hr.2.1, ownerText rt r.1, n, hid, hn, ?_⟩
    rintro ⟨_, hhash⟩
    rcases relationsHash_of_batch hwrite hphase hn' with ⟨n₀, hn₀, heq⟩ | ⟨r₀, hsel₀, _, htext, heq⟩
    · cases hn.symm.trans hn₀
      exact hhash' (heq.trans hhash)
    · have hsame := eq_of_not_superseded hsel₀.1 hr.1 hsel₀.2.1 hr.2.1 htext
      exact hhash' (hsame ▸ heq)
  refine ⟨hsel, fun hcomplete => ?_⟩
  -- A complete record has its digest stored, which would keep it from being selected again.
  have hstored := hphase.stored r hsel hcomplete
  rw [hn', eq_comm, Option.map_eq_some_iff] at hstored
  obtain ⟨n₁, _, rfl⟩ := hstored
  exact hhash' (by rw [setRelationsHash, Function.update_self])

/-- A replayed artist batch leaves the graph as it is. -/
theorem enrichArtistsBatch_replay_graph {now' : Json} {tx₂ : Tx} {flags' : List Bool} {s : Stats}
    (h : enrichArtistsBatch rt true now records tx = .ok (tx', flags))
    (h' : enrichArtistsBatch rt true now' records ⟨tx'.graph, s⟩ = .ok (tx₂, flags')) :
    tx₂.graph = tx'.graph := by
  have hstored : HashesStored rt .artists records tx'.graph :=
    (batchProjections_entityWrite (t := .artists) h).hashesStored
  apply PropertyGraph.Graph.ext
  · obtain ⟨g₁, hwrite, hphase⟩ := enrichArtistsBatch_spec h'
    have hwrite' : NodeWrite rt true now' (EntityType.spec rt .artists) records tx'.graph g₁ := hwrite
    funext k
    rw [hphase.frame k, hwrite'.eq_of_hashesStored hstored]
    intro r hsel hcomplete
    exact absurd ((enrichArtistsBatch_complete h r.1).mp hcomplete) (selects_of_replay h hsel).2
  · obtain ⟨tx₁, _, _, hwrite, hsel, _, hinj, hw, hproject⟩ := enrichArtistsBatch_phases h'
    obtain ⟨merges, hmem, hrels⟩ := projectRelations_merges hw hinj hproject
    have hwrite' : NodeWrite rt true now' (EntityType.spec rt .artists) records tx'.graph tx₁.graph :=
      hwrite
    rw [hrels, hwrite'.eq_of_hashesStored hstored, mergeAll_eq_self]
    intro m hm hb
    obtain ⟨r, hr, relation, hrel, hs⟩ := (hmem m).mp hm
    obtain ⟨hsel₀, _⟩ := selects_of_replay h ((hsel r).mp hr)
    rw [(batchProjections_keepsSettled (t := .artists) h).bothSides] at hb
    exact (enrichArtistsBatch_settled h).mpr
      (.inr ⟨r, hsel₀, relation, hrel, m.2, hs, ⟨rfl, rfl⟩, hb⟩)

end Artists

/-! ## Running the batch again -/

/-- The distinct ids of the records whose node is there. -/
def matchedIds (rt : Runtime) (t : EntityType) (g : Graph) (records : List Dict) : List String :=
  (records.filterMap (discogsId rt (t.spec rt).idKey)).dedup.filter fun id =>
    (g.node ⟨(t.spec rt).kind, id⟩).isSome

section Batch

variable {t : EntityType} {records : List Dict} {g : Graph}

/-- The gated statement over rows whose digests are stored writes nothing. -/
theorem gatedCypher_of_stored {kind : NodeLabel} {fields : Fields} {rows : List EntityRow}
    (h : ∀ row ∈ rows, ∀ n, g.node ⟨kind, row.discogsId⟩ = some n → changed gate n row.mbHash = false) :
    gatedCypher rt gate kind fields now rows g = .ok (g, rows.filterMap fun row =>
      (g.node ⟨kind, row.discogsId⟩).map (gatedResult gate row)) := by
  have hnone : ((rows.filterMap fun row => (g.node ⟨kind, row.discogsId⟩).map fun n => (row, n)).filter
      fun m => changed gate m.2 m.1.mbHash) = [] := by
    rw [List.filter_eq_nil_iff]
    rintro ⟨row, n⟩ hm
    obtain ⟨row', hrow, hn⟩ := List.mem_filterMap.mp hm
    obtain ⟨n', hn', heq⟩ := Option.map_eq_some_iff.mp hn
    cases heq
    rw [h row hrow n hn']
    exact Bool.false_ne_true
  simp only [gatedCypher, hnone, List.all_nil, if_true, List.foldl_nil, List.map_filterMap,
    Option.map_map]
  rfl

/-- The rows of a batch are those of the distinct ids of its records. -/
theorem perm_entityRows_discogsId {rows : List EntityRow}
    (hrows : entityRows rt (t.spec rt) records = .ok rows) :
    (rows.map EntityRow.discogsId).Perm
      (records.filterMap (discogsId rt (t.spec rt).idKey)).dedup := by
  rw [List.perm_ext_iff_of_nodup (nodup_entityRows_discogsId hrows) (List.nodup_dedup _)]
  intro id
  rw [List.mem_dedup, List.mem_filterMap, List.mem_map]
  constructor
  · rintro ⟨row, hrow, rfl⟩
    obtain ⟨record, hlast, _⟩ := exists_lastRecord_of_mem_entityRows hrows hrow
    obtain ⟨hmem, hid⟩ := lastRecord_mem hlast
    exact ⟨record, List.fst_mem_of_mem_zipIdx hmem, hid⟩
  · rintro ⟨record, hrecord, hid⟩
    obtain ⟨i, hi, rfl⟩ := List.getElem_of_mem hrecord
    have hmem := List.mk_mem_zipIdx_iff_getElem?.mpr (List.getElem?_eq_getElem hi)
    obtain ⟨⟨last, j⟩, hlast⟩ := exists_lastRecord hmem hid
    obtain ⟨row, hrow, hrowid, _⟩ := exists_mem_entityRows hrows hlast
    exact ⟨row, hrow, hrowid⟩

/-- The shared part of a replay goes through and counts every matched id once. -/
theorem exists_runEntityBatch_of_stored {rows : List EntityRow} {relations : Bool}
    (hrows : entityRows rt (t.spec rt) records = .ok rows) (hstored : HashesStored rt t records g)
    (s : Stats) : ∃ tx₁ outcomes,
      runEntityBatch rt true now (t.spec rt) relations records ⟨g, s⟩ = .ok (tx₁, outcomes) ∧
      tx₁.stats.replaysSkippedUnchanged =
        s.replaysSkippedUnchanged + (matchedIds rt t g records).length := by
  have hsame : ∀ row ∈ rows, ∀ n, g.node ⟨(t.spec rt).kind, row.discogsId⟩ = some n →
      changed true n row.mbHash = false := by
    intro row hrow n hn
    obtain ⟨record, hlast, hproj⟩ := exists_lastRecord_of_mem_entityRows hrows hrow
    have hlastOf : lastOf rt (t.spec rt).idKey records row.discogsId = some record := by
      rw [← lastRecord_map_fst, hlast, Option.map_some]
    have hhash := hstored row.discogsId record row n hlastOf hproj hn
    rw [hproj.2] at hhash ⊢
    exact not_changed_of_eq_hash hhash
  refine ⟨_, _, Except.bind_eq_ok.mpr ⟨rows, hrows,
    Except.bind_eq_ok.mpr ⟨_, gatedCypher_of_stored hsame, rfl⟩⟩, ?_⟩
  -- All result rows are unchanged, one for every row whose node is there.
  have hall : ∀ rs : List EntityRow, (∀ row ∈ rs, row ∈ rows) →
      (rs.filterMap fun row => (g.node ⟨(t.spec rt).kind, row.discogsId⟩).map
        (gatedResult true row)).countP (fun res => !res.changed) =
      ((rs.map EntityRow.discogsId).filter fun id => (g.node ⟨(t.spec rt).kind, id⟩).isSome).length := by
    intro rs
    induction rs with
    | nil => exact fun _ => rfl
    | cons row rs ih =>
      intro hmem
      have ih' := ih fun r hr => hmem r (List.mem_cons_of_mem _ hr)
      rw [List.map_cons]
      cases hn : g.node ⟨(t.spec rt).kind, row.discogsId⟩ with
      | none =>
        rw [List.filterMap_cons_none (by simp [hn]), ih', List.filter_cons_of_neg (by simp [hn])]
      | some n =>
        have hunchanged := hsame row (hmem row List.mem_cons_self) n hn
        rw [List.filterMap_cons_some (by rw [hn, Option.map_some]),
          List.countP_cons_of_pos (by simp [gatedResult, hunchanged]), ih',
          List.filter_cons_of_pos (by simp [hn]), List.length_cons]
  simp only [countOutcomes, hall rows fun _ hr => hr, matchedIds]
  rw [((perm_entityRows_discogsId hrows).filter _).length_eq]

/-- A batch that went through has built its rows. -/
theorem batchProjections_rows {tx tx' : Tx} {flags : List Bool}
    (h : batchProjections rt gate now t records tx = .ok (tx', flags)) :
    ∃ rows, entityRows rt (t.spec rt) records = .ok rows := by
  have hrows : ∀ {relations r}, runEntityBatch rt gate now (t.spec rt) relations records tx = .ok r →
      ∃ rows, entityRows rt (t.spec rt) records = .ok rows := by
    intro relations r hrun
    obtain ⟨rows, hrows, _⟩ := Except.bind_eq_ok.mp hrun
    exact ⟨rows, hrows⟩
  cases t with
  | artists =>
    obtain ⟨_, hrun, _⟩ := Except.bind_eq_ok.mp h
    exact hrows hrun
  | labels =>
    obtain ⟨_, hrun, _⟩ := Except.bind_eq_ok.mp h
    exact hrows hrun
  | releaseGroups =>
    obtain ⟨_, hrun, _⟩ := Except.bind_eq_ok.mp h
    exact hrows hrun
  | releases =>
    obtain ⟨_, hrun, _⟩ := Except.bind_eq_ok.mp h
    exact hrows hrun

/-- A replayed batch goes through, leaves the graph as it is, answers as before and
counts every matched id once. -/
theorem exists_batchProjections_replay {tx tx₁ : Tx} {flags : List Bool}
    (h : batchProjections rt true now t records tx = .ok (tx₁, flags)) (now' : Json) (s : Stats) :
    ∃ tx₂, batchProjections rt true now' t records ⟨tx₁.graph, s⟩ = .ok (tx₂, flags) ∧
      tx₂.graph = tx₁.graph ∧ tx₂.stats.replaysSkippedUnchanged =
        s.replaysSkippedUnchanged + (matchedIds rt t tx.graph records).length := by
  have hstored := (batchProjections_entityWrite h).hashesStored
  obtain ⟨rows, hrows⟩ := batchProjections_rows h
  have hsome : ∀ id, (tx₁.graph.node ⟨(t.spec rt).kind, id⟩).isSome =
      (tx.graph.node ⟨(t.spec rt).kind, id⟩).isSome :=
    fun id => (batchProjections_entityWrite h).isSome_node (t.fixes_kind rt)
  have hids : matchedIds rt t tx₁.graph records = matchedIds rt t tx.graph records := by
    simp only [matchedIds, hsome]
  have hflags : ∀ {tx₂ flags₂},
      batchProjections rt true now' t records ⟨tx₁.graph, s⟩ = .ok (tx₂, flags₂) → flags₂ = flags := by
    intro tx₂ flags₂ h₂
    rw [(batchProjections_counted h₂).1, (batchProjections_counted h).1]
    refine List.map_congr_left fun record _ => ?_
    simp only [matchesNode, hsome]
  have hreplay : ∃ tx₂ outcomes,
      runEntityBatch rt true now' (t.spec rt) (decide (t = .artists)) records ⟨tx₁.graph, s⟩ =
        .ok (tx₂, outcomes) ∧ tx₂.stats.replaysSkippedUnchanged =
        s.replaysSkippedUnchanged + (matchedIds rt t tx₁.graph records).length :=
    exists_runEntityBatch_of_stored hrows hstored s
  obtain ⟨tx₂, outcomes, hrun, hreplays⟩ := hreplay
  rw [← hids]
  suffices hgoal : ∃ tx₃ flags₃,
      batchProjections rt true now' t records ⟨tx₁.graph, s⟩ = .ok (tx₃, flags₃) ∧
        tx₃.graph = tx₁.graph ∧
        tx₃.stats.replaysSkippedUnchanged = tx₂.stats.replaysSkippedUnchanged by
    obtain ⟨tx₃, flags₃, h₃, hgraph, hstats⟩ := hgoal
    cases hflags h₃
    exact ⟨tx₃, h₃, hgraph, hstats.trans hreplays⟩
  have hnode := (runEntityBatch_nodeWrite hrun).eq_of_hashesStored hstored
  cases t with
  | artists =>
    obtain ⟨tx₃, h₃⟩ := exists_enrichArtistsBatch hrun fun r hr =>
      enrichArtistsBatch_wellFormed h (selects_of_replay h hr).1
    refine ⟨tx₃, _, h₃, enrichArtistsBatch_replay_graph h h₃, ?_⟩
    obtain ⟨⟨tx₄, outcomes₄⟩, hrun₄, h₄⟩ := Except.bind_eq_ok.mp h₃
    obtain ⟨w, _, h₄⟩ := Except.bind_eq_ok.mp h₄
    obtain ⟨tx₅, hproject, h₄⟩ := Except.bind_eq_ok.mp h₄
    obtain ⟨rfl, _⟩ := Prod.mk.inj (Except.pure_eq_ok.mp h₄)
    have hsame : (tx₄, outcomes₄) = (tx₂, outcomes) := Except.ok.inj (hrun₄.symm.trans hrun)
    cases hsame
    exact (projectRelations_stats hproject).replays
  | labels => exact ⟨tx₂, _, Except.bind_eq_ok.mpr ⟨_, hrun, rfl⟩, hnode, rfl⟩
  | releaseGroups => exact ⟨tx₂, _, Except.bind_eq_ok.mpr ⟨_, hrun, rfl⟩, hnode, rfl⟩
  | releases =>
    obtain ⟨g', hmedia⟩ := exists_reconcileBatch
      (mediaSummaries rt (reconciledMedia rt (records.zip outcomes)))
      (mediaItems rt (reconciledMedia rt (records.zip outcomes))) tx₂.graph
    have h₃ : batchProjections rt true now' .releases records ⟨tx₁.graph, s⟩ =
        .ok ({ tx₂ with graph := g' }, outcomes.map Outcome.matched) :=
      Except.bind_eq_ok.mpr ⟨_, hrun, Except.bind_eq_ok.mpr ⟨g', hmedia, rfl⟩⟩
    exact ⟨_, _, h₃, (enrichReleasesBatch_releaseWrite h₃).eq_of_hashesStored hstored, rfl⟩

end Batch

/-! ## The records one by one -/

/-- The records one after another, each in a transaction of its own that is rolled
back when it fails; with each the time of its write. -/
def redeliver (rt : Runtime) (gate : Bool) (t : EntityType) (deliveries : List (Json × Dict))
    (g : Graph) : Graph :=
  deliveries.foldl (fun g d =>
    match processors rt gate d.1 t d.2 ⟨g, {}⟩ with
    | .ok tx => tx.graph
    | .error _ => g) g

/-- No two records have the same id. -/
def NamesOnce (rt : Runtime) (t : EntityType) (records : List Dict) : Prop :=
  (records.filterMap (discogsId rt (t.spec rt).idKey)).Nodup

/-- When an id-less record shadows the record of the artist `None`, whatever that
record projects is settled before, or another record of the batch projects it. -/
def ShadowSettled (rt : Runtime) (records : List Dict) (g : Graph) : Prop :=
  NoneShadow rt records g → ∀ record, lastOf rt "discogs_artist_id" records "None" = some record →
    WellFormedRelations rt record → ∀ type row, Projects rt g record type row →
      Settled g type row ∨ ∃ r, Selects rt true records g r ∧ Projects rt g r.1 type row

section OneByOne

variable {t : EntityType} {records : List Dict} {record : Dict} {g : Graph}

theorem HashesStored.singleton (h : HashesStored rt t records g) (honce : NamesOnce rt t records)
    (hmem : record ∈ records) : HashesStored rt t [record] g := by
  intro id record' row n hlast
  rw [lastOf_singleton, Option.ite_none_right_eq_some, Option.some.injEq] at hlast
  obtain ⟨hid, rfl⟩ := hlast
  exact h id record row n (lastOf_of_nodup honce hmem hid)

/-- A record whose digest is stored changes nothing if its relations are settled. -/
theorem processors_replay_graph {s : Stats} {tx' : Tx} (hstored : HashesStored rt t [record] g)
    (hsettled : t = .artists → matchesNode rt .artists g record = true → ∀ type row, Projects rt g record type row →
      Settled g type row)
    (h : processors rt true now t record ⟨g, s⟩ = .ok tx') : tx'.graph = g := by
  cases t with
  | artists =>
    obtain ⟨g₁, merges, hwrite, hgraph, hmem⟩ := enrichArtist_merges h
    have hwrite' : NodeWrite rt true now (EntityType.spec rt .artists) [record] g g₁ := hwrite
    rw [hgraph, hwrite'.eq_of_hashesStored hstored]
    apply mergeAll_eq_self
    intro m hm hb
    obtain ⟨hartist, relation, hrel, hs⟩ := (hmem m).mp hm
    exact hsettled rfl (matchesNode_iff.mpr hartist) m.1 m.2 ⟨relation, hrel, m.2, hs, ⟨rfl, rfl⟩, hb⟩
  | labels =>
    obtain ⟨⟨tx₁, _⟩, hnode, h⟩ := Except.bind_eq_ok.mp h
    have hwrite : NodeWrite rt true now (EntityType.spec rt .labels) [record] g tx₁.graph :=
      enrichNode_nodeWrite hnode
    cases Except.pure_eq_ok.mp h
    exact hwrite.eq_of_hashesStored hstored
  | releaseGroups =>
    obtain ⟨⟨tx₁, _⟩, hnode, h⟩ := Except.bind_eq_ok.mp h
    have hwrite : NodeWrite rt true now (EntityType.spec rt .releaseGroups) [record] g tx₁.graph :=
      enrichNode_nodeWrite hnode
    cases Except.pure_eq_ok.mp h
    exact hwrite.eq_of_hashesStored hstored
  | releases => exact (enrichRelease_releaseWrite h).eq_of_hashesStored hstored

/-- Relations that can be read are merged. -/
theorem exists_createRelationshipEdges {owner : String} {relations : List Json}
    (h : ∀ relation ∈ relations, ∃ r, relationRow rt owner relation = .ok r) (tx : Tx) :
    ∃ tx', createRelationshipEdges rt owner relations tx = .ok tx' := by
  refine Except.exists_foldlM_eq_ok (fun relation hrel tx => ?_) tx
  obtain ⟨r, hr⟩ := h relation hrel
  rw [createRelationshipEdge, hr]
  match r with
  | none => exact ⟨_, rfl⟩
  | some (_, none) => exact ⟨_, rfl⟩
  | some (_, some _) => exact ⟨_, rfl⟩

/-- A record whose digest is stored and whose relations can be read goes through. -/
theorem exists_enrichArtist {id : String} {row : EntityRow} (hid : discogsId rt "discogs_artist_id" record = some id)
    (hproj : artistSpec.Projects rt record row) (hstored : HashesStored rt .artists [record] g)
    (hwf : WellFormedRelations rt record) (s : Stats) :
    ∃ tx', enrichArtist rt true now record ⟨g, s⟩ = .ok tx' := by
  have hsame : ∀ row' ∈ [(⟨0, id, row.row, payloadHash rt [.obj row.row, recordRelations record]⟩ : EntityRow)],
      ∀ n, g.node ⟨.artist, row'.discogsId⟩ = some n → changed true n row'.mbHash = false := by
    intro row' hrow' n hn
    rw [List.mem_singleton.mp hrow'] at hn ⊢
    have hlast : lastOf rt (EntityType.spec rt .artists).idKey [record] id = some record := by
      rw [lastOf_singleton]
      exact if_pos hid
    have hhash := hstored id record row n hlast hproj hn
    rw [hproj.2] at hhash
    exact not_changed_of_eq_hash hhash
  obtain ⟨⟨tx₁, matched⟩, hnode⟩ : ∃ r, enrichNode rt true now artistSpec record ⟨g, s⟩ = .ok r := by
    unfold enrichNode
    split
    · exact ⟨_, rfl⟩
    · rename_i id' hid'
      cases hid.symm.trans hid'
      exact ⟨_, Except.bind_eq_ok.mpr ⟨_, hproj.1, Except.bind_eq_ok.mpr
        ⟨_, gatedCypher_of_stored hsame, rfl⟩⟩⟩
  match matched with
  | none => exact ⟨_, Except.bind_eq_ok.mpr ⟨_, hnode, rfl⟩⟩
  | some (id', b) =>
    obtain ⟨hid', _⟩ := (enrichNode_matched_iff hnode).mp ⟨b, rfl⟩
    have howner : ownerText rt record = id' := (discogsId_eq_some.mp hid').2
    obtain ⟨hiter, hread⟩ := hwf
    rw [howner] at hread
    obtain ⟨tx', hedges⟩ := exists_createRelationshipEdges hread tx₁
    by_cases htruthy : (recordRelations record).truthy = true
    · refine ⟨tx', Except.bind_eq_ok.mpr ⟨_, hnode, ?_⟩⟩
      dsimp only
      rw [if_pos htruthy]
      exact Except.bind_eq_ok.mpr ⟨_, hiter, hedges⟩
    · refine ⟨tx₁, Except.bind_eq_ok.mpr ⟨_, hnode, ?_⟩⟩
      dsimp only
      rw [if_neg htruthy]
      rfl

/-- Deliveries each of which changes nothing change nothing together. -/
theorem redeliver_eq_self {deliveries : List (Json × Dict)}
    (h : ∀ d ∈ deliveries, ∀ tx', processors rt gate d.1 t d.2 ⟨g, {}⟩ = .ok tx' → tx'.graph = g) :
    redeliver rt gate t deliveries g = g := by
  unfold redeliver
  induction deliveries with
  | nil => rfl
  | cons d deliveries ih =>
    have hrest := ih fun d' hd' => h d' (List.mem_cons_of_mem _ hd')
    rw [List.foldl_cons]
    cases hrun : processors rt gate d.1 t d.2 ⟨g, {}⟩ with
    | error e => exact hrest
    | ok tx =>
      dsimp only
      rw [h d List.mem_cons_self tx hrun]
      exact hrest

/-- What is settled stays settled through deliveries. -/
theorem Settled.redeliver {type : RelType} (htype : type ∈ mbRelationshipMap.map Prod.snd)
    {row : RelationRow} {deliveries : List (Json × Dict)} (h : Settled g type row) :
    Settled (redeliver rt gate t deliveries g) type row := by
  unfold Brainzgraphinator.redeliver
  induction deliveries generalizing g with
  | nil => exact h
  | cons d deliveries ih =>
    rw [List.foldl_cons]
    apply ih
    cases hrun : processors rt gate d.1 t d.2 ⟨g, {}⟩ with
    | error e => exact h
    | ok tx => exact (processors_keepsSettled hrun).settled type htype row h

theorem projects_congr {g' : Graph} (h : KeepsSettled g g') {type : RelType} {row : RelationRow} :
    Projects rt g' record type row ↔ Projects rt g record type row := by
  simp only [Projects, h.bothSides]

/-- After a batch the relations of its records are settled, those of a shadowed
record if the condition on it holds. -/
theorem settled_of_batch {tx tx' : Tx} {flags : List Bool}
    (h : enrichArtistsBatch rt true now records tx = .ok (tx', flags))
    (hdigests : DigestsSettled rt tx.graph) (honce : NamesOnce rt .artists records)
    (hshadow : ShadowSettled rt records tx.graph) (hmem : record ∈ records)
    (hmatch : matchesNode rt .artists tx'.graph record = true) (hwf : WellFormedRelations rt record)
    {type : RelType} {row : RelationRow} (hproj : Projects rt tx'.graph record type row) :
    Settled tx'.graph type row := by
  have hkeeps := batchProjections_keepsSettled (t := .artists) h
  rw [projects_congr hkeeps] at hproj
  obtain ⟨id, hid, hnode'⟩ := matchesNode_iff.mp hmatch
  have hnode : (tx.graph.node (artistKey id)).isSome := by
    rw [← hkeeps.artists]
    exact hnode'
  have hlastOf := lastOf_of_nodup honce hmem hid
  have hlast := hlastOf
  rw [← lastRecord_map_fst, Option.map_eq_some_iff] at hlast
  obtain ⟨r, hr, rfl⟩ := hlast
  obtain ⟨n, hn⟩ := Option.isSome_iff_exists.mp hnode
  have howner : ownerText rt r.1 = id := (discogsId_eq_some.mp hid).2
  cases hsup : superseded rt r.2 records with
  | true =>
    obtain ⟨rfl, hnone⟩ := noneShadow_of_superseded hr hnode hsup
    exact (enrichArtistsBatch_settled h).mpr (hshadow hnone r.1 hlastOf hwf type row hproj)
  | false =>
    by_cases hgate : n "mb_relations_hash" = relationsDigest rt r.1
    · -- The gate keeps the record out, but its digest is stored.
      obtain ⟨relation, hrel, row₀, hs, hends, hb⟩ := hproj
      have hbefore := (hdigests id n _ hn hgate relation hrel type row₀ (howner ▸ hs) hb).congr hends
      exact hkeeps.settled type (supported_type hs) row hbefore
    · have hsel : Selects rt true records tx.graph r :=
        ⟨(lastRecord_mem hr).1, hsup, id, n, hid, hn, fun hg => hgate hg.2⟩
      exact (enrichArtistsBatch_settled h).mpr (.inr ⟨r, hsel, hproj⟩)

/-- One by one, in any order, the records change nothing exactly when a shadowed
artist record has nothing left to project. -/
theorem redeliver_eq_self_iff {tx tx₁ : Tx} {flags : List Bool}
    (h : batchProjections rt true now t records tx = .ok (tx₁, flags))
    (hdigests : DigestsSettled rt tx.graph) (honce : NamesOnce rt t records) :
    (∀ deliveries : List (Json × Dict), (deliveries.map Prod.snd).Perm records →
        redeliver rt true t deliveries tx₁.graph = tx₁.graph) ↔
      (t = .artists → ShadowSettled rt records tx.graph) := by
  have hstored := (batchProjections_entityWrite h).hashesStored
  constructor
  · rintro hsame rfl hnone record hlast hwf type row hproj
    have hkeeps := batchProjections_keepsSettled h
    obtain ⟨hnode, r, hr, _⟩ := hnone
    -- The shadowed record alone would settle the relation; no later delivery undoes that.
    have hmem : record ∈ records := List.mem_reverse.mp (List.mem_of_find?_eq_some hlast)
    have hid : discogsId rt "discogs_artist_id" record = some "None" := by
      simpa using List.find?_some hlast
    have hmatch : matchesNode rt .artists tx₁.graph record = true := by
      refine matchesNode_iff.mpr ⟨"None", hid, ?_⟩
      exact (hkeeps.artists "None").trans hnode
    obtain ⟨rows, hrows⟩ := batchProjections_rows h
    have hlast' := hlast
    rw [← lastRecord_map_fst, Option.map_eq_some_iff] at hlast'
    obtain ⟨⟨record, i⟩, hr', rfl⟩ := hlast'
    obtain ⟨row', _, _, _, hprojRow⟩ := exists_mem_entityRows hrows hr'
    have halone : ∃ tx₂, enrichArtist rt true .null record ⟨tx₁.graph, {}⟩ = .ok tx₂ :=
      exists_enrichArtist hid hprojRow (hstored.singleton honce hmem) hwf {}
    obtain ⟨tx₂, hrun⟩ := halone
    have hperm : (((Json.null, record) :: (records.erase record).map (Prod.mk Json.null)).map
        Prod.snd).Perm records := by
      rw [List.map_cons, List.map_map]
      have hid' : (records.erase record).map (Prod.snd ∘ Prod.mk Json.null) = records.erase record :=
        List.map_id _
      rw [hid']
      exact (List.perm_cons_erase hmem).symm
    have hsettled : Settled tx₂.graph type row := by
      obtain ⟨g₁, merges, hwrite, hgraph, hmerges⟩ := enrichArtist_merges hrun
      obtain ⟨relation, hrel, row₀, hs, hends, hb⟩ := (projects_congr hkeeps).mpr hproj
      rw [hgraph, settled_mergeAll_iff]
      refine .inr ⟨(type, row₀), (hmerges _).mpr ⟨matchesNode_iff.mp hmatch, relation, hrel, hs⟩, rfl,
        hends, ?_⟩
      rw [bothSides_congr hwrite.isSome_node]
      exact hb
    obtain ⟨_, _, _, hs, _⟩ := id hproj
    have hafter : Settled (redeliver rt true .artists
        ((records.erase record).map (Prod.mk Json.null)) tx₂.graph) type row :=
      hsettled.redeliver (supported_type hs)
    have hstep : redeliver rt true .artists
        ((Json.null, record) :: (records.erase record).map (Prod.mk Json.null)) tx₁.graph =
        redeliver rt true .artists ((records.erase record).map (Prod.mk Json.null)) tx₂.graph := by
      rw [redeliver, List.foldl_cons]
      have hrun' : processors rt true Json.null .artists record ⟨tx₁.graph, {}⟩ = .ok tx₂ := hrun
      rw [hrun']
      rfl
    rw [← hstep, hsame _ hperm] at hafter
    exact (enrichArtistsBatch_settled h).mp hafter
  · intro hshadow deliveries hperm
    apply redeliver_eq_self
    intro d hd tx' hrun
    have hmem : d.2 ∈ records := hperm.mem_iff.mp (List.mem_map_of_mem hd)
    refine processors_replay_graph (hstored.singleton honce hmem) ?_ hrun
    rintro rfl hmatch type row hproj
    exact settled_of_batch h hdigests honce (hshadow rfl) hmem hmatch
      (enrichArtist_wellFormed hrun hmatch) hproj

end OneByOne

/-! ## Replays in a history of this service -/

/-- In a history of this service a batch that is run again changes nothing and counts
every matched id once. One by one its records, each with an id of its own, change
nothing either exactly when a shadowed artist record has nothing left to project. -/
theorem replay_idempotent (hinj : Function.Injective rt.hexdigest) :
    ∀ (t : EntityType) (now : Json) (records : List Dict) (tx tx₁ : Tx) (flags : List Bool),
      ServiceHistory rt tx.graph → batchProjections rt true now t records tx = .ok (tx₁, flags) →
      (∀ now' s, ∃ tx₂, batchProjections rt true now' t records ⟨tx₁.graph, s⟩ = .ok (tx₂, flags) ∧
        tx₂.graph = tx₁.graph ∧ tx₂.stats.replaysSkippedUnchanged =
          s.replaysSkippedUnchanged + (matchedIds rt t tx.graph records).length) ∧
      (NamesOnce rt t records →
        ((∀ deliveries : List (Json × Dict), (deliveries.map Prod.snd).Perm records →
            redeliver rt true t deliveries tx₁.graph = tx₁.graph) ↔
          (t = .artists → ShadowSettled rt records tx.graph))) := by
  intro t now records tx tx₁ flags hhistory hrun
  exact ⟨exists_batchProjections_replay hrun,
    redeliver_eq_self_iff hrun (hhistory.digestsSettled hinj)⟩

theorem noServiceData_bareArtists {ids : List String} {members : List (String × String)}
    (h : ∀ e ∈ members, e.1 ∈ ids ∧ e.2 ∈ ids) : NoServiceData rt (bareArtists ids members h) := by
  constructor
  · intro t id n hn key _
    simp only [bareArtists, Option.ite_none_right_eq_some, Option.some.injEq] at hn
    rw [← hn.2]
    rfl
  · intro e he hsource
    obtain ⟨_, _, rfl⟩ := List.mem_map.mp he
    cases hsource

theorem shadowSettled_memberRecord :
    ShadowSettled plainRuntime [memberRecord "x" ["y"]] twoArtists :=
  fun hnone => absurd hnone safeBatch_memberRecord.shadow

/-- `x` joins `y`: the batch again, and the record alone, change nothing. -/
theorem replay_idempotent_memberRecord : ∃ tx flags,
    batchProjections plainRuntime true .null .artists [memberRecord "x" ["y"]] ⟨twoArtists, {}⟩ =
      .ok (tx, flags) ∧
    (∃ tx₂, batchProjections plainRuntime true (.str "later") .artists [memberRecord "x" ["y"]]
      ⟨tx.graph, {}⟩ = .ok (tx₂, flags) ∧ tx₂.graph = tx.graph ∧
      tx₂.stats.replaysSkippedUnchanged = 1) ∧
    redeliver plainRuntime true .artists [(.str "later", memberRecord "x" ["y"])] tx.graph =
      tx.graph := by
  obtain ⟨⟨tx, flags⟩, hrun, _⟩ : ∃ r : Tx × List Bool,
      batchProjections plainRuntime true .null .artists [memberRecord "x" ["y"]] ⟨twoArtists, {}⟩ =
        .ok r ∧ r.2 = [true] :=
    Except.exists_eq_ok (by decide +kernel)
  have hstart : ServiceHistory plainRuntime twoArtists := .start (noServiceData_bareArtists (by decide))
  obtain ⟨hagain, halone⟩ :=
    replay_idempotent plainRuntime_injective .artists _ _ _ _ _ hstart hrun
  obtain ⟨tx₂, hrun₂, hgraph, hreplays⟩ := hagain (.str "later") {}
  have hids : (matchedIds plainRuntime .artists twoArtists [memberRecord "x" ["y"]]).length = 1 := by
    decide +kernel
  refine ⟨tx, flags, hrun, ⟨tx₂, hrun₂, hgraph, hreplays.trans (by rw [hids]; rfl)⟩, ?_⟩
  exact (halone (by unfold NamesOnce; decide +kernel)).mpr (fun _ => shadowSettled_memberRecord) _ (.refl _)

/-- The batch takes the record of the artist `None` for superseded by a record without
an id; alone it is not, and adds the edge the batch has dropped. -/
theorem redelivery_adds_edge : Function.Injective plainRuntime.hexdigest ∧
    ∃ records tx tx₁ flags, ServiceHistory plainRuntime tx.graph ∧
      NamesOnce plainRuntime .artists records ∧
      batchProjections plainRuntime true .null .artists records tx = .ok (tx₁, flags) ∧
      redeliver plainRuntime true .artists (records.map (Prod.mk .null)) tx₁.graph ≠ tx₁.graph := by
  refine ⟨plainRuntime_injective, [memberRecord "None" ["y"], []], ⟨artistNone, {}⟩, ?_⟩
  obtain ⟨⟨tx₁, flags⟩, hrun, hsee⟩ : ∃ r : Tx × List Bool,
      batchProjections plainRuntime true .null .artists [memberRecord "None" ["y"], []]
        ⟨artistNone, {}⟩ = .ok r ∧
      (r.1.graph.rels.length, (redeliver plainRuntime true .artists
        ([memberRecord "None" ["y"], []].map (Prod.mk .null)) r.1.graph).rels.length) = (0, 1) :=
    Except.exists_eq_ok (by decide +kernel)
  obtain ⟨hbatch, halone⟩ := Prod.mk.inj hsee
  refine ⟨tx₁, flags, .start (noServiceData_bareArtists (by decide)),
    by unfold NamesOnce; decide +kernel, hrun, fun hsame => ?_⟩
  rw [hsame, hbatch] at halone
  cases halone

end Brainzgraphinator
