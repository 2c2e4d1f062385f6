-- SUMMARY: The two release write paths as one relation: a gated write followed by one media phase.
import Brainzgraphinator.Projections.EntityBatch

/-!
# Release writes

`enrichRelease` and `enrichReleasesBatch` run the same statements: the gated SET
over some records, then the media phase for the releases that were changed and
carry a block (`Reconciles`). `ReleaseWrite` is that common shape, so what a
release write does to the graph is proved once.
-/

namespace Brainzgraphinator

variable {rt : Runtime} {gate : Bool} {now : Json}

/-- The release `id` is changed by the gate and its last record carries `block`. -/
def Reconciles (rt : Runtime) (gate : Bool) (records : List Dict) (g : Graph) (id : String)
    (block : MediaBlock) : Prop :=
  ∃ record n row, lastOf rt "discogs_release_id" records id = some record ∧
    g.node (releaseKey id) = some n ∧ (releaseSpec rt).Projects rt record row ∧
    changed gate n row.mbHash ∧ releaseMediaBlock rt record = some block

theorem Reconciles.unique {records : List Dict} {g : Graph} {id : String} {block block' : MediaBlock}
    (h : Reconciles rt gate records g id block) (h' : Reconciles rt gate records g id block') :
    block = block' := by
  obtain ⟨record, _, _, hlast, _, _, _, hblock⟩ := h
  obtain ⟨record', _, _, hlast', _, _, _, hblock'⟩ := h'
  cases hlast.symm.trans hlast'
  exact Option.some.inj (hblock.symm.trans hblock')

/-- The media phase of a release write: a summary for every reconciled release
and an item for every medium row of its block. -/
structure MediaPlan (rt : Runtime) (gate : Bool) (records : List Dict) (g : Graph)
    (summaries : List SummaryRow) (items : List ReleaseItem) : Prop where
  nodup_summaries : (summaries.map SummaryRow.discogsId).Nodup
  mem_summaries : ∀ row, row ∈ summaries ↔
    ∃ id block, Reconciles rt gate records g id block ∧ summaryRow rt id block = row
  nodup_items : (items.map fun item => (item.discogsId, item.medium)).Nodup
  mem_items : ∀ item : ReleaseItem, item ∈ items ↔
    ∃ block, Reconciles rt gate records g item.discogsId block ∧
      item.toMediaRow ∈ mediaEdgeRows rt block

/-- What either write path does to the graph. -/
def ReleaseWrite (rt : Runtime) (gate : Bool) (now : Json) (records : List Dict)
    (g g' : Graph) : Prop :=
  ∃ g₁ summaries items,
    NodeWrite rt gate now (releaseSpec rt) records g g₁ ∧
    MediaPlan rt gate records g summaries items ∧
    reconcileBatch summaries items g₁ = .ok g'

/-! ## One record per transaction -/

/-- Reconciling one release is the media phase of a batch with that release only. -/
theorem reconcileReleaseMedia_eq {id : String} {record : Dict} {block : MediaBlock}
    (h : releaseMediaBlock rt record = some block) (g : Graph) :
    reconcileReleaseMedia rt id record g =
      reconcileBatch [summaryRow rt id block]
        ((mediaEdgeRows rt block).map fun row => (⟨row, id⟩ : ReleaseItem)) g := by
  have hrows : ((mediaEdgeRows rt block).map fun row => (⟨row, id⟩ : ReleaseItem)).map
      ReleaseItem.toMediaRow = mediaEdgeRows rt block := by
    rw [List.map_map]
    exact List.map_id _
  simp only [reconcileReleaseMedia, h, reconcileBatch, hrows, List.cons_ne_nil, if_false,
    releaseMediaSummaryCypher, releaseMediaEdgesCypher, ne_eq, List.map_eq_nil_iff]

theorem Reconciles.id_unique {record : Dict} {g : Graph} {id id' : String} {block block' : MediaBlock}
    (h : Reconciles rt gate [record] g id block) (h' : Reconciles rt gate [record] g id' block') :
    id' = id := by
  obtain ⟨r, _, _, hlast, _⟩ := h
  obtain ⟨r', _, _, hlast', _⟩ := h'
  rw [lastOf_singleton] at hlast hlast'
  split at hlast
  · rename_i hid
    rw [hid, Option.ite_none_right_eq_some] at hlast'
    exact (Option.some.inj hlast'.1).symm
  · cases hlast

theorem mediaPlan_singleton {record : Dict} {g : Graph} {id : String} {block : MediaBlock}
    (h : Reconciles rt gate [record] g id block) :
    MediaPlan rt gate [record] g [summaryRow rt id block]
      ((mediaEdgeRows rt block).map fun row => (⟨row, id⟩ : ReleaseItem)) := by
  have honly : ∀ id' block', Reconciles rt gate [record] g id' block' → id' = id :=
    fun _ _ h' => h.id_unique h'
  refine ⟨by simp, ?_, ?_, ?_⟩
  · intro row
    rw [List.mem_singleton]
    constructor
    · rintro rfl
      exact ⟨id, block, h, rfl⟩
    · rintro ⟨id', block', h', rfl⟩
      cases honly _ _ h'
      rw [h'.unique h]
  · rw [List.map_map]
    refine List.Nodup.of_map Prod.snd ?_
    rw [List.map_map]
    exact mediaEdgeRows_nodup rt block
  · intro item
    rw [List.mem_map]
    constructor
    · rintro ⟨row, hrow, rfl⟩
      exact ⟨block, h, hrow⟩
    · rintro ⟨block', h', hrow⟩
      have hid := honly _ _ h'
      rw [hid] at h'
      rw [h'.unique h] at hrow
      exact ⟨_, hrow, by rw [← hid]⟩

theorem mediaPlan_nil {records : List Dict} {g : Graph}
    (h : ∀ id block, ¬ Reconciles rt gate records g id block) :
    MediaPlan rt gate records g [] [] := by
  refine ⟨by simp, fun row => ?_, by simp, fun item => ?_⟩
  · simp only [List.not_mem_nil, false_iff]
    rintro ⟨id, block, hr, _⟩
    exact h id block hr
  · simp only [List.not_mem_nil, false_iff]
    rintro ⟨block, hr, _⟩
    exact h _ block hr

theorem enrichRelease_releaseWrite {record : Dict} {tx tx' : Tx}
    (h : enrichRelease rt gate now record tx = .ok tx') :
    ReleaseWrite rt gate now [record] tx.graph tx'.graph := by
  obtain ⟨⟨tx₁, matched⟩, hnode, h⟩ := Except.bind_eq_ok.mp h
  have hwrite := enrichNode_nodeWrite hnode
  have hmatched := @enrichNode_matched _ _ _ _ _ _ _ _ hnode
  -- The gate's answer and the block decide whether the release is reconciled.
  have hrec : ∀ id block, Reconciles rt gate [record] tx.graph id block ↔
      matched = some (id, true) ∧ releaseMediaBlock rt record = some block := by
    intro id block
    rw [hmatched]
    constructor
    · rintro ⟨r, n, row, hlast, hn, hproj, hc, hblock⟩
      rw [lastOf_singleton, Option.ite_none_right_eq_some, Option.some.injEq] at hlast
      obtain ⟨hid, rfl⟩ := hlast
      exact ⟨⟨hid, n, row, hn, hproj, hc⟩, hblock⟩
    · rintro ⟨⟨hid, n, row, hn, hproj, hc⟩, hblock⟩
      exact ⟨record, n, row, (lastOf_singleton _ _ _).trans (if_pos hid), hn, hproj, hc, hblock⟩
  have hskip : (∀ id, matched ≠ some (id, true)) → tx' = tx₁ →
      ReleaseWrite rt gate now [record] tx.graph tx'.graph := by
    rintro hne rfl
    exact ⟨_, [], [], hwrite, mediaPlan_nil fun id block hr => hne id ((hrec id block).mp hr).1, rfl⟩
  rcases matched with _ | ⟨id, b⟩
  · exact hskip (by simp) (Except.pure_eq_ok.mp h).symm
  · cases b with
    | false => exact hskip (by simp) (Except.pure_eq_ok.mp h).symm
    | true =>
      obtain ⟨g', hmedia, h⟩ := Except.bind_eq_ok.mp h
      rw [Except.pure_eq_ok] at h
      subst h
      cases hblock : releaseMediaBlock rt record with
      | none =>
        simp only [reconcileReleaseMedia, hblock, Except.ok.injEq] at hmedia
        subst hmedia
        refine ⟨_, [], [], hwrite, mediaPlan_nil fun id' block hr => ?_, rfl⟩
        have := ((hrec id' block).mp hr).2
        rw [hblock] at this
        cases this
      | some block =>
        rw [reconcileReleaseMedia_eq hblock] at hmedia
        exact ⟨_, _, _, hwrite, mediaPlan_singleton ((hrec id block).mpr ⟨rfl, hblock⟩), hmedia⟩

/-! ## Many records per transaction -/

section Batch

variable {records : List Dict} {g : Graph} {outcome : Dict × Nat → Outcome}

/-- A pair enters the reconciliation under `id` exactly when it is the changed
last record of that release and carries a block. -/
theorem reconciledId_eq_some
    (hspec : ∀ r ∈ records.zipIdx,
      OutcomeSpec rt gate (releaseSpec rt) records false g r (outcome r))
    {r : Dict × Nat} (hr : r ∈ records.zipIdx) {id : String} :
    reconciledId rt (r.1, outcome r) = some id ↔
      lastRecord rt "discogs_release_id" records id = some r ∧
        ∃ block, Reconciles rt gate records g id block := by
  have hchanged := (hspec r hr).changed
  simp only [reconciledId, Bool.and_eq_true, Option.ite_none_right_eq_some, Option.some.injEq]
  constructor
  · rintro ⟨⟨hc, hblock⟩, htext⟩
    obtain ⟨id', n, row, hlast, hn, hproj, hgate⟩ := hchanged.mp hc
    obtain ⟨block, hblock⟩ := Option.isSome_iff_exists.mp hblock
    have hid := (discogsId_eq_some.mp (lastRecord_mem hlast).2).2
    obtain rfl : id' = id := hid.symm.trans htext
    have hlast' : lastRecord rt "discogs_release_id" records id' = some r := hlast
    refine ⟨hlast', block, r.1, n, row, ?_, hn, hproj, hgate, hblock⟩
    rw [← lastRecord_map_fst, hlast', Option.map_some]
  · rintro ⟨hlast, block, r', n, row, hlast', hn, hproj, hgate, hblock⟩
    rw [← lastRecord_map_fst, hlast, Option.map_some, Option.some.injEq] at hlast'
    subst hlast'
    refine ⟨⟨hchanged.mpr ⟨id, n, row, hlast, hn, hproj, hgate⟩, by rw [hblock]; rfl⟩, ?_⟩
    exact (discogsId_eq_some.mp (lastRecord_mem hlast).2).2

theorem mem_reconciledMedia
    (hspec : ∀ r ∈ records.zipIdx,
      OutcomeSpec rt gate (releaseSpec rt) records false g r (outcome r))
    {id : String} {b : Option MediaBlock} :
    (id, b) ∈ reconciledMedia rt (records.zip (records.zipIdx.map outcome)) ↔
      ∃ block, b = some block ∧ Reconciles rt gate records g id block := by
  have hvalue : ∀ {b}, (id, b) ∈ reconciledMedia rt (records.zip (records.zipIdx.map outcome)) →
      ∃ block, b = some block ∧ Reconciles rt gate records g id block := by
    intro b hb
    have hlookup := (OrderedDict.lookup_eq_some_iff (OrderedDict.nodup_keys_collect _ _ _)).mpr hb
    rw [OrderedDict.lookup_collect, Option.map_eq_some_iff] at hlookup
    obtain ⟨x, hfind, rfl⟩ := hlookup
    have hx := List.mem_reverse.mp (List.mem_of_find?_eq_some hfind)
    have hid : reconciledId rt x = some id := by simpa using List.find?_some hfind
    rw [zip_map_zipIdx, List.mem_map] at hx
    obtain ⟨r, hr, rfl⟩ := hx
    obtain ⟨hlast, block, hrec⟩ := (reconciledId_eq_some hspec hr).mp hid
    refine ⟨block, ?_, hrec⟩
    obtain ⟨r', _, _, hlast', _, _, _, hblock⟩ := hrec
    rw [← lastRecord_map_fst, hlast, Option.map_some, Option.some.injEq] at hlast'
    rw [hlast', hblock]
  refine ⟨hvalue, ?_⟩
  rintro ⟨block, rfl, hrec⟩
  have hrec' := hrec
  obtain ⟨record, _, _, hlast, _⟩ := hrec'
  rw [← lastRecord_map_fst] at hlast
  obtain ⟨r, hr, rfl⟩ := Option.map_eq_some_iff.mp hlast
  have hmem := (lastRecord_mem hr).1
  have hkey : id ∈ (reconciledMedia rt (records.zip (records.zipIdx.map outcome))).map Prod.fst := by
    refine OrderedDict.mem_keys_collect.mpr ⟨(r.1, outcome r), ?_, ?_⟩
    · rw [zip_map_zipIdx]
      exact List.mem_map.mpr ⟨r, hmem, rfl⟩
    · exact (reconciledId_eq_some hspec hmem).mpr ⟨hr, block, hrec⟩
  obtain ⟨⟨_, b⟩, hb, rfl⟩ := List.mem_map.mp hkey
  obtain ⟨block', rfl, hrec'⟩ := hvalue hb
  rw [hrec.unique hrec']
  exact hb

theorem nodup_mediaSummaries {media : List (String × Option MediaBlock)}
    (h : (media.map Prod.fst).Nodup) :
    ((mediaSummaries rt media).map SummaryRow.discogsId).Nodup := by
  refine List.Nodup.sublist ?_ h
  clear h
  induction media with
  | nil => exact List.Sublist.slnil
  | cons m media ih =>
    obtain ⟨id, _ | block⟩ := m
    · exact List.Sublist.cons _ ih
    · exact List.Sublist.cons_cons _ ih

theorem nodup_mediaItems {media : List (String × Option MediaBlock)}
    (h : (media.map Prod.fst).Nodup) :
    ((mediaItems rt media).map fun item => (item.discogsId, item.medium)).Nodup := by
  rw [mediaItems, ((List.perm_insertionSort _ _).map _).nodup_iff, List.map_flatMap,
    List.nodup_flatMap]
  refine ⟨?_, ?_⟩
  · rintro ⟨id, _ | block⟩ _
    · exact List.nodup_nil
    · refine List.Nodup.of_map Prod.snd ?_
      rw [List.map_map, List.map_map]
      exact mediaEdgeRows_nodup rt block
  · refine (List.pairwise_map.mp h).imp ?_
    rintro ⟨id, _ | block⟩ ⟨id', _ | block'⟩ hne <;>
      simp only [Function.onFun, List.disjoint_left, List.map_nil, List.not_mem_nil,
        not_false_eq_true, implies_true, false_imp_iff]
    rintro pair hp hp'
    obtain ⟨_, hi, rfl⟩ := List.mem_map.mp hp
    obtain ⟨_, hi', heq⟩ := List.mem_map.mp hp'
    obtain ⟨_, _, rfl⟩ := List.mem_map.mp hi
    obtain ⟨_, _, rfl⟩ := List.mem_map.mp hi'
    exact hne (Prod.mk.inj heq).1.symm

theorem mediaPlan_batch
    (hspec : ∀ r ∈ records.zipIdx,
      OutcomeSpec rt gate (releaseSpec rt) records false g r (outcome r)) :
    MediaPlan rt gate records g
      (mediaSummaries rt (reconciledMedia rt (records.zip (records.zipIdx.map outcome))))
      (mediaItems rt (reconciledMedia rt (records.zip (records.zipIdx.map outcome)))) := by
  have hkeys := OrderedDict.nodup_keys_collect (reconciledId rt)
    (fun r => releaseMediaBlock rt r.1) (records.zip (records.zipIdx.map outcome))
  refine ⟨nodup_mediaSummaries hkeys, fun row => ?_, nodup_mediaItems hkeys, fun item => ?_⟩
  · rw [mediaSummaries, List.mem_filterMap]
    constructor
    · rintro ⟨⟨id, b⟩, hmem, hrow⟩
      obtain ⟨block, rfl, hrec⟩ := (mem_reconciledMedia hspec).mp hmem
      exact ⟨id, block, hrec, Option.some.inj hrow⟩
    · rintro ⟨id, block, hrec, rfl⟩
      exact ⟨(id, some block), (mem_reconciledMedia hspec).mpr ⟨block, rfl, hrec⟩, rfl⟩
  · rw [mediaItems, List.mem_insertionSort, List.mem_flatMap]
    constructor
    · rintro ⟨⟨id, b⟩, hmem, hitem⟩
      obtain ⟨block, rfl, hrec⟩ := (mem_reconciledMedia hspec).mp hmem
      obtain ⟨row, hrow, rfl⟩ := List.mem_map.mp hitem
      exact ⟨block, hrec, hrow⟩
    · rintro ⟨block, hrec, hrow⟩
      refine ⟨(item.discogsId, some block), (mem_reconciledMedia hspec).mpr ⟨block, rfl, hrec⟩, ?_⟩
      exact List.mem_map.mpr ⟨_, hrow, rfl⟩

/-- A batch write plans its media from the blocks it collects. -/
theorem enrichReleasesBatch_mediaWrite {tx tx' : Tx} {flags : List Bool}
    (h : enrichReleasesBatch rt gate now records tx = .ok (tx', flags)) :
    ∃ g₁ media, NodeWrite rt gate now (releaseSpec rt) records tx.graph g₁ ∧
      MediaPlan rt gate records tx.graph (mediaSummaries rt media) (mediaItems rt media) ∧
      reconcileBatch (mediaSummaries rt media) (mediaItems rt media) g₁ = .ok tx'.graph := by
  obtain ⟨⟨tx₁, outcomes⟩, hbatch, h⟩ := Except.bind_eq_ok.mp h
  obtain ⟨outcome, rfl, hspec⟩ := runEntityBatch_outcomes hbatch
  obtain ⟨g', hmedia, h⟩ := Except.bind_eq_ok.mp h
  rw [Except.pure_eq_ok] at h
  cases h
  exact ⟨_, _, runEntityBatch_nodeWrite hbatch, mediaPlan_batch hspec, hmedia⟩

theorem enrichReleasesBatch_releaseWrite {tx tx' : Tx} {flags : List Bool}
    (h : enrichReleasesBatch rt gate now records tx = .ok (tx', flags)) :
    ReleaseWrite rt gate now records tx.graph tx'.graph := by
  obtain ⟨g₁, media, hwrite, hplan, hmedia⟩ := enrichReleasesBatch_mediaWrite h
  exact ⟨g₁, _, _, hwrite, hplan, hmedia⟩

end Batch

end Brainzgraphinator
