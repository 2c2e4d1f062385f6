-- SUMMARY: When a medium that releases use before and after a release write keeps its node.
import Mathlib.Data.String.Basic
import Brainzgraphinator.Projections.MediumPrune

/-!
# Media in use

A release write leaves the properties and the IN_FAMILY edges of a medium alone
unless its stale sweep orphans the medium and one of its own rows attaches it
again: the prune deletes the node and the edge statement creates another.
-/

namespace Brainzgraphinator

/-! ## The description -/

/-- Some release is issued on the medium, by any catalog. -/
def InUse (g : Graph) (m : String) : Prop :=
  ∃ e ∈ g.rels, e.type = .issuedOn ∧ e.src.label = .release ∧ e.dst = mediumKey m

/-- An IN_FAMILY edge of the medium. -/
def ownFamily (m : String) (e : Edge) : Bool := e.type = .inFamily ∧ e.src = mediumKey m

structure KeepsMedium (g g' : Graph) (m : String) : Prop where
  node : g'.node (mediumKey m) = g.node (mediumKey m)
  families : (g.rels.filter (ownFamily m)).Subperm (g'.rels.filter (ownFamily m))

/-- A medium in use before and after is kept, and no medium that existed has other properties. -/
structure KeepsUsedMedia (g g' : Graph) : Prop where
  inUse : ∀ m, InUse g m → InUse g' m → KeepsMedium g g' m
  written : ∀ m n n', g.node (mediumKey m) = some n → g'.node (mediumKey m) = some n' → n' = n

/-! ## Locks -/

theorem touch_touch (key : String) (n : Props) : touch key (touch key n) = touch key n := by
  simp [touch]

/-- A lock leaves the properties as they were just if none had the lock's name. -/
theorem touch_eq_self_iff {key : String} {n : Props} : touch key n = n ↔ n key = .null := by
  rw [touch, Function.update_idem, Function.update_eq_self_iff, eq_comm]

/-- A relationship that the write detaches from the medium. -/
def Loses (rows : List SummaryRow) (g : Graph) (m : String) : Prop :=
  ∃ e ∈ g.rels, Stale rows e ∧ e.dst = mediumKey m

open Classical in
/-- What the locks leave of the properties of a medium the write attaches or detaches. -/
noncomputable def unlock (attached lost : Prop) (n : Props) : Props :=
  let n := if attached ∨ lost then touch "_lock" n else n
  if lost then touch "_prune_lock" n else n

theorem unlock_eq_self_iff {attached lost : Prop} {n : Props} :
    unlock attached lost n = n ↔
      (attached ∨ lost → n "_lock" = .null) ∧ (lost → n "_prune_lock" = .null) := by
  unfold unlock
  by_cases hlost : lost
  · simp only [hlost, or_true, if_true, true_imp_iff]
    constructor
    · intro h
      have hlock := congrFun h "_lock"
      have hprune := congrFun h "_prune_lock"
      rw [touch_apply_ne (by decide)] at hlock
      exact ⟨by simpa [touch] using hlock.symm, by simpa [touch] using hprune.symm⟩
    · rintro ⟨hlock, hprune⟩
      rw [touch_eq_self_iff.mpr hlock, touch_eq_self_iff.mpr hprune]
  · by_cases hattached : attached
    · simpa [hlost, hattached] using touch_eq_self_iff
    · simp [hlost, hattached]

theorem mem_staleIds {rows : List SummaryRow} {g : Graph} {m : String} :
    m ∈ staleIds rows g ↔ Loses rows g m := by
  simp only [staleIds, List.mem_dedup, List.mem_flatMap, List.mem_map, List.mem_filter, Loses]
  constructor
  · rintro ⟨row, hrow, e, ⟨he, hstale⟩, rfl⟩
    have hs : Stale rows e := ⟨row, hrow, hstale⟩
    obtain ⟨_, _, m', _, hissued⟩ := hs.mbIssued
    simp only [mbIssued, decide_eq_true_eq] at hissued
    exact ⟨e, he, hs, by rw [hissued.2.2.1]; rfl⟩
  · rintro ⟨e, he, ⟨row, hrow, hstale⟩, hdst⟩
    exact ⟨row, hrow, e, ⟨he, hstale⟩, by rw [hdst]; rfl⟩

section Locked

variable {rows : List SummaryRow} {edgeRows : List MediaRow} {g : Graph}

theorem exists_lockTarget_iff {args : MediaLockArgs} {m : String}
    (hids : ∀ id, id ∈ args.itemIds ↔ ∃ item ∈ args.items, item.medium = id) :
    (∃ target ∈ lockTargets rows args g, target.1 = m) ↔
      m ∈ args.itemIds ∨ Loses rows g m := by
  rw [hids, ← mem_staleIds]
  constructor
  · rintro ⟨target, htarget, rfl⟩
    rcases mem_lockTargets.mp htarget with ⟨item, hitem, rfl⟩ | ⟨id, hid, _, rfl⟩
    · exact .inl ⟨item, hitem, rfl⟩
    · exact .inr hid
  · intro h
    by_cases hm : ∃ item ∈ args.items, item.medium = m
    · obtain ⟨item, hitem, rfl⟩ := hm
      exact ⟨_, mem_lockTargets.mpr (.inl ⟨item, hitem, rfl⟩), rfl⟩
    · refine ⟨_, mem_lockTargets.mpr (.inr ⟨m, h.resolve_left hm, ?_, rfl⟩), rfl⟩
      rwa [hids]

open Classical in
/-- The locks write a medium that was there only to lock it. -/
theorem node_lockMediaInOrder_of_medium {m : String} {n : Props} (hn : g.node (mediumKey m) = some n) :
    (lockMediaInOrder rows edgeRows g).node (mediumKey m) =
      some (if (∃ row ∈ edgeRows, row.medium = m) ∨ Loses rows g m then touch "_lock" n else n) := by
  have hfamilies : (lockMediaFamiliesCypher rows (mediaLockArgs edgeRows).families g).node (mediumKey m) =
      some n := by
    rw [lockMediaFamiliesCypher, node_foldl_of_step, hn]
    exact fun name _ g => node_lockFamily_of_ne (by simp [mediumKey, familyKey])
  have hrels : (lockMediaFamiliesCypher rows (mediaLockArgs edgeRows).families g).rels = g.rels := by
    rw [lockMediaFamiliesCypher, rels_foldl_of_step rels_lockFamily]
  have hlock : ∀ (g : Graph) (target : String × Option LockItem) (n : Props),
      g.node (mediumKey m) = some n → (lockMedium g target).node (mediumKey m) =
        some (if target.1 = m then touch "_lock" n else n) := by
    rintro g ⟨id, item⟩ n hn
    by_cases hid : id = m
    · subst hid
      cases item with
      | none => simp [lockMedium, PropertyGraph.Graph.node_update, hn]
      | some item => simp [lockMedium, PropertyGraph.Graph.node_update, PropertyGraph.Graph.node_mergeNode, hn]
    · rw [node_lockMedium_of_ne (by simpa [mediumKey_inj] using Ne.symm hid), hn, if_neg hid]
  rw [lockMediaInOrder, lockMediaMediumsCypher,
    node_foldl_of_idempotent (touch_touch "_lock") hlock _ hfamilies]
  have hhit : (∃ target ∈ lockTargets rows (mediaLockArgs edgeRows)
        (lockMediaFamiliesCypher rows (mediaLockArgs edgeRows).families g), target.1 = m) ↔
      (∃ row ∈ edgeRows, row.medium = m) ∨ Loses rows g m := by
    rw [exists_lockTarget_iff fun id => List.mem_map, mem_mediaLockArgs_itemIds, Loses, Loses, hrels]
  simp only [hhit]

end Locked

/-! ## Sweep and prune -/

/-- A prune writes a candidate it leaves only to lock it. -/
theorem node_pruneOrphanMedium {media : List String} {g g' : Graph}
    (h : pruneOrphanMedium media g = .ok g') {m : String} {n : Props}
    (hn : g.node (mediumKey m) = some n) (hkept : ¬ (m ∈ media ∧ isOrphan g m = true)) :
    g'.node (mediumKey m) = some (if m ∈ media then touch "_prune_lock" n else n) := by
  have hlocked : (media.foldl (fun g m => g.update (mediumKey m) (touch "_prune_lock")) g).node
      (mediumKey m) = some (if ∃ x ∈ media, x = m then touch "_prune_lock" n else n) := by
    refine node_foldl_of_idempotent (touch_touch "_prune_lock") (fun g x n hn => ?_) media hn
    by_cases hx : x = m
    · simp [hx, PropertyGraph.Graph.node_update, hn]
    · have hne : mediumKey m ≠ mediumKey x := fun heq => hx (mediumKey_inj.mp heq).symm
      rw [PropertyGraph.Graph.node_update_ne hne, hn, if_neg hx]
  unfold pruneOrphanMedium at h
  dsimp only at h
  rw [isOrphan_foldl_prune_lock] at h
  split at h
  · rename_i g₁ hdelete
    cases h
    have hnot : mediumKey m ∉ (media.filter (isOrphan g)).map mediumKey := by
      rw [List.mem_map]
      rintro ⟨x, hx, heq⟩
      rw [mediumKey_inj.mp heq, List.mem_filter] at hx
      exact hkept hx
    rw [(PropertyGraph.Graph.deleteNodes_eq_some hdelete).2, if_neg hnot,
      PropertyGraph.Graph.node_deleteRels, hlocked]
    simp
  · cases h

section Sweep

variable {summaries : List SummaryRow} {items : List ReleaseItem} {g g₁ : Graph} {m : String}

/-- The sweep starts from the relationships there were. -/
theorem rels_summarized (summaries : List SummaryRow) (edgeRows : List MediaRow) (g : Graph) :
    (summaries.foldl (fun g row => g.update (releaseKey row.discogsId) (setSummary row))
      (lockMediaInOrder summaries edgeRows g)).rels = g.rels := by
  rw [PropertyGraph.Graph.rels_foldl_update, rels_lockMediaInOrder]

theorem loses_congr {g g' : Graph} (h : g'.rels = g.rels) (rows : List SummaryRow) (m : String) :
    Loses rows g' m ↔ Loses rows g m := by
  rw [Loses, h, Loses]

/-- The media the sweep hands to the prune. -/
theorem mem_sweptMedia {rows : List SummaryRow} :
    m ∈ (((g.rels.filter fun e => rows.any (isStale · e)).map (·.dst.id)).insertionSort (· ≤ ·)).dedup ↔
      Loses rows g m := by
  simp only [← mem_staleIds, staleIds, List.mem_dedup, List.mem_insertionSort, List.mem_map,
    List.mem_filter, List.any_eq_true, List.mem_flatMap]
  constructor
  · rintro ⟨e, ⟨he, row, hrow, hstale⟩, rfl⟩
    exact ⟨row, hrow, e, ⟨he, hstale⟩, rfl⟩
  · rintro ⟨row, hrow, e, ⟨he, hstale⟩, rfl⟩
    exact ⟨e, ⟨he, row, hrow, hstale⟩, rfl⟩

theorem pruned_of_isOrphan {rows : List SummaryRow} (hlost : Loses rows g m)
    (h : isOrphan (g.deleteRels fun e => rows.any (isStale · e)) m = true) : Pruned rows g m := by
  refine ⟨hlost, fun e he hkeeps => ?_⟩
  by_contra hnot
  refine isOrphan_iff.mp h e ?_ hkeeps
  rw [PropertyGraph.Graph.rels_deleteRels, List.mem_filter]
  exact ⟨he, by simpa [← any_isStale] using hnot⟩

theorem Swept.node_medium (h : Swept summaries items g g₁) {n : Props}
    (hn : g.node (mediumKey m) = some n) (hnot : ¬ Pruned summaries g m) :
    g₁.node (mediumKey m) =
      some (unlock (∃ item ∈ items, item.medium = m) (Loses summaries g m) n) := by
  classical
  have hrels := rels_summarized summaries (items.map ReleaseItem.toMediaRow) g
  have hnode : (summaries.foldl (fun g row => g.update (releaseKey row.discogsId) (setSummary row))
      (lockMediaInOrder summaries (items.map ReleaseItem.toMediaRow) g)).node (mediumKey m) = _ :=
    (PropertyGraph.Graph.node_foldl_update_of_forall_ne (by simp [releaseKey, mediumKey]) _).trans
      (node_lockMediaInOrder_of_medium hn)
  unfold Swept releaseMediaSummaryBatchCypher at h
  dsimp only at h
  generalize summaries.foldl (fun g row => g.update (releaseKey row.discogsId) (setSummary row))
    (lockMediaInOrder summaries (items.map ReleaseItem.toMediaRow) g) = g₂ at h hrels hnode
  have hmedia := @mem_sweptMedia g₂ m summaries
  rw [loses_congr hrels] at hmedia
  have hitems : (∃ row ∈ items.map ReleaseItem.toMediaRow, row.medium = m) ↔
      ∃ item ∈ items, item.medium = m := by
    simp
  rw [node_pruneOrphanMedium h hnode]
  · simp only [hmedia, unlock, hitems]
    split_ifs <;> rfl
  · rintro ⟨hm, horphan⟩
    have hpruned := pruned_of_isOrphan ((loses_congr hrels _ _).mpr (hmedia.mp hm)) horphan
    exact hnot ((pruned_congr hrels _ _).mp hpruned)

/-- The prune takes the IN_FAMILY edges of the media it deletes only. -/
theorem Swept.filter_ownFamily (h : Swept summaries items g g₁) (hnot : ¬ Pruned summaries g m) :
    g₁.rels.filter (ownFamily m) = g.rels.filter (ownFamily m) := by
  have hrels := rels_summarized summaries (items.map ReleaseItem.toMediaRow) g
  unfold Swept releaseMediaSummaryBatchCypher at h
  dsimp only at h
  generalize summaries.foldl (fun g row => g.update (releaseKey row.discogsId) (setSummary row))
    (lockMediaInOrder summaries (items.map ReleaseItem.toMediaRow) g) = g₂ at h hrels
  obtain ⟨hpruned, _⟩ := pruneOrphanMedium_eq_ok h
  rw [hpruned, PropertyGraph.Graph.rels_deleteRels, List.filter_filter, List.filter_filter, ← hrels]
  refine List.filter_congr fun e he => ?_
  cases hown : ownFamily m e with
  | false => rfl
  | true =>
    simp only [ownFamily, decide_eq_true_eq] at hown
    have hstale : summaries.any (isStale · e) = false := by
      rw [← Bool.not_eq_true, any_isStale]
      intro hstale
      obtain ⟨_, _, _, _, hissued⟩ := hstale.mbIssued
      simp [mbIssued, hown.1] at hissued
    have hsrc : ∀ media : List String, (∀ x ∈ media, Loses summaries g₂ x) →
        e.src ∉ (media.filter (isOrphan (g₂.deleteRels fun e => summaries.any (isStale · e)))).map
          mediumKey := by
      intro media hmedia hsrc
      obtain ⟨x, hx, heq⟩ := List.mem_map.mp hsrc
      obtain ⟨hx, horphan⟩ := List.mem_filter.mp hx
      rw [hown.2, mediumKey_inj] at heq
      subst heq
      exact hnot ((pruned_congr hrels _ _).mp (pruned_of_isOrphan (hmedia x hx) horphan))
    rw [hstale, decide_eq_false fun hdeleted => hsrc _ (fun x hx => mem_sweptMedia.mp hx) hdeleted.2]
    rfl

theorem Swept.filter_ownFamily_of_pruned (h : Swept summaries items g g₁)
    (hpruned : Pruned summaries g m) : g₁.rels.filter (ownFamily m) = [] := by
  rw [List.filter_eq_nil_iff]
  intro e he hown
  simp only [ownFamily, decide_eq_true_eq] at hown
  exact ((h.mem_rels e).mp he).2.2 ⟨hown.1, m, hpruned, hown.2⟩

theorem Swept.node_of_pruned (h : Swept summaries items g g₁) (hpruned : Pruned summaries g m) :
    g₁.node (mediumKey m) = none := by
  rw [← Option.not_isSome_iff_eq_none, h.isSome_medium]
  exact fun hsome => hsome.2 hpruned

end Sweep

/-! ## Edges -/

/-- The IN_FAMILY edge that the edge statement gives a medium. -/
def familyEdge (m family : String) : Edge := ⟨.inFamily, mediumKey m, familyKey family, noProps⟩

theorem familyEdge_inj {m family family' : String} :
    familyEdge m family = familyEdge m family' ↔ family = family' := by
  simp [familyEdge, familyKey]

section MergeItem

variable {item : ReleaseItem} {g : Graph} {m : String}

theorem node_mergeItem_of_eq_some {n : Props} (hn : g.node (mediumKey m) = some n) :
    (mergeItem g item).node (mediumKey m) = some n := by
  unfold mergeItem
  split
  · simp only [PropertyGraph.Graph.node_mergeRel]
    exact PropertyGraph.Graph.node_mergeNode_of_eq_some (PropertyGraph.Graph.node_mergeNode_of_eq_some hn)
  · exact hn

theorem node_mergeItem_of_eq_none (hr : (g.node (releaseKey item.discogsId)).isSome)
    (hn : g.node (mediumKey item.medium) = none) :
    (mergeItem g item).node (mediumKey item.medium) = some (mediumProps item.family item.label) := by
  unfold mergeItem
  rw [if_pos hr]
  simp only [PropertyGraph.Graph.node_mergeRel]
  refine PropertyGraph.Graph.node_mergeNode_of_eq_some ?_
  rw [PropertyGraph.Graph.node_mergeNode, if_pos rfl, hn, Option.getD_none]

/-- A row files its own medium under its own family, unless it is there already. -/
theorem filter_ownFamily_mergeItem (hr : (g.node (releaseKey item.discogsId)).isSome) :
    (mergeItem g item).rels.filter (ownFamily m) =
      if item.medium = m ∧ ¬ g.rels.any (sameInFamily m item.family) then
        g.rels.filter (ownFamily m) ++ [familyEdge m item.family]
      else g.rels.filter (ownFamily m) := by
  simp only [mergeItem, if_pos hr]
  rw [PropertyGraph.Graph.filter_mergeRel_of_disjoint]
  · set g₁ := (g.mergeNode (mediumKey item.medium) (mediumProps item.family item.label)).mergeNode
      (familyKey item.family) noProps with hg₁
    have hrels : g₁.rels = g.rels := rfl
    by_cases hany : g₁.rels.any (sameInFamily item.medium item.family)
    · have hsame : ∀ e : Edge, (if sameInFamily item.medium item.family e = true then e.setProps id else e) = e := by
        intro e
        split <;> rfl
      rw [PropertyGraph.Graph.rels_mergeRel_of_any hany, List.map_congr_left fun e _ => hsame e, List.map_id',
        hrels, if_neg]
      rintro ⟨rfl, hnone⟩
      exact hnone hany
    · rw [PropertyGraph.Graph.rels_mergeRel_of_not_any hany (by simp [hg₁, PropertyGraph.Graph.isSome_node_mergeNode])
        (by simp [hg₁, PropertyGraph.Graph.isSome_node_mergeNode]), List.filter_append, hrels]
      by_cases hm : item.medium = m
      · subst hm
        rw [if_pos ⟨rfl, hany⟩]
        have hown : ownFamily item.medium (familyEdge item.medium item.family) = true := by
          simp [ownFamily, familyEdge]
        exact congrArg (_ ++ ·) (List.filter_cons_of_pos hown)
      · have hother : ownFamily m (familyEdge item.medium item.family) = false := by
          simp [ownFamily, familyEdge, mediumKey_inj, hm]
        rw [if_neg fun h => hm h.1]
        exact (congrArg (_ ++ ·) (List.filter_cons_of_neg (Bool.eq_false_iff.mp hother))).trans
          (List.append_nil _)
  · intro e he
    simp only [sameIssuedOn, decide_eq_true_eq] at he
    simp [ownFamily, he.1]
  · simp [ownFamily]

end MergeItem

section MergeItems

variable {items : List ReleaseItem} {g : Graph} {m : String}

theorem isSome_release_mergeItem {item : ReleaseItem} {id : String}
    (hr : (g.node (releaseKey id)).isSome) : ((mergeItem g item).node (releaseKey id)).isSome := by
  rwa [node_mergeItem (by simp [releaseKey]) (by simp [releaseKey])]

theorem node_releaseMediaEdges_of_eq_some {n : Props} (hn : g.node (mediumKey m) = some n) :
    (releaseMediaEdgesBatchCypher items g).node (mediumKey m) = some n := by
  unfold releaseMediaEdgesBatchCypher
  induction items generalizing g with
  | nil => exact hn
  | cons item items ih => exact ih (node_mergeItem_of_eq_some hn)

/-- The first row of a missing medium decides what it is created from. -/
theorem node_releaseMediaEdges_of_eq_none
    (hr : ∀ item ∈ items, (g.node (releaseKey item.discogsId)).isSome) (hn : g.node (mediumKey m) = none)
    {first : ReleaseItem} (hfirst : items.find? (·.medium = m) = some first) :
    (releaseMediaEdgesBatchCypher items g).node (mediumKey m) =
      some (mediumProps first.family first.label) := by
  unfold releaseMediaEdgesBatchCypher
  induction items generalizing g with
  | nil => cases hfirst
  | cons item items ih =>
    rw [List.foldl_cons]
    rw [List.find?_cons] at hfirst
    by_cases hm : item.medium = m
    · rw [decide_eq_true hm] at hfirst
      cases hfirst
      subst hm
      exact node_releaseMediaEdges_of_eq_some
        (node_mergeItem_of_eq_none (hr _ List.mem_cons_self) hn)
    · rw [decide_eq_false hm] at hfirst
      refine ih (fun i hi => isSome_release_mergeItem (hr i (List.mem_cons_of_mem _ hi))) ?_ hfirst
      rw [← Option.not_isSome_iff_eq_none, isSome_node_mergeItem (hr _ List.mem_cons_self), hn]
      simp [mediumKey, familyKey, Ne.symm hm]

/-- The edge statement only adds IN_FAMILY edges. -/
theorem sublist_filter_ownFamily (hr : ∀ item ∈ items, (g.node (releaseKey item.discogsId)).isSome) :
    (g.rels.filter (ownFamily m)).Sublist
      ((releaseMediaEdgesBatchCypher items g).rels.filter (ownFamily m)) := by
  unfold releaseMediaEdgesBatchCypher
  induction items generalizing g with
  | nil => exact .refl _
  | cons item items ih =>
    rw [List.foldl_cons]
    refine List.Sublist.trans ?_
      (ih fun i hi => isSome_release_mergeItem (hr i (List.mem_cons_of_mem _ hi)))
    rw [filter_ownFamily_mergeItem (hr item List.mem_cons_self)]
    split
    · exact List.sublist_append_left _ _
    · exact .refl _

/-- A medium filed under some families once each is, after the edges, filed under those and
the families of its rows once each. -/
theorem exists_filter_ownFamily (hr : ∀ item ∈ items, (g.node (releaseKey item.discogsId)).isSome)
    {families : List String} (hnd : families.Nodup)
    (hg : g.rels.filter (ownFamily m) = families.map (familyEdge m)) :
    ∃ families' : List String, families'.Nodup ∧
      (releaseMediaEdgesBatchCypher items g).rels.filter (ownFamily m) = families'.map (familyEdge m) ∧
      ∀ f, f ∈ families' ↔ f ∈ families ∨ ∃ item ∈ items, item.medium = m ∧ item.family = f := by
  unfold releaseMediaEdgesBatchCypher
  induction items generalizing g families with
  | nil => exact ⟨families, hnd, hg, by simp⟩
  | cons item items ih =>
    have hr' : ∀ i ∈ items, ((mergeItem g item).node (releaseKey i.discogsId)).isSome :=
      fun i hi => isSome_release_mergeItem (hr i (List.mem_cons_of_mem _ hi))
    have hany : g.rels.any (sameInFamily m item.family) = true ↔ item.family ∈ families := by
      have hmem : ∀ e, (e ∈ g.rels ∧ ownFamily m e = true) ↔ e ∈ families.map (familyEdge m) := by
        intro e
        rw [← hg, List.mem_filter]
      simp only [List.any_eq_true, sameInFamily, decide_eq_true_eq]
      constructor
      · rintro ⟨e, he, htype, hsrc, hdst⟩
        obtain ⟨f, hf, rfl⟩ := List.mem_map.mp ((hmem e).mp ⟨he, by simp [ownFamily, htype, hsrc]⟩)
        simp only [familyEdge, familyKey, NodeKey.mk.injEq, true_and] at hdst
        rwa [← hdst]
      · intro hf
        exact ⟨_, ((hmem _).mpr (List.mem_map_of_mem hf)).1, rfl, rfl, rfl⟩
    have hstep := filter_ownFamily_mergeItem (m := m) (hr item List.mem_cons_self)
    simp only [hany, hg] at hstep
    rw [List.foldl_cons]
    by_cases hnew : item.medium = m ∧ item.family ∉ families
    · rw [if_pos hnew, ← List.map_singleton, ← List.map_append] at hstep
      obtain ⟨families', hnd', hrels, hmem⟩ := ih hr'
        (hnd.append (List.nodup_singleton _) (List.disjoint_singleton.mpr hnew.2)) hstep
      refine ⟨families', hnd', hrels, fun f => ?_⟩
      rw [hmem]
      simp [hnew.1, or_assoc, eq_comm]
    · rw [if_neg hnew] at hstep
      obtain ⟨families', hnd', hrels, hmem⟩ := ih hr' hnd hstep
      refine ⟨families', hnd', hrels, fun f => ?_⟩
      rw [hmem]
      have hold : item.medium = m → item.family = f → f ∈ families := by
        rintro hm rfl
        by_contra hnot
        exact hnew ⟨hm, hnot⟩
      simp only [List.mem_cons, exists_eq_or_imp]
      tauto

end MergeItems

/-! ## The media phase -/

/-- What the media phase leaves of a medium: locks apart nothing changes, unless the medium
is pruned; and a pruned one that a row attaches is created anew. -/
structure MediumFate (summaries : List SummaryRow) (items : List ReleaseItem) (g g' : Graph)
    (m : String) : Prop where
  stays : ∀ n, g.node (mediumKey m) = some n → ¬ Pruned summaries g m →
    g'.node (mediumKey m) = some (unlock (∃ item ∈ items, item.medium = m) (Loses summaries g m) n) ∧
    (g.rels.filter (ownFamily m)).Sublist (g'.rels.filter (ownFamily m))
  recreated : Pruned summaries g m → ∀ first, items.find? (·.medium = m) = some first →
    g'.node (mediumKey m) = some (mediumProps first.family first.label) ∧
    ∃ families : List String, families.Nodup ∧
      g'.rels.filter (ownFamily m) = families.map (familyEdge m) ∧
      ∀ f, f ∈ families ↔ ∃ item ∈ items, item.medium = m ∧ item.family = f

theorem mediumFate {summaries : List SummaryRow} {items : List ReleaseItem} {g g' : Graph}
    (hcov : Covered summaries items g) (h : reconcileBatch summaries items g = .ok g') (m : String) :
    MediumFate summaries items g g' m := by
  rcases reconcileBatch_eq_ok h with ⟨rfl, rfl⟩ | ⟨g₁, hswept, rfl⟩
  · have hitems : ¬ ∃ item ∈ items, item.medium = m := by
      rintro ⟨item, hitem, _⟩
      obtain ⟨_, hrow, _⟩ := hcov.listed item hitem
      cases hrow
    have hlost : ¬ Loses [] g' m := by
      rintro ⟨_, _, ⟨_, hrow, _⟩, _⟩
      cases hrow
    refine ⟨fun n hn _ => ⟨?_, .refl _⟩, fun hpruned => absurd hpruned.1 hlost⟩
    rw [hn, unlock_eq_self_iff.mpr ⟨fun h => absurd h (not_or.mpr ⟨hitems, hlost⟩), fun h => absurd h hlost⟩]
  · have hswept : Swept summaries items g g₁ := hswept
    have hr := hswept.isSome_release hcov.nodup_ids hcov.isSome
    constructor
    · intro n hn hnot
      refine ⟨node_releaseMediaEdges_of_eq_some (hswept.node_medium hn hnot), ?_⟩
      rw [← hswept.filter_ownFamily hnot]
      exact sublist_filter_ownFamily hr
    · intro hpruned first hfirst
      refine ⟨node_releaseMediaEdges_of_eq_none hr (hswept.node_of_pruned hpruned) hfirst, ?_⟩
      simpa using exists_filter_ownFamily hr List.nodup_nil (hswept.filter_ownFamily_of_pruned hpruned)

/-! ## The row that creates a medium -/

/-- Rows of one medium stand in the order of their releases. -/
def Ordered (items : List ReleaseItem) : Prop :=
  items.Pairwise fun a b => a.medium = b.medium → a.discogsId ≤ b.discogsId

theorem ordered_mediaItems (rt : Runtime) (media : List (String × Option MediaBlock)) :
    Ordered (mediaItems rt media) := by
  let r : ReleaseItem → ReleaseItem → Prop := fun a b =>
    a.medium < b.medium ∨ a.medium = b.medium ∧ a.discogsId ≤ b.discogsId
  have : Std.Total r := ⟨fun a b => by
    rcases lt_trichotomy a.medium b.medium with h | h | h
    · exact .inl (.inl h)
    · exact (le_total a.discogsId b.discogsId).imp (fun hle => .inr ⟨h, hle⟩) fun hle => .inr ⟨h.symm, hle⟩
    · exact .inr (.inl h)⟩
  have : IsTrans ReleaseItem r := ⟨fun a b c => by
    rintro (h | ⟨h, hle⟩) (h' | ⟨h', hle'⟩)
    · exact .inl (h.trans h')
    · exact .inl (h' ▸ h)
    · exact .inl (h ▸ h')
    · exact .inr ⟨h.trans h', hle.trans hle'⟩⟩
  refine (List.pairwise_insertionSort r _).imp fun h heq => ?_
  rcases h with h | ⟨_, hle⟩
  · exact absurd heq h.ne
  · exact hle

theorem Ordered.le_of_find? {items : List ReleaseItem} (h : Ordered items) {m : String}
    {first item : ReleaseItem} (hfirst : items.find? (·.medium = m) = some first) (hitem : item ∈ items)
    (hm : item.medium = m) : first.discogsId ≤ item.discogsId := by
  induction items with
  | nil => cases hitem
  | cons head items ih =>
    obtain ⟨hhead, htail⟩ := List.pairwise_cons.mp h
    rw [List.find?_cons] at hfirst
    by_cases hm' : head.medium = m
    · rw [decide_eq_true hm'] at hfirst
      cases hfirst
      rcases List.mem_cons.mp hitem with rfl | hitem
      · exact le_refl _
      · exact hhead item hitem (hm'.trans hm.symm)
    · rw [decide_eq_false hm'] at hfirst
      rcases List.mem_cons.mp hitem with rfl | hitem
      · exact absurd hm hm'
      · exact ih htail hfirst hitem

variable {rt : Runtime} {gate : Bool} {now : Json} {records : List Dict}

theorem WritesReleases.orderedWrite {tx tx' : Tx} (h : WritesReleases rt gate now records tx tx') :
    ∃ g₁ summaries items, NodeWrite rt gate now (releaseSpec rt) records tx.graph g₁ ∧
      MediaPlan rt gate records tx.graph summaries items ∧ Ordered items ∧
      reconcileBatch summaries items g₁ = .ok tx'.graph := by
  rcases h with ⟨record, rfl, h⟩ | ⟨flags, h⟩
  · obtain ⟨g₁, summaries, items, hwrite, hplan, hmedia⟩ := enrichRelease_releaseWrite h
    refine ⟨g₁, summaries, items, hwrite, hplan, ?_, hmedia⟩
    refine List.pairwise_of_forall_mem_list fun a ha b hb _ => ?_
    obtain ⟨_, hrec, _⟩ := (hplan.mem_items a).mp ha
    obtain ⟨_, hrec', _⟩ := (hplan.mem_items b).mp hb
    exact (hrec'.id_unique hrec).le
  · obtain ⟨g₁, media, hwrite, hplan, hmedia⟩ := enrichReleasesBatch_mediaWrite h
    exact ⟨g₁, _, _, hwrite, hplan, ordered_mediaItems rt media, hmedia⟩

/-! ## When used media are kept -/

/-- The stale sweep leaves the medium with nothing but its own IN_FAMILY edges. -/
def Orphans (rt : Runtime) (gate : Bool) (records : List Dict) (g : Graph) (m : String) : Prop :=
  LosesEdge rt gate records g m ∧ ∀ e ∈ g.rels, Keeps m e → StaleEdge rt gate records g e

/-- No medium that is locked and left stores a property under the name of a lock. -/
def LocksUnstored (rt : Runtime) (gate : Bool) (records : List Dict) (g : Graph) : Prop :=
  ∀ m n, g.node (mediumKey m) = some n → ¬ Orphans rt gate records g m →
    ((∃ id, Attaches rt gate records g id m) ∨ LosesEdge rt gate records g m → n "_lock" = .null) ∧
    (LosesEdge rt gate records g m → n "_prune_lock" = .null)

/-- A row that attaches the medium. -/
def AttachesRow (rt : Runtime) (gate : Bool) (records : List Dict) (g : Graph) (id m : String)
    (row : MediaRow) : Prop :=
  row.medium = m ∧ ∃ block, Reconciles rt gate records g id block ∧ row ∈ mediaEdgeRows rt block

/-- A new node for the medium is like the old one: the row of the first release that attaches
it says what was stored, nothing else was, and it was filed under its families once each. -/
structure Alike (rt : Runtime) (gate : Bool) (records : List Dict) (g : Graph) (m : String) : Prop where
  node : ∀ id row, AttachesRow rt gate records g id m row →
    (∀ id', Attaches rt gate records g id' m → id ≤ id') →
    g.node (mediumKey m) = some (mediumProps row.family row.label)
  nodup : (g.rels.filter (ownFamily m)).Nodup
  families : ∀ e ∈ g.rels, ownFamily m e = true →
    ∃ id row, AttachesRow rt gate records g id m row ∧ e = familyEdge m row.family

section Media

variable {g g₁ g' : Graph} {summaries : List SummaryRow} {items : List ReleaseItem} {m : String}

theorem MediaPlan.attachesRow_iff (hplan : MediaPlan rt gate records g summaries items) {id : String}
    {row : MediaRow} :
    AttachesRow rt gate records g id m row ↔ row.medium = m ∧ (⟨row, id⟩ : ReleaseItem) ∈ items :=
  and_congr_right fun _ => (hplan.mem_items ⟨row, id⟩).symm

theorem MediaPlan.attaches_iff_of_id (hplan : MediaPlan rt gate records g summaries items) {id : String} :
    Attaches rt gate records g id m ↔ ∃ item ∈ items, item.discogsId = id ∧ item.medium = m := by
  constructor
  · rintro ⟨block, hrec, hm⟩
    obtain ⟨row, hrow, rfl⟩ := List.mem_map.mp hm
    exact ⟨⟨row, id⟩, (hplan.mem_items _).mpr ⟨block, hrec, hrow⟩, rfl, rfl⟩
  · rintro ⟨item, hitem, rfl, rfl⟩
    obtain ⟨block, hrec, hrow⟩ := (hplan.mem_items item).mp hitem
    exact ⟨block, hrec, List.mem_map_of_mem hrow⟩

theorem InUse.isSome {g : Graph} (h : InUse g m) : (g.node (mediumKey m)).isSome := by
  obtain ⟨e, he, _, _, hdst⟩ := h
  rw [← hdst]
  exact (g.closed e he).2

theorem inUse_of_issuedQtys {id : String} (h : issuedQtys g (releaseKey id) (mediumKey m) ≠ []) :
    InUse g m := by
  obtain ⟨e, he, hissued⟩ := issuedQtys_ne_nil.mp h
  simp only [mbIssued, decide_eq_true_eq] at hissued
  exact ⟨e, he, hissued.1, by rw [hissued.2.1]; rfl, hissued.2.2.1⟩

theorem nodup_of_subperm {β : Type*} {xs ys : List β} (h : xs.Subperm ys) (hnd : ys.Nodup) : xs.Nodup := by
  obtain ⟨zs, hperm, hsub⟩ := h
  exact hperm.nodup_iff.mp (hnd.sublist hsub)

/-- A medium that is created anew is kept just if it is like before. -/
theorem MediumFate.keepsMedium_iff_alike (hfate : MediumFate summaries items g₁ g' m)
    (hplan : MediaPlan rt gate records g summaries items) (hordered : Ordered items)
    (hpruned : Pruned summaries g₁ m) (hattached : ∃ item ∈ items, item.medium = m) :
    KeepsMedium g g' m ↔ Alike rt gate records g m := by
  obtain ⟨first, hfirst⟩ := Option.isSome_iff_exists.mp
    (List.find?_isSome (p := fun item : ReleaseItem => decide (item.medium = m)) |>.mpr (by simpa using hattached))
  have hitem := List.mem_of_find?_eq_some hfirst
  have hm : first.medium = m := by simpa using List.find?_some hfirst
  obtain ⟨hnode, families, hnd, hfamilies, hmem⟩ := hfate.recreated hpruned first hfirst
  have hrow : AttachesRow rt gate records g first.discogsId m first.toMediaRow :=
    hplan.attachesRow_iff.mpr ⟨hm, hitem⟩
  constructor
  · intro hkeeps
    refine ⟨fun id row hrow' hle => ?_, nodup_of_subperm hkeeps.families ?_, fun e he hown => ?_⟩
    · obtain ⟨hm', hitem'⟩ := hplan.attachesRow_iff.mp hrow'
      have hid : first.discogsId = id := le_antisymm (hordered.le_of_find? hfirst hitem' hm')
        (hle _ (hplan.attaches_iff_of_id.mpr ⟨first, hitem, rfl, hm⟩))
      have heq : first = ⟨row, id⟩ := List.inj_on_of_nodup_map hplan.nodup_items hitem hitem'
        (Prod.ext hid (hm.trans hm'.symm))
      rw [← hkeeps.node, hnode, heq]
    · rw [hfamilies]
      exact hnd.map fun _ _ => familyEdge_inj.mp
    · have hkept := hkeeps.families.subset (List.mem_filter.mpr ⟨he, hown⟩)
      rw [hfamilies, List.mem_map] at hkept
      obtain ⟨f, hf, rfl⟩ := hkept
      obtain ⟨item, hitem', hm', rfl⟩ := (hmem f).mp hf
      exact ⟨item.discogsId, item.toMediaRow, hplan.attachesRow_iff.mpr ⟨hm', hitem'⟩, rfl⟩
  · intro halike
    refine ⟨?_, List.subperm_of_subset halike.nodup fun e he => ?_⟩
    · rw [hnode, halike.node _ _ hrow fun id' hid' => ?_]
      obtain ⟨item, hitem', rfl, hm'⟩ := hplan.attaches_iff_of_id.mp hid'
      exact hordered.le_of_find? hfirst hitem' hm'
    · obtain ⟨he, hown⟩ := List.mem_filter.mp he
      obtain ⟨id, row, hrow', rfl⟩ := halike.families e he hown
      obtain ⟨hm', hitem'⟩ := hplan.attachesRow_iff.mp hrow'
      rw [hfamilies]
      exact List.mem_map_of_mem ((hmem row.family).mpr ⟨_, hitem', hm', rfl⟩)

end Media

/-- The fate of a medium, told by the releases the write reconciles. -/
structure MediumTold (rt : Runtime) (gate : Bool) (records : List Dict) (g g' : Graph) (m : String) :
    Prop where
  stays : ∀ n, g.node (mediumKey m) = some n → ¬ Orphans rt gate records g m →
    g'.node (mediumKey m) = some (unlock (∃ id, Attaches rt gate records g id m)
      (LosesEdge rt gate records g m) n) ∧
    (g.rels.filter (ownFamily m)).Sublist (g'.rels.filter (ownFamily m))
  gone : Orphans rt gate records g m → (g'.node (mediumKey m)).isSome →
    ∃ id, Attaches rt gate records g id m
  recreated : Orphans rt gate records g m → (∃ id, Attaches rt gate records g id m) →
    InUse g m ∧ InUse g' m ∧ (KeepsMedium g g' m ↔ Alike rt gate records g m)

theorem WritesReleases.mediumTold {tx tx' : Tx} (h : WritesReleases rt gate now records tx tx') (m : String) :
    MediumTold rt gate records tx.graph tx'.graph m := by
  obtain ⟨g₁, summaries, items, hwrite, hplan, hordered, hmedia⟩ := h.orderedWrite
  have hcov := hplan.covered hwrite
  have hfate := mediumFate hcov hmedia m
  have heffect := mediaEffect hcov hmedia
  have hrels := hwrite.rels
  have hnode : g₁.node (mediumKey m) = tx.graph.node (mediumKey m) :=
    hwrite.frame _ fun hlabel => by cases hlabel
  have hpruned : Pruned summaries g₁ m ↔ Orphans rt gate records tx.graph m :=
    (pruned_congr hrels summaries m).trans hplan.pruned_iff
  have hloses : Loses summaries g₁ m ↔ LosesEdge rt gate records tx.graph m :=
    (loses_congr hrels summaries m).trans hplan.loses_iff
  refine ⟨fun n hn hnot => ?_, fun horphan hsome => ?_, fun horphan hattached => ?_⟩
  · have hstays := hfate.stays n (hnode.trans hn) (mt hpruned.mp hnot)
    simpa only [hplan.attaches_iff, hloses, hrels] using hstays
  · rw [heffect.isSome_medium_iff hwrite hplan] at hsome
    exact hsome.resolve_right fun hkept => hkept.2 horphan
  · obtain ⟨id, hid⟩ := hattached
    obtain ⟨id', _, hlost⟩ := horphan.1
    have hlength := heffect.length_of_attaches hplan hrels hid
    have hissued : issuedQtys tx'.graph (releaseKey id) (mediumKey m) ≠ [] := by
      intro hnil
      rw [hnil, List.length_nil] at hlength
      omega
    exact ⟨inUse_of_issuedQtys hlost, inUse_of_issuedQtys hissued,
      hfate.keepsMedium_iff_alike hplan hordered (hpruned.mpr horphan) (hplan.attaches_iff.mpr ⟨id, hid⟩)⟩

/-- A medium that is stored before and after keeps what it says and its families. -/
theorem WritesReleases.keepsMedium {tx tx' : Tx} (h : WritesReleases rt gate now records tx tx')
    (hlocks : LocksUnstored rt gate records tx.graph)
    (halike : ∀ m, Orphans rt gate records tx.graph m → (∃ id, Attaches rt gate records tx.graph id m) →
      Alike rt gate records tx.graph m) {m : String} {n : Props}
    (hn : tx.graph.node (mediumKey m) = some n) (hsome : (tx'.graph.node (mediumKey m)).isSome) :
    KeepsMedium tx.graph tx'.graph m := by
  have htold := h.mediumTold m
  by_cases horphan : Orphans rt gate records tx.graph m
  · have hattached := htold.gone horphan hsome
    exact (htold.recreated horphan hattached).2.2.mpr (halike m horphan hattached)
  · obtain ⟨hnode, hfamilies⟩ := htold.stays n hn horphan
    rw [unlock_eq_self_iff.mpr (hlocks m n hn horphan)] at hnode
    exact ⟨hnode.trans hn.symm, hfamilies.subperm⟩

theorem WritesReleases.keepsUsedMedia {tx tx' : Tx} (h : WritesReleases rt gate now records tx tx')
    (hlocks : LocksUnstored rt gate records tx.graph)
    (halike : ∀ m, Orphans rt gate records tx.graph m → (∃ id, Attaches rt gate records tx.graph id m) →
      Alike rt gate records tx.graph m) :
    KeepsUsedMedia tx.graph tx'.graph := by
  constructor
  · intro m hbefore hafter
    obtain ⟨n, hn⟩ := Option.isSome_iff_exists.mp hbefore.isSome
    exact h.keepsMedium hlocks halike hn hafter.isSome
  · intro m n n' hn hn'
    have hnode := (h.keepsMedium hlocks halike hn (by rw [hn']; rfl)).node
    rw [hn, hn'] at hnode
    exact Option.some.inj hnode

/-- A release write keeps the media in use just if it locks none that stores a property under
the name of a lock, and creates none anew that is unlike the one it pruned. -/
theorem writesReleases_keepsUsedMedia_iff {tx tx' : Tx} (h : WritesReleases rt gate now records tx tx') :
    KeepsUsedMedia tx.graph tx'.graph ↔ LocksUnstored rt gate records tx.graph ∧
      ∀ m, Orphans rt gate records tx.graph m → (∃ id, Attaches rt gate records tx.graph id m) →
        Alike rt gate records tx.graph m := by
  constructor
  · intro hkeeps
    constructor
    · intro m n hn hnot
      obtain ⟨hnode, _⟩ := (h.mediumTold m).stays n hn hnot
      exact unlock_eq_self_iff.mp (hkeeps.written m n _ hn hnode)
    · intro m horphan hattached
      obtain ⟨hbefore, hafter, hiff⟩ := (h.mediumTold m).recreated horphan hattached
      exact hiff.mp (hkeeps.inUse m hbefore hafter)
  · rintro ⟨hlocks, halike⟩
    exact h.keepsUsedMedia hlocks halike

theorem writesReleases_keepsUsedMedia_iff_chainedMedia : ∃ tx',
    WritesReleases plainRuntime true .null [noMediaRecord] ⟨chainedMedia, {}⟩ tx' ∧
      (KeepsUsedMedia chainedMedia tx'.graph ↔ LocksUnstored plainRuntime true [noMediaRecord] chainedMedia ∧
        ∀ m, Orphans plainRuntime true [noMediaRecord] chainedMedia m →
          (∃ id, Attaches plainRuntime true [noMediaRecord] chainedMedia id m) →
            Alike plainRuntime true [noMediaRecord] chainedMedia m) := by
  obtain ⟨⟨tx', flags⟩, hrun, _⟩ := enrichReleasesBatch_chainedMedia
  have hwrites : WritesReleases plainRuntime true .null [noMediaRecord] ⟨chainedMedia, {}⟩ tx' :=
    .inr ⟨flags, hrun⟩
  exact ⟨tx', hwrites, writesReleases_keepsUsedMedia_iff hwrites⟩

/-- One release cannot detach a medium and attach it. -/
theorem not_attaches_of_orphans {record : Dict} {g : Graph} {m : String}
    (h : Orphans rt gate [record] g m) : ¬ ∃ id, Attaches rt gate [record] g id m := by
  rintro ⟨id, block, hrec, hm⟩
  obtain ⟨id', ⟨block', hrec', hm'⟩, _⟩ := h.1
  obtain rfl := hrec.id_unique hrec'
  rw [hrec.unique hrec'] at hm
  exact hm' hm

/-- Written one by one, releases keep the media in use. -/
theorem enrichRelease_keepsUsedMedia {record : Dict} {tx tx' : Tx}
    (hlocks : LocksUnstored rt gate [record] tx.graph) (h : enrichRelease rt gate now record tx = .ok tx') :
    KeepsUsedMedia tx.graph tx'.graph := by
  have hwrites : WritesReleases rt gate now [record] tx tx' := .inl ⟨record, rfl, h⟩
  exact hwrites.keepsUsedMedia hlocks fun m horphan hattached =>
    absurd hattached (not_attaches_of_orphans horphan)

/-! ## A medium handed over within a batch -/

/-- Release `1` alone is issued on `cd`, filed under `optical`. -/
def opticalDisc : Graph where
  node k :=
    if k = mediumKey "cd" then some (mediumProps "optical" "Compact Disc")
    else if k = releaseKey "1" ∨ k = releaseKey "2" ∨ k = familyKey "optical" then some noProps else none
  rels :=
    [⟨.issuedOn, releaseKey "1", mediumKey "cd", Function.update noProps "source" (.str mediaSource)⟩,
      ⟨.inFamily, mediumKey "cd", familyKey "optical", noProps⟩]
  closed := by simp [mediumKey, releaseKey, familyKey]

/-- Release `2` with `cd`, filed under `disc`. -/
def discRecord : Dict :=
  [("discogs_release_id", .int 2),
    ("media", .obj [("items", .arr [.obj [("medium", .str "cd"), ("family", .str "disc")]])])]

/-- Release `1` leaves `cd` and release `2` joins it: the node is another one afterwards. -/
theorem enrichReleasesBatch_opticalDisc : ∃ r,
    enrichReleasesBatch plainRuntime true .null [noMediaRecord, discRecord] ⟨opticalDisc, {}⟩ = .ok r ∧
      (r.1.graph.node (mediumKey "cd")).map (· "family") = some (.str "disc") :=
  Except.exists_eq_ok (by decide +kernel)

theorem handed_over_medium_not_kept :
    ¬ ∀ (rt : Runtime) (gate : Bool) (now : Json) (records : List Dict) (tx tx' : Tx),
      WritesReleases rt gate now records tx tx' → KeepsUsedMedia tx.graph tx'.graph := by
  intro h
  obtain ⟨⟨tx', flags⟩, hrun, hfamily⟩ := enrichReleasesBatch_opticalDisc
  have hkeeps := h plainRuntime true .null [noMediaRecord, discRecord] ⟨opticalDisc, {}⟩ tx' (.inr ⟨flags, hrun⟩)
  obtain ⟨n', hn', hdisc⟩ := Option.map_eq_some_iff.mp hfamily
  have hsame := hkeeps.written "cd" _ n' rfl hn'
  rw [hsame] at hdisc
  exact absurd hdisc (by decide)

end Brainzgraphinator
