-- SUMMARY: What each statement of the media phase leaves: locked nodes, pruned media, merged edges.
import Brainzgraphinator.Projections.ReleaseWrite

/-!
# The statements of the media phase

For every statement of the media phase: which nodes it writes, which nodes exist
after it, and what it does to the relationships of a selection. The
musicbrainz-sourced ISSUED_ON edges are read through `issuedQtys`, the quantities
of the parallel edges between two nodes in storage order.
-/

namespace Brainzgraphinator

/-! ## Quantities of the musicbrainz edges -/

/-- A musicbrainz-sourced ISSUED_ON edge from `s` to `d`. -/
def mbIssued (s d : NodeKey) (e : Edge) : Bool :=
  e.type = .issuedOn ∧ e.src = s ∧ e.dst = d ∧ e.props "source" = .str mediaSource

def issuedQtys (g : Graph) (s d : NodeKey) : List Json :=
  (g.rels.filter (mbIssued s d)).map fun e => e.props "qty"

/-- The quantities after a row for the pair was merged: all its edges carry the
row's quantity, and there is at least one. -/
def settle (qty : Int) (qtys : List Json) : List Json :=
  if qtys = [] then [.int qty] else qtys.map fun _ => .int qty

theorem mem_settle {qty : Int} {qtys : List Json} {q : Json} : q ∈ settle qty qtys ↔ q = .int qty := by
  unfold settle
  split
  · simp
  · rename_i hne
    simp only [List.mem_map]
    constructor
    · rintro ⟨_, _, rfl⟩; rfl
    · rintro rfl
      obtain ⟨x, hx⟩ := List.exists_mem_of_ne_nil _ hne
      exact ⟨x, hx, rfl⟩

theorem length_settle (qty : Int) (qtys : List Json) :
    (settle qty qtys).length = max 1 qtys.length := by
  unfold settle
  split
  · rename_i h; simp [h]
  · rename_i h
    have := List.length_pos_of_ne_nil h
    rw [List.length_map]
    omega

theorem issuedQtys_congr {g g' : Graph} (h : g'.rels = g.rels) (s d : NodeKey) :
    issuedQtys g' s d = issuedQtys g s d := by
  rw [issuedQtys, h, issuedQtys]

/-! ## Locks -/

@[simp] theorem touch_apply_ne {key : String} {n : Props} {p : String} (h : p ≠ key) :
    touch key n p = n p := by
  simp [touch, h]

@[simp] theorem rels_lockFamily (g : Graph) (name : String) : (lockFamily g name).rels = g.rels := rfl

theorem node_lockFamily_of_ne {g : Graph} {name : String} {k : NodeKey} (h : k ≠ familyKey name) :
    (lockFamily g name).node k = g.node k := by
  rw [lockFamily, PropertyGraph.Graph.node_update_ne h, PropertyGraph.Graph.node_mergeNode_ne h]

theorem isSome_node_lockFamily {k : NodeKey} (g : Graph) (name : String) :
    ((lockFamily g name).node k).isSome ↔ k = familyKey name ∨ (g.node k).isSome := by
  rw [lockFamily, PropertyGraph.Graph.isSome_node_update, PropertyGraph.Graph.isSome_node_mergeNode]

@[simp] theorem rels_lockMedium (g : Graph) (target : String × Option LockItem) :
    (lockMedium g target).rels = g.rels := by
  obtain ⟨id, _ | item⟩ := target <;> rfl

theorem node_lockMedium_of_ne {g : Graph} {target : String × Option LockItem} {k : NodeKey}
    (h : k ≠ mediumKey target.1) : (lockMedium g target).node k = g.node k := by
  obtain ⟨id, _ | item⟩ := target
  · exact PropertyGraph.Graph.node_update_ne h _ _
  · rw [lockMedium, PropertyGraph.Graph.node_update_ne h, PropertyGraph.Graph.node_mergeNode_ne h]

theorem isSome_node_lockMedium {k : NodeKey} (g : Graph) (target : String × Option LockItem) :
    ((lockMedium g target).node k).isSome ↔
      k = mediumKey target.1 ∧ target.2.isSome ∨ (g.node k).isSome := by
  obtain ⟨id, _ | item⟩ := target
  · simp [lockMedium]
  · simp [lockMedium, PropertyGraph.Graph.isSome_node_mergeNode]

section Fold

variable {β : Type*} {f : Graph → β → Graph}

/-- A loop of steps that keep the relationships keeps them. -/
theorem rels_foldl_of_step (h : ∀ g x, (f g x).rels = g.rels) (xs : List β) (g : Graph) :
    (xs.foldl f g).rels = g.rels := by
  induction xs generalizing g with
  | nil => rfl
  | cons x xs ih => rw [List.foldl_cons, ih, h]

/-- A loop of steps that leave one node alone leaves it alone. -/
theorem node_foldl_of_step {k : NodeKey} {xs : List β}
    (h : ∀ x ∈ xs, ∀ g, (f g x).node k = g.node k) (g : Graph) :
    (xs.foldl f g).node k = g.node k := by
  induction xs generalizing g with
  | nil => rfl
  | cons x xs ih =>
    rw [List.foldl_cons, ih fun y hy => h y (List.mem_cons_of_mem _ hy), h x List.mem_cons_self]

/-- The nodes a loop adds are those its steps add. -/
theorem isSome_node_foldl_of_step {k : NodeKey} {adds : β → Prop}
    (h : ∀ g x, ((f g x).node k).isSome ↔ adds x ∨ (g.node k).isSome) (xs : List β) (g : Graph) :
    ((xs.foldl f g).node k).isSome ↔ (∃ x ∈ xs, adds x) ∨ (g.node k).isSome := by
  induction xs generalizing g with
  | nil => simp
  | cons x xs ih =>
    rw [List.foldl_cons, ih, h]
    simp only [List.mem_cons, exists_eq_or_imp, or_assoc, or_left_comm]

/-- A loop whose steps may apply one idempotent change to a node applies it once. -/
theorem node_foldl_of_idempotent {k : NodeKey} {hits : β → Prop} [DecidablePred hits] {F : Props → Props}
    (hF : ∀ n, F (F n) = F n) (h : ∀ g x n, g.node k = some n →
      (f g x).node k = some (if hits x then F n else n)) (xs : List β) {g : Graph} {n : Props}
    (hn : g.node k = some n) :
    (xs.foldl f g).node k = some (if ∃ x ∈ xs, hits x then F n else n) := by
  induction xs generalizing g n with
  | nil => simpa using hn
  | cons x xs ih =>
    rw [List.foldl_cons, ih (h g x n hn)]
    by_cases hx : hits x
    · simp [hx, hF]
    · simp [hx]

end Fold

/-- The locked items: one for every medium of the rows, taken from its first row. -/
theorem mem_mediaLockArgs_items {edgeRows : List MediaRow} {item : LockItem} :
    item ∈ (mediaLockArgs edgeRows).items ↔
      ∃ row, (edgeRows.find? fun row => row.medium = item.medium) = some row ∧
        LockItem.mk row.medium row.family row.label = item := by
  have hlookup := OrderedDict.lookup_foldl_setDefault MediaRow.medium
    (fun row => LockItem.mk row.medium row.family row.label) edgeRows []
  simp only [List.lookup_nil, Option.none_or] at hlookup
  simp only [mediaLockArgs, List.mem_filterMap, hlookup, Option.map_eq_some_iff,
    List.mem_insertionSort]
  constructor
  · rintro ⟨key, _, row, hfind, rfl⟩
    have hkey : row.medium = key := by simpa using List.find?_some hfind
    exact ⟨row, by simpa only [hkey] using hfind, rfl⟩
  · rintro ⟨row, hfind, rfl⟩
    refine ⟨row.medium, ?_, row, hfind, rfl⟩
    have hl := hlookup row.medium
    rw [hfind, Option.map_some] at hl
    refine List.mem_map.mpr ⟨_, (OrderedDict.lookup_eq_some_iff ?_).mp hl, rfl⟩
    exact OrderedDict.nodup_keys_foldl_setDefault _ _ _ List.nodup_nil

theorem mem_mediaLockArgs_itemIds {edgeRows : List MediaRow} {id : String} :
    id ∈ (mediaLockArgs edgeRows).itemIds ↔ ∃ row ∈ edgeRows, row.medium = id := by
  change id ∈ (mediaLockArgs edgeRows).items.map LockItem.medium ↔ _
  rw [List.mem_map]
  constructor
  · rintro ⟨item, hitem, rfl⟩
    obtain ⟨row, hfind, rfl⟩ := mem_mediaLockArgs_items.mp hitem
    exact ⟨row, List.mem_of_find?_eq_some hfind, rfl⟩
  · rintro ⟨row, hrow, rfl⟩
    obtain ⟨first, hfirst, hmedium⟩ := OrderedDict.exists_find?_key MediaRow.medium hrow
    exact ⟨_, mem_mediaLockArgs_items.mpr ⟨first, by simpa only [hmedium] using hfirst, rfl⟩,
      hmedium⟩

theorem mem_lockTargets {rows : List SummaryRow} {args : MediaLockArgs} {g : Graph}
    {target : String × Option LockItem} :
    target ∈ lockTargets rows args g ↔
      (∃ item ∈ args.items, (item.medium, some item) = target) ∨
        ∃ id ∈ staleIds rows g, id ∉ args.itemIds ∧ (id, none) = target := by
  simp [lockTargets, and_assoc]

section Lock

variable {rows : List SummaryRow} {edgeRows : List MediaRow} {g : Graph}

@[simp] theorem rels_lockMediaInOrder : (lockMediaInOrder rows edgeRows g).rels = g.rels := by
  rw [lockMediaInOrder, lockMediaMediumsCypher, rels_foldl_of_step rels_lockMedium,
    lockMediaFamiliesCypher, rels_foldl_of_step rels_lockFamily]

/-- The locks write media and families only. -/
theorem node_lockMediaInOrder {k : NodeKey} (hm : k.label ≠ .medium) (hf : k.label ≠ .mediaFamily) :
    (lockMediaInOrder rows edgeRows g).node k = g.node k := by
  rw [lockMediaInOrder, lockMediaMediumsCypher, node_foldl_of_step, lockMediaFamiliesCypher,
    node_foldl_of_step]
  · rintro name _ g
    exact node_lockFamily_of_ne (by rintro rfl; exact hf rfl)
  · rintro target _ g
    exact node_lockMedium_of_ne (by rintro rfl; exact hm rfl)

/-- The locks create the media to attach and nothing else among the media. -/
theorem isSome_node_lockMediaInOrder_medium {m : String} :
    ((lockMediaInOrder rows edgeRows g).node (mediumKey m)).isSome ↔
      (∃ row ∈ edgeRows, row.medium = m) ∨ (g.node (mediumKey m)).isSome := by
  have hfamilies : ∀ (names : List String) (g : Graph),
      (names.foldl lockFamily g).node (mediumKey m) = g.node (mediumKey m) := by
    intro names g
    exact node_foldl_of_step (fun name _ g => node_lockFamily_of_ne (by simp [mediumKey, familyKey])) g
  rw [lockMediaInOrder, lockMediaMediumsCypher, isSome_node_foldl_of_step
    isSome_node_lockMedium, lockMediaFamiliesCypher, hfamilies]
  refine or_congr_left ?_
  rw [← mem_mediaLockArgs_itemIds]
  change _ ↔ m ∈ (mediaLockArgs edgeRows).items.map LockItem.medium
  rw [List.mem_map]
  constructor
  · rintro ⟨target, htarget, hkey, hsome⟩
    rcases mem_lockTargets.mp htarget with ⟨item, hitem, rfl⟩ | ⟨id, _, _, rfl⟩
    · exact ⟨item, hitem, (mediumKey_inj.mp hkey).symm⟩
    · cases hsome
  · rintro ⟨item, hitem, rfl⟩
    exact ⟨_, mem_lockTargets.mpr (.inl ⟨item, hitem, rfl⟩), rfl, rfl⟩

/-- The locks remove no node. -/
theorem isSome_node_lockMediaInOrder_of_isSome {k : NodeKey} (h : (g.node k).isSome) :
    ((lockMediaInOrder rows edgeRows g).node k).isSome := by
  rw [lockMediaInOrder, lockMediaMediumsCypher,
    isSome_node_foldl_of_step isSome_node_lockMedium, lockMediaFamiliesCypher,
    isSome_node_foldl_of_step isSome_node_lockFamily]
  exact .inr (.inr h)

end Lock

/-! ## Prune -/

/-- The relationship keeps the medium `m`: it touches it and is not an outgoing
IN_FAMILY edge of its own. -/
def Keeps (m : String) (e : Edge) : Prop :=
  e.Touches (mediumKey m) ∧ (e.type ≠ .inFamily ∨ e.src ≠ mediumKey m)

instance (m : String) (e : Edge) : Decidable (Keeps m e) := inferInstanceAs (Decidable (_ ∧ _))

theorem isOrphan_iff {g : Graph} {m : String} :
    isOrphan g m = true ↔ ∀ e ∈ g.rels, ¬ Keeps m e := by
  simp only [isOrphan, Bool.and_eq_true, Bool.not_eq_true', List.any_eq_false, decide_eq_true_eq,
    List.length_eq_zero_iff, List.filter_eq_nil_iff]
  constructor
  · exact fun h e he => h.2 e he
  · refine fun h => ⟨fun e he hissued => h e he ⟨.inr hissued.2, .inl ?_⟩, fun e he => h e he⟩
    rw [hissued.1]
    exact nofun

theorem isOrphan_congr {g g' : Graph} (h : g'.rels = g.rels) (m : String) :
    isOrphan g' m = isOrphan g m := by
  rw [Bool.eq_iff_iff, isOrphan_iff, isOrphan_iff, h]

/-- The lock of the prune makes no orphan. -/
theorem isOrphan_foldl_prune_lock (media : List String) (g : Graph) :
    isOrphan (media.foldl (fun g m => g.update (mediumKey m) (touch "_prune_lock")) g) = isOrphan g :=
  funext (isOrphan_congr (PropertyGraph.Graph.rels_foldl_update media g))

/-- A prune removes the orphans among its candidates with their IN_FAMILY edges. -/
theorem pruneOrphanMedium_eq_ok {media : List String} {g g' : Graph}
    (h : pruneOrphanMedium media g = .ok g') :
    g'.rels = g.rels.filter (fun e =>
      !decide (e.type = .inFamily ∧ e.src ∈ (media.filter (isOrphan g)).map mediumKey)) ∧
    (∀ k, k.label ≠ .medium → g'.node k = g.node k) ∧
    (∀ k, (g'.node k).isSome ↔
      (g.node k).isSome ∧ k ∉ (media.filter (isOrphan g)).map mediumKey) := by
  unfold pruneOrphanMedium at h
  dsimp only at h
  rw [isOrphan_foldl_prune_lock] at h
  split at h
  · rename_i g₁ hdelete
    cases h
    obtain ⟨hrels, hnode⟩ := PropertyGraph.Graph.deleteNodes_eq_some hdelete
    refine ⟨?_, ?_, ?_⟩
    · rw [hrels, PropertyGraph.Graph.rels_deleteRels, PropertyGraph.Graph.rels_foldl_update]
    · intro k hk
      have hnot : k ∉ (media.filter (isOrphan g)).map mediumKey := by
        rw [List.mem_map]
        rintro ⟨m, _, rfl⟩
        exact hk rfl
      rw [hnode, if_neg hnot, PropertyGraph.Graph.node_deleteRels,
        PropertyGraph.Graph.node_foldl_update_of_forall_ne]
      rintro m _ rfl
      exact hk rfl
    · intro k
      rw [hnode, PropertyGraph.Graph.node_deleteRels]
      split
      · rename_i hk; simp [hk]
      · rename_i hk
        rw [PropertyGraph.Graph.isSome_node_foldl_update]
        simp [hk]
  · cases h

/-- A prune always goes through: the relationships left on an orphan are the
IN_FAMILY edges it deletes first. -/
theorem exists_pruneOrphanMedium (media : List String) (g : Graph) :
    ∃ g', pruneOrphanMedium media g = .ok g' := by
  unfold pruneOrphanMedium
  dsimp only
  rw [isOrphan_foldl_prune_lock]
  have hclear : ∀ e ∈ ((media.foldl (fun g m => g.update (mediumKey m) (touch "_prune_lock")) g).deleteRels
      fun e => e.type = .inFamily ∧ e.src ∈ (media.filter (isOrphan g)).map mediumKey).rels,
      e.src ∉ (media.filter (isOrphan g)).map mediumKey ∧
        e.dst ∉ (media.filter (isOrphan g)).map mediumKey := by
    intro e he
    rw [PropertyGraph.Graph.rels_deleteRels, PropertyGraph.Graph.rels_foldl_update, List.mem_filter] at he
    obtain ⟨he, hkept⟩ := he
    -- An edge at an orphan is its own IN_FAMILY edge, so it was deleted.
    have hnot : ∀ m ∈ media.filter (isOrphan g), ¬ e.Touches (mediumKey m) := by
      intro m hm htouch
      have hkeeps := isOrphan_iff.mp (List.mem_filter.mp hm).2 e he
      have hown : e.type = .inFamily ∧ e.src = mediumKey m := by
        by_contra hown
        exact hkeeps ⟨htouch, by tauto⟩
      have hsrc : e.src ∈ (media.filter (isOrphan g)).map mediumKey :=
        List.mem_map.mpr ⟨m, hm, hown.2.symm⟩
      simp [hown.1, hsrc] at hkept
    constructor
    · intro hsrc
      obtain ⟨m, hm, heq⟩ := List.mem_map.mp hsrc
      exact hnot m hm (.inl heq.symm)
    · intro hdst
      obtain ⟨m, hm, heq⟩ := List.mem_map.mp hdst
      exact hnot m hm (.inr heq.symm)
  obtain ⟨g', hg'⟩ := PropertyGraph.Graph.exists_deleteNodes hclear
  rw [hg']
  exact ⟨g', rfl⟩

/-! ## Summary and stale sweep -/

/-- Some row of the write detaches the edge. -/
def Stale (rows : List SummaryRow) (e : Edge) : Prop := ∃ row ∈ rows, isStale row e = true

theorem any_isStale {rows : List SummaryRow} {e : Edge} :
    rows.any (isStale · e) = true ↔ Stale rows e := List.any_eq_true

theorem Stale.mbIssued {rows : List SummaryRow} {e : Edge} (h : Stale rows e) :
    ∃ row ∈ rows, ∃ m, m ∉ row.mediumIds ∧
      mbIssued (releaseKey row.discogsId) (mediumKey m) e = true := by
  obtain ⟨row, hrow, hstale⟩ := h
  simp only [isStale, issuedBy, Bool.and_eq_true, decide_eq_true_eq] at hstale
  obtain ⟨⟨htype, hsrc, hlabel, hsource⟩, hid⟩ := hstale
  refine ⟨row, hrow, e.dst.id, hid, ?_⟩
  simp only [Brainzgraphinator.mbIssued, decide_eq_true_eq]
  refine ⟨htype, hsrc, ?_, hsource⟩
  rw [mediumKey, ← hlabel]

theorem stale_of_mbIssued {rows : List SummaryRow} {row : SummaryRow} (hrow : row ∈ rows) {m : String}
    (hm : m ∉ row.mediumIds) {e : Edge}
    (he : mbIssued (releaseKey row.discogsId) (mediumKey m) e = true) : Stale rows e := by
  simp only [mbIssued, decide_eq_true_eq] at he
  obtain ⟨htype, hsrc, hdst, hsource⟩ := he
  refine ⟨row, hrow, ?_⟩
  simp only [isStale, issuedBy, Bool.and_eq_true, decide_eq_true_eq]
  exact ⟨⟨htype, hsrc, by rw [hdst]; rfl, hsource⟩, by rw [hdst]; exact hm⟩

/-- The write prunes `m`: it detaches an edge of it, and what else touches `m`
is its own outgoing IN_FAMILY edges. -/
def Pruned (rows : List SummaryRow) (g : Graph) (m : String) : Prop :=
  (∃ e ∈ g.rels, Stale rows e ∧ e.dst = mediumKey m) ∧
    ∀ e ∈ g.rels, Keeps m e → Stale rows e

/-- The summary statement sets the summaries, deletes the stale edges and prunes. -/
theorem releaseMediaSummaryBatch_eq_ok {rows : List SummaryRow} {g g' : Graph}
    (h : releaseMediaSummaryBatchCypher rows g = .ok g') :
    (∀ e, e ∈ g'.rels ↔ e ∈ g.rels ∧ ¬ Stale rows e ∧
      ¬ (e.type = .inFamily ∧ ∃ m, Pruned rows g m ∧ e.src = mediumKey m)) ∧
    (∀ P : Edge → Bool, (∀ e, P e = true → e.type ≠ .inFamily) →
      g'.rels.filter P = (g.rels.filter P).filter fun e => !rows.any (isStale · e)) ∧
    (∀ k, k.label ≠ .medium → g'.node k =
      (rows.foldl (fun g row => g.update (releaseKey row.discogsId) (setSummary row)) g).node k) ∧
    (∀ m, (g'.node (mediumKey m)).isSome ↔ (g.node (mediumKey m)).isSome ∧ ¬ Pruned rows g m) := by
  unfold releaseMediaSummaryBatchCypher at h
  dsimp only at h
  obtain ⟨hrels, hnode, hsome⟩ := pruneOrphanMedium_eq_ok h
  simp only [PropertyGraph.Graph.rels_deleteRels, PropertyGraph.Graph.rels_foldl_update,
    PropertyGraph.Graph.node_deleteRels] at hrels hnode hsome
  -- The orphans among the candidates are the pruned media.
  have hpruned : ∀ k : NodeKey, (k ∈ ((((g.rels.filter fun e => rows.any (isStale · e)).map
        (·.dst.id)).insertionSort (· ≤ ·)).dedup.filter
        (isOrphan ((rows.foldl (fun g row => g.update (releaseKey row.discogsId) (setSummary row))
          g).deleteRels fun e => rows.any (isStale · e)))).map mediumKey) ↔
      ∃ m, Pruned rows g m ∧ k = mediumKey m := by
    intro k
    simp only [List.mem_map, List.mem_filter, List.mem_dedup, List.mem_insertionSort, isOrphan_iff,
      PropertyGraph.Graph.rels_deleteRels, PropertyGraph.Graph.rels_foldl_update, Pruned]
    constructor
    · rintro ⟨m, ⟨⟨e, ⟨he, hstale⟩, rfl⟩, horphan⟩, rfl⟩
      rw [any_isStale] at hstale
      refine ⟨e.dst.id, ⟨⟨e, he, hstale, ?_⟩, ?_⟩, rfl⟩
      · obtain ⟨_, _, m, _, hissued⟩ := hstale.mbIssued
        simp only [mbIssued, decide_eq_true_eq] at hissued
        rw [hissued.2.2.1]
        rfl
      · intro e' he' hkeeps
        by_contra hnot
        refine horphan e' ⟨he', ?_⟩ hkeeps
        rw [← any_isStale] at hnot
        simpa using hnot
    · rintro ⟨m, ⟨⟨e, he, hstale, hdst⟩, hkeeps⟩, rfl⟩
      refine ⟨m, ⟨⟨e, ⟨he, any_isStale.mpr hstale⟩, by rw [hdst]; rfl⟩, ?_⟩, rfl⟩
      rintro e' ⟨he', hnot⟩ hk
      have := any_isStale.mpr (hkeeps e' he' hk)
      simp [this] at hnot
  refine ⟨?_, ?_, ?_, ?_⟩
  · intro e
    rw [hrels, List.mem_filter, List.mem_filter]
    simp only [hpruned, Bool.not_eq_true', decide_eq_false_iff_not, ← any_isStale,
      Bool.not_eq_true, and_assoc]
  · intro P hP
    rw [hrels, List.filter_filter, List.filter_filter, List.filter_filter]
    refine List.filter_congr fun e _ => ?_
    cases hPe : P e with
    | false => simp
    | true => simp [hP e hPe]
  · exact hnode
  · intro m
    rw [hsome, hpruned]
    have hupdate : ((rows.foldl (fun g row => g.update (releaseKey row.discogsId) (setSummary row))
        g).node (mediumKey m)) = g.node (mediumKey m) :=
      PropertyGraph.Graph.node_foldl_update_of_forall_ne (by simp [releaseKey, mediumKey]) g
    rw [hupdate]
    simp [mediumKey_inj]

/-! ## Edges -/

section MergeItem

variable {item : ReleaseItem} {g : Graph}

theorem sameIssuedOn_eq_mbIssued (id medium : String) :
    sameIssuedOn id medium = mbIssued (releaseKey id) (mediumKey medium) := rfl

theorem node_mergeItem {k : NodeKey} (hm : k.label ≠ .medium) (hf : k.label ≠ .mediaFamily) :
    (mergeItem g item).node k = g.node k := by
  unfold mergeItem
  split
  · have hne : k ≠ mediumKey item.medium := by rintro rfl; exact hm rfl
    have hne' : k ≠ familyKey item.family := by rintro rfl; exact hf rfl
    simp [hne, hne']
  · rfl

theorem isSome_node_mergeItem {k : NodeKey} (hr : (g.node (releaseKey item.discogsId)).isSome) :
    ((mergeItem g item).node k).isSome ↔
      (k = mediumKey item.medium ∨ k = familyKey item.family) ∨ (g.node k).isSome := by
  simp only [mergeItem, if_pos hr, PropertyGraph.Graph.node_mergeRel,
    PropertyGraph.Graph.isSome_node_mergeNode]
  tauto

/-- A selection of neither kind of edge the row merges is the same after it. -/
theorem filter_rels_mergeItem_of_disjoint {P : Edge → Bool}
    (hfamily : ∀ e : Edge, e.type = .inFamily → e.src = mediumKey item.medium →
      e.dst = familyKey item.family → P e = false)
    (hissued : ∀ e : Edge, mbIssued (releaseKey item.discogsId) (mediumKey item.medium) e = true →
      P e = false) :
    (mergeItem g item).rels.filter P = g.rels.filter P := by
  unfold mergeItem
  split
  · dsimp only
    rw [PropertyGraph.Graph.filter_mergeRel_of_disjoint, PropertyGraph.Graph.filter_mergeRel_of_disjoint]
    · rfl
    · intro e he
      simp only [sameInFamily, decide_eq_true_eq] at he
      exact ⟨hfamily e he.1 he.2.1 he.2.2, hfamily _ he.1 he.2.1 he.2.2⟩
    · exact hfamily _ rfl rfl rfl
    · intro e he
      rw [sameIssuedOn_eq_mbIssued] at he
      refine ⟨hissued e he, hissued _ ?_⟩
      simpa [mbIssued] using he
    · exact hissued _ (by simp [mbIssued])
  · rfl

theorem issuedQtys_mergeItem_self (hr : (g.node (releaseKey item.discogsId)).isSome) :
    issuedQtys (mergeItem g item) (releaseKey item.discogsId) (mediumKey item.medium) =
      settle item.qty (issuedQtys g (releaseKey item.discogsId) (mediumKey item.medium)) := by
  simp only [mergeItem, if_pos hr]
  set g₁ := ((g.mergeNode (mediumKey item.medium) (mediumProps item.family item.label)).mergeNode
    (familyKey item.family) noProps).mergeRel (sameInFamily item.medium item.family)
    ⟨.inFamily, mediumKey item.medium, familyKey item.family, noProps⟩ id with hg₁
  have hbefore : g₁.rels.filter (mbIssued (releaseKey item.discogsId) (mediumKey item.medium)) =
      g.rels.filter (mbIssued (releaseKey item.discogsId) (mediumKey item.medium)) := by
    rw [hg₁, PropertyGraph.Graph.filter_mergeRel_of_disjoint]
    · rfl
    · intro e he
      simp only [sameInFamily, decide_eq_true_eq] at he
      simp [mbIssued, he.1]
    · simp [mbIssued]
  have hsrc : (g₁.node (releaseKey item.discogsId)).isSome := by
    simpa [hg₁, PropertyGraph.Graph.isSome_node_mergeNode] using .inr (.inr hr)
  have hdst : (g₁.node (mediumKey item.medium)).isSome := by
    simp [hg₁, PropertyGraph.Graph.isSome_node_mergeNode]
  rw [issuedQtys, ← sameIssuedOn_eq_mbIssued, PropertyGraph.Graph.filter_mergeRel_same _ _ hsrc hdst,
    sameIssuedOn_eq_mbIssued, hbefore, settle, issuedQtys]
  · by_cases hnil : g.rels.filter (mbIssued (releaseKey item.discogsId) (mediumKey item.medium)) = []
    · simp [hnil]
    · simp [hnil]
  · intro e he
    simpa [sameIssuedOn] using he
  · simp [sameIssuedOn]

theorem issuedQtys_mergeItem_of_ne {s d : NodeKey}
    (h : ¬ (s = releaseKey item.discogsId ∧ d = mediumKey item.medium)) :
    issuedQtys (mergeItem g item) s d = issuedQtys g s d := by
  rw [issuedQtys, filter_rels_mergeItem_of_disjoint, issuedQtys]
  · intro e htype _ _
    simp [mbIssued, htype]
  · intro e he
    simp only [mbIssued, decide_eq_true_eq] at he
    simp only [mbIssued, decide_eq_false_iff_not]
    rintro ⟨_, hs, hd, _⟩
    exact h ⟨hs.symm.trans he.2.1, hd.symm.trans he.2.2.1⟩

end MergeItem

section MergeItems

variable {items : List ReleaseItem} {g : Graph}

theorem node_releaseMediaEdges {k : NodeKey} (hm : k.label ≠ .medium) (hf : k.label ≠ .mediaFamily) :
    (releaseMediaEdgesBatchCypher items g).node k = g.node k :=
  node_foldl_of_step (fun _ _ _ => node_mergeItem hm hf) g

theorem filter_rels_releaseMediaEdges_of_disjoint {P : Edge → Bool}
    (hfamily : ∀ item ∈ items, ∀ e : Edge, e.type = .inFamily → e.src = mediumKey item.medium →
      e.dst = familyKey item.family → P e = false)
    (hissued : ∀ item ∈ items, ∀ e : Edge,
      mbIssued (releaseKey item.discogsId) (mediumKey item.medium) e = true → P e = false) :
    (releaseMediaEdgesBatchCypher items g).rels.filter P = g.rels.filter P := by
  unfold releaseMediaEdgesBatchCypher
  induction items generalizing g with
  | nil => rfl
  | cons item items ih =>
    rw [List.foldl_cons, ih (fun i hi => hfamily i (List.mem_cons_of_mem _ hi))
      (fun i hi => hissued i (List.mem_cons_of_mem _ hi)),
      filter_rels_mergeItem_of_disjoint (hfamily item List.mem_cons_self)
        (hissued item List.mem_cons_self)]

theorem isSome_node_releaseMediaEdges
    (hr : ∀ item ∈ items, (g.node (releaseKey item.discogsId)).isSome) {k : NodeKey} :
    ((releaseMediaEdgesBatchCypher items g).node k).isSome ↔
      (∃ item ∈ items, k = mediumKey item.medium ∨ k = familyKey item.family) ∨
        (g.node k).isSome := by
  unfold releaseMediaEdgesBatchCypher
  induction items generalizing g with
  | nil => simp
  | cons item items ih =>
    have hr' : ∀ i ∈ items, ((mergeItem g item).node (releaseKey i.discogsId)).isSome := by
      intro i hi
      rw [node_mergeItem (by simp [releaseKey]) (by simp [releaseKey])]
      exact hr i (List.mem_cons_of_mem _ hi)
    rw [List.foldl_cons, ih hr', isSome_node_mergeItem (hr item List.mem_cons_self)]
    simp only [List.mem_cons, exists_eq_or_imp, or_assoc, or_left_comm]

theorem issuedQtys_releaseMediaEdges_of_ne {s d : NodeKey}
    (h : ∀ item ∈ items, ¬ (s = releaseKey item.discogsId ∧ d = mediumKey item.medium)) :
    issuedQtys (releaseMediaEdgesBatchCypher items g) s d = issuedQtys g s d := by
  unfold releaseMediaEdgesBatchCypher
  induction items generalizing g with
  | nil => rfl
  | cons item items ih =>
    rw [List.foldl_cons, ih fun i hi => h i (List.mem_cons_of_mem _ hi),
      issuedQtys_mergeItem_of_ne (h item List.mem_cons_self)]

/-- Every row settles the edges of its own pair. -/
theorem issuedQtys_releaseMediaEdges_of_mem
    (hr : ∀ item ∈ items, (g.node (releaseKey item.discogsId)).isSome)
    (hnd : (items.map fun item => (item.discogsId, item.medium)).Nodup)
    {item : ReleaseItem} (hitem : item ∈ items) :
    issuedQtys (releaseMediaEdgesBatchCypher items g) (releaseKey item.discogsId)
        (mediumKey item.medium) =
      settle item.qty (issuedQtys g (releaseKey item.discogsId) (mediumKey item.medium)) := by
  unfold releaseMediaEdgesBatchCypher
  induction items generalizing g with
  | nil => cases hitem
  | cons first items ih =>
    obtain ⟨hfirst, hnd⟩ := List.nodup_cons.mp hnd
    rw [List.foldl_cons]
    rcases List.mem_cons.mp hitem with rfl | hitem
    · have hother : ∀ i ∈ items, ¬ (releaseKey item.discogsId = releaseKey i.discogsId ∧
          mediumKey item.medium = mediumKey i.medium) := by
        rintro i hi ⟨hs, hd⟩
        exact hfirst (List.mem_map.mpr
          ⟨i, hi, Prod.ext (releaseKey_inj.mp hs).symm (mediumKey_inj.mp hd).symm⟩)
      have hrest := issuedQtys_releaseMediaEdges_of_ne (g := mergeItem g item) hother
      rw [releaseMediaEdgesBatchCypher] at hrest
      rw [hrest, issuedQtys_mergeItem_self (hr item List.mem_cons_self)]
    · have hne : ¬ (releaseKey item.discogsId = releaseKey first.discogsId ∧
          mediumKey item.medium = mediumKey first.medium) := by
        rintro ⟨hs, hd⟩
        exact hfirst (List.mem_map.mpr
          ⟨item, hitem, Prod.ext (releaseKey_inj.mp hs) (mediumKey_inj.mp hd)⟩)
      have hr' : ∀ i ∈ items, ((mergeItem g first).node (releaseKey i.discogsId)).isSome := by
        intro i hi
        rw [node_mergeItem (by simp [releaseKey]) (by simp [releaseKey])]
        exact hr i (List.mem_cons_of_mem _ hi)
      rw [ih hr' hnd hitem, issuedQtys_mergeItem_of_ne hne]

end MergeItems

end Brainzgraphinator
