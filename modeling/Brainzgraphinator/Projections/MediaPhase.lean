-- SUMMARY: What the whole media phase of a release write leaves of the graph before it.
import Brainzgraphinator.Projections.MediaStatements

/-!
# The media phase

`MediaEffect` states what locks, summaries, stale sweep, prune and edges leave
together, and `ReleaseWrite.effect` brings it to both write paths.
-/

namespace Brainzgraphinator

theorem pruned_congr {g g' : Graph} (h : g'.rels = g.rels) (rows : List SummaryRow) (m : String) :
    Pruned rows g' m ↔ Pruned rows g m := by
  rw [Pruned, h, Pruned]

/-- What the media phase leaves of the graph `g` before it. -/
structure MediaEffect (summaries : List SummaryRow) (items : List ReleaseItem) (g g' : Graph) :
    Prop where
  node : ∀ k, k.label ≠ .medium → k.label ≠ .mediaFamily → g'.node k =
    (summaries.foldl (fun g row => g.update (releaseKey row.discogsId) (setSummary row)) g).node k
  family : ∀ f, (g.node (familyKey f)).isSome → (g'.node (familyKey f)).isSome
  medium : ∀ m, (g'.node (mediumKey m)).isSome ↔ (∃ item ∈ items, item.medium = m) ∨
    (g.node (mediumKey m)).isSome ∧ ¬ Pruned summaries g m
  stale : ∀ row ∈ summaries, ∀ m, m ∉ row.mediumIds →
    issuedQtys g' (releaseKey row.discogsId) (mediumKey m) = []
  settled : ∀ item ∈ items, issuedQtys g' (releaseKey item.discogsId) (mediumKey item.medium) =
    settle item.qty (issuedQtys g (releaseKey item.discogsId) (mediumKey item.medium))
  kept : ∀ s d, (∀ row ∈ summaries, s = releaseKey row.discogsId → d.label ≠ .medium) →
    issuedQtys g' s d = issuedQtys g s d
  others : ∀ P : Edge → Bool, (∀ e, P e = true → e.type ≠ .inFamily ∧
      ∀ id m, mbIssued (releaseKey id) (mediumKey m) e = false) →
    g'.rels.filter P = g.rels.filter P
  keeps : ∀ m, (∀ item ∈ items, item.medium ≠ m) → ∀ e, Keeps m e → (e ∈ g'.rels ↔
    e ∈ g.rels ∧ ¬ Stale summaries e ∧
      ¬ (e.type = .inFamily ∧ ∃ m', Pruned summaries g m' ∧ e.src = mediumKey m'))

theorem reconcileBatch_eq_ok {summaries : List SummaryRow} {items : List ReleaseItem} {g g' : Graph}
    (h : reconcileBatch summaries items g = .ok g') :
    summaries = [] ∧ g' = g ∨ ∃ g₁,
      releaseMediaSummaryBatchCypher summaries
        (lockMediaInOrder summaries (items.map ReleaseItem.toMediaRow) g) = .ok g₁ ∧
      g' = releaseMediaEdgesBatchCypher items g₁ := by
  unfold reconcileBatch at h
  split at h
  · rename_i hnil
    exact .inl ⟨hnil, (Except.pure_eq_ok.mp h).symm⟩
  · obtain ⟨g₁, hsummary, h⟩ := Except.bind_eq_ok.mp h
    rw [Except.pure_eq_ok] at h
    refine .inr ⟨g₁, hsummary, h.symm.trans ?_⟩
    split
    · rfl
    · rename_i hitems
      rw [not_not.mp hitems]
      rfl

/-- Two ways to say that no summary row names the node. -/
theorem forall_releaseKey_ne {summaries : List SummaryRow} {k : NodeKey}
    (h : ¬ ∃ row ∈ summaries, releaseKey row.discogsId = k) :
    ∀ row ∈ summaries, releaseKey row.discogsId ≠ k :=
  fun row hrow heq => h ⟨row, hrow, heq⟩

theorem nodup_releaseKeys {summaries : List SummaryRow}
    (h : (summaries.map SummaryRow.discogsId).Nodup) :
    (summaries.map fun row => releaseKey row.discogsId).Nodup := by
  have hmap : (summaries.map fun row => releaseKey row.discogsId) =
      (summaries.map SummaryRow.discogsId).map releaseKey := by
    rw [List.map_map]; rfl
  rw [hmap]
  exact h.map fun _ _ => releaseKey_inj.mp

section Phase

variable {summaries : List SummaryRow} {items : List ReleaseItem} {g g₁ : Graph}

/-- The graph between the sweep and the edges: locks, summaries, deletes. -/
def Swept (summaries : List SummaryRow) (items : List ReleaseItem) (g g₁ : Graph) : Prop :=
  releaseMediaSummaryBatchCypher summaries
    (lockMediaInOrder summaries (items.map ReleaseItem.toMediaRow) g) = .ok g₁

theorem Swept.node (h : Swept summaries items g g₁)
    (hids : (summaries.map SummaryRow.discogsId).Nodup) {k : NodeKey} (hm : k.label ≠ .medium)
    (hf : k.label ≠ .mediaFamily) : g₁.node k =
      (summaries.foldl (fun g row => g.update (releaseKey row.discogsId) (setSummary row)) g).node k := by
  obtain ⟨_, _, hnode, _⟩ := releaseMediaSummaryBatch_eq_ok h
  rw [hnode k hm]
  by_cases hk : ∃ row ∈ summaries, releaseKey row.discogsId = k
  · obtain ⟨row, hrow, rfl⟩ := hk
    rw [PropertyGraph.Graph.node_foldl_update_of_mem (nodup_releaseKeys hids) hrow,
      PropertyGraph.Graph.node_foldl_update_of_mem (nodup_releaseKeys hids) hrow,
      node_lockMediaInOrder hm hf]
  · rw [PropertyGraph.Graph.node_foldl_update_of_forall_ne (forall_releaseKey_ne hk),
      PropertyGraph.Graph.node_foldl_update_of_forall_ne (forall_releaseKey_ne hk),
      node_lockMediaInOrder hm hf]

theorem Swept.isSome_release (h : Swept summaries items g g₁)
    (hids : (summaries.map SummaryRow.discogsId).Nodup)
    (hr : ∀ item ∈ items, (g.node (releaseKey item.discogsId)).isSome) :
    ∀ item ∈ items, (g₁.node (releaseKey item.discogsId)).isSome := by
  intro item hitem
  rw [h.node hids (by simp [releaseKey]) (by simp [releaseKey]),
    PropertyGraph.Graph.isSome_node_foldl_update]
  exact hr item hitem

theorem Swept.isSome_family (h : Swept summaries items g g₁) {f : String}
    (hf : (g.node (familyKey f)).isSome) : (g₁.node (familyKey f)).isSome := by
  obtain ⟨_, _, hnode, _⟩ := releaseMediaSummaryBatch_eq_ok h
  rw [hnode _ (by simp [familyKey]), PropertyGraph.Graph.isSome_node_foldl_update]
  exact isSome_node_lockMediaInOrder_of_isSome hf

theorem Swept.isSome_medium (h : Swept summaries items g g₁) (m : String) :
    (g₁.node (mediumKey m)).isSome ↔
      ((∃ item ∈ items, item.medium = m) ∨ (g.node (mediumKey m)).isSome) ∧
        ¬ Pruned summaries g m := by
  obtain ⟨_, _, _, hmedium⟩ := releaseMediaSummaryBatch_eq_ok h
  rw [hmedium, isSome_node_lockMediaInOrder_medium, pruned_congr rels_lockMediaInOrder]
  simp

theorem Swept.mem_rels (h : Swept summaries items g g₁) (e : Edge) :
    e ∈ g₁.rels ↔ e ∈ g.rels ∧ ¬ Stale summaries e ∧
      ¬ (e.type = .inFamily ∧ ∃ m, Pruned summaries g m ∧ e.src = mediumKey m) := by
  obtain ⟨hmem, _⟩ := releaseMediaSummaryBatch_eq_ok h
  rw [hmem]
  simp only [rels_lockMediaInOrder, pruned_congr rels_lockMediaInOrder]

theorem Swept.filter_rels (h : Swept summaries items g g₁) {P : Edge → Bool}
    (hfamily : ∀ e, P e = true → e.type ≠ .inFamily) (hstale : ∀ e, P e = true → ¬ Stale summaries e) :
    g₁.rels.filter P = g.rels.filter P := by
  obtain ⟨_, hfilter, _⟩ := releaseMediaSummaryBatch_eq_ok h
  rw [hfilter P hfamily, rels_lockMediaInOrder, List.filter_eq_self]
  intro e he
  rw [Bool.not_eq_true', ← Bool.not_eq_true, any_isStale]
  exact hstale e (List.mem_filter.mp he).2

theorem Swept.issuedQtys (h : Swept summaries items g g₁) {s d : NodeKey}
    (hkept : ∀ row ∈ summaries, ∀ m, m ∉ row.mediumIds → s = releaseKey row.discogsId →
      d ≠ mediumKey m) :
    issuedQtys g₁ s d = issuedQtys g s d := by
  rw [Brainzgraphinator.issuedQtys, h.filter_rels, Brainzgraphinator.issuedQtys]
  · intro e he
    simp only [mbIssued, decide_eq_true_eq] at he
    rw [he.1]
    rintro ⟨⟩
  · intro e he hstale
    obtain ⟨row, hrow, m, hm, he'⟩ := hstale.mbIssued
    simp only [mbIssued, decide_eq_true_eq] at he he'
    exact hkept row hrow m hm (he.2.1.symm.trans he'.2.1) (he.2.2.1.symm.trans he'.2.2.1)

theorem Swept.issuedQtys_stale (h : Swept summaries items g g₁) {row : SummaryRow}
    (hrow : row ∈ summaries) {m : String} (hm : m ∉ row.mediumIds) :
    Brainzgraphinator.issuedQtys g₁ (releaseKey row.discogsId) (mediumKey m) = [] := by
  rw [Brainzgraphinator.issuedQtys, List.map_eq_nil_iff, List.filter_eq_nil_iff]
  intro e he hissued
  exact ((h.mem_rels e).mp he).2.1 (stale_of_mbIssued hrow hm hissued)

end Phase

/-- The items belong to releases that have a summary row listing their medium. -/
structure Covered (summaries : List SummaryRow) (items : List ReleaseItem) (g : Graph) : Prop where
  isSome : ∀ item ∈ items, (g.node (releaseKey item.discogsId)).isSome
  nodup_ids : (summaries.map SummaryRow.discogsId).Nodup
  nodup_items : (items.map fun item => (item.discogsId, item.medium)).Nodup
  listed : ∀ item ∈ items, ∃ row ∈ summaries, row.discogsId = item.discogsId ∧
    item.medium ∈ row.mediumIds

theorem Covered.mem_mediumIds {summaries : List SummaryRow} {items : List ReleaseItem} {g : Graph}
    (h : Covered summaries items g) {row : SummaryRow} (hrow : row ∈ summaries)
    {item : ReleaseItem} (hitem : item ∈ items) (hid : row.discogsId = item.discogsId) :
    item.medium ∈ row.mediumIds := by
  obtain ⟨row', hrow', hid', hm⟩ := h.listed item hitem
  rw [List.inj_on_of_nodup_map h.nodup_ids hrow hrow' (hid.trans hid'.symm)]
  exact hm

theorem mediaEffect_of_nil {items : List ReleaseItem} {g : Graph} (h : Covered [] items g) :
    MediaEffect [] items g g := by
  have hnil : items = [] := by
    refine List.eq_nil_iff_forall_not_mem.mpr fun item hitem => ?_
    obtain ⟨_, hrow, _⟩ := h.listed item hitem
    cases hrow
  subst hnil
  have hnone : ∀ m, ¬ Pruned [] g m := by
    rintro m ⟨⟨_, _, ⟨_, hrow, _⟩, _⟩, _⟩
    cases hrow
  constructor <;> simp [hnone, Stale]

section Effect

variable {summaries : List SummaryRow} {items : List ReleaseItem} {g g₁ : Graph}

theorem isSome_medium_of_swept (hcov : Covered summaries items g) (h : Swept summaries items g g₁)
    (m : String) :
    ((releaseMediaEdgesBatchCypher items g₁).node (mediumKey m)).isSome ↔
      (∃ item ∈ items, item.medium = m) ∨
        (g.node (mediumKey m)).isSome ∧ ¬ Pruned summaries g m := by
  have hattached : (∃ item ∈ items, mediumKey m = mediumKey item.medium ∨
      mediumKey m = familyKey item.family) ↔ ∃ item ∈ items, item.medium = m := by
    simp [mediumKey, familyKey, eq_comm]
  rw [isSome_node_releaseMediaEdges (h.isSome_release hcov.nodup_ids hcov.isSome), hattached,
    h.isSome_medium]
  generalize (∃ item ∈ items, item.medium = m) = attached
  tauto

theorem issuedQtys_stale_of_swept (hcov : Covered summaries items g) (h : Swept summaries items g g₁)
    {row : SummaryRow} (hrow : row ∈ summaries) {m : String} (hm : m ∉ row.mediumIds) :
    issuedQtys (releaseMediaEdgesBatchCypher items g₁) (releaseKey row.discogsId) (mediumKey m) =
      [] := by
  rw [issuedQtys_releaseMediaEdges_of_ne, h.issuedQtys_stale hrow hm]
  rintro item hitem ⟨hs, hd⟩
  rw [mediumKey_inj.mp hd] at hm
  exact hm (hcov.mem_mediumIds hrow hitem (releaseKey_inj.mp hs))

theorem issuedQtys_settled_of_swept (hcov : Covered summaries items g)
    (h : Swept summaries items g g₁) {item : ReleaseItem} (hitem : item ∈ items) :
    issuedQtys (releaseMediaEdgesBatchCypher items g₁) (releaseKey item.discogsId)
        (mediumKey item.medium) =
      settle item.qty (issuedQtys g (releaseKey item.discogsId) (mediumKey item.medium)) := by
  rw [issuedQtys_releaseMediaEdges_of_mem (h.isSome_release hcov.nodup_ids hcov.isSome)
    hcov.nodup_items hitem, h.issuedQtys]
  intro row hrow m hm hs hd
  rw [← mediumKey_inj.mp hd] at hm
  exact hm (hcov.mem_mediumIds hrow hitem (releaseKey_inj.mp hs).symm)

theorem issuedQtys_kept_of_swept (hcov : Covered summaries items g) (h : Swept summaries items g g₁)
    {s d : NodeKey} (hkept : ∀ row ∈ summaries, s = releaseKey row.discogsId → d.label ≠ .medium) :
    issuedQtys (releaseMediaEdgesBatchCypher items g₁) s d = issuedQtys g s d := by
  rw [issuedQtys_releaseMediaEdges_of_ne, h.issuedQtys]
  · rintro row hrow m _ hs rfl
    exact hkept row hrow hs rfl
  · rintro item hitem ⟨hs, rfl⟩
    obtain ⟨row, hrow, hid, _⟩ := hcov.listed item hitem
    exact hkept row hrow (by rw [hid]; exact hs) rfl

theorem filter_rels_of_swept (h : Swept summaries items g g₁) {P : Edge → Bool}
    (hP : ∀ e, P e = true → e.type ≠ .inFamily ∧
      ∀ id m, mbIssued (releaseKey id) (mediumKey m) e = false) :
    (releaseMediaEdgesBatchCypher items g₁).rels.filter P = g.rels.filter P := by
  rw [filter_rels_releaseMediaEdges_of_disjoint, h.filter_rels fun e hPe => (hP e hPe).1]
  · intro e hPe hstale
    obtain ⟨row, _, m, _, he⟩ := hstale.mbIssued
    rw [(hP e hPe).2] at he
    cases he
  · intro item _ e htype _ _
    exact Bool.eq_false_iff.mpr fun hPe => (hP e hPe).1 htype
  · intro item _ e he
    refine Bool.eq_false_iff.mpr fun hPe => ?_
    rw [(hP e hPe).2] at he
    cases he

/-- The edges statement adds nothing that keeps a medium it does not attach. -/
theorem mem_rels_of_swept (h : Swept summaries items g g₁) {m : String}
    (hm : ∀ item ∈ items, item.medium ≠ m) {e : Edge} (he : Keeps m e) :
    e ∈ (releaseMediaEdgesBatchCypher items g₁).rels ↔ e ∈ g.rels ∧ ¬ Stale summaries e ∧
      ¬ (e.type = .inFamily ∧ ∃ m', Pruned summaries g m' ∧ e.src = mediumKey m') := by
  rw [← h.mem_rels]
  have hfilter : (releaseMediaEdgesBatchCypher items g₁).rels.filter (fun e => decide (Keeps m e)) =
      g₁.rels.filter (fun e => decide (Keeps m e)) := by
    refine filter_rels_releaseMediaEdges_of_disjoint ?_ ?_
    · intro item hitem e htype hsrc hdst
      simp only [decide_eq_false_iff_not, Keeps, PropertyGraph.Rel.Touches, hsrc, hdst]
      simp [hm item hitem, familyKey, mediumKey]
    · intro item hitem e hissued
      simp only [mbIssued, decide_eq_true_eq] at hissued
      simp only [decide_eq_false_iff_not, Keeps, PropertyGraph.Rel.Touches, hissued.2.1,
        hissued.2.2.1]
      simp [hm item hitem, releaseKey, mediumKey]
  have hmem : ∀ g : Graph, e ∈ g.rels ↔ e ∈ g.rels.filter fun e => decide (Keeps m e) := by
    simp [List.mem_filter, he]
  rw [hmem, hfilter, ← hmem]

end Effect

theorem mediaEffect {summaries : List SummaryRow} {items : List ReleaseItem} {g g' : Graph}
    (hcov : Covered summaries items g) (h : reconcileBatch summaries items g = .ok g') :
    MediaEffect summaries items g g' := by
  rcases reconcileBatch_eq_ok h with ⟨rfl, rfl⟩ | ⟨g₁, hswept, rfl⟩
  · exact mediaEffect_of_nil hcov
  · have hswept : Swept summaries items g g₁ := hswept
    have hr := hswept.isSome_release hcov.nodup_ids hcov.isSome
    refine ⟨?_, ?_, ?_, ?_, ?_, ?_, ?_, ?_⟩
    · intro k hm hf
      rw [node_releaseMediaEdges hm hf, hswept.node hcov.nodup_ids hm hf]
    · intro f hf
      rw [isSome_node_releaseMediaEdges hr]
      exact .inr (hswept.isSome_family hf)
    · exact isSome_medium_of_swept hcov hswept
    · exact fun row hrow m hm => issuedQtys_stale_of_swept hcov hswept hrow hm
    · exact fun item hitem => issuedQtys_settled_of_swept hcov hswept hitem
    · exact fun s d hkept => issuedQtys_kept_of_swept hcov hswept hkept
    · exact fun P hP => filter_rels_of_swept hswept hP
    · exact fun m hm e he => mem_rels_of_swept hswept hm he

/-! ## The phase of a release write -/

section Write

variable {rt : Runtime} {gate : Bool} {now : Json} {records : List Dict} {g g₁ g' : Graph}
  {summaries : List SummaryRow} {items : List ReleaseItem}

theorem MediaPlan.summary_mem (hplan : MediaPlan rt gate records g summaries items) {id : String}
    {block : MediaBlock} (h : Reconciles rt gate records g id block) :
    summaryRow rt id block ∈ summaries :=
  (hplan.mem_summaries _).mpr ⟨id, block, h, rfl⟩

theorem MediaPlan.covered (hplan : MediaPlan rt gate records g summaries items)
    (hwrite : NodeWrite rt gate now (releaseSpec rt) records g g₁) :
    Covered summaries items g₁ := by
  refine ⟨?_, hplan.nodup_summaries, hplan.nodup_items, ?_⟩
  · intro item hitem
    obtain ⟨block, ⟨record, n, row, _, hnode, _⟩, _⟩ := (hplan.mem_items item).mp hitem
    rw [hwrite.isSome_node, hnode]
    rfl
  · intro item hitem
    obtain ⟨block, hrec, hrow⟩ := (hplan.mem_items item).mp hitem
    exact ⟨_, hplan.summary_mem hrec, rfl, List.mem_map_of_mem hrow⟩

/-- The effect of a release write: the gated SET, then the media phase it plans. -/
theorem ReleaseWrite.effect (h : ReleaseWrite rt gate now records g g') :
    ∃ g₁ summaries items, NodeWrite rt gate now (releaseSpec rt) records g g₁ ∧
      MediaPlan rt gate records g summaries items ∧ MediaEffect summaries items g₁ g' := by
  obtain ⟨g₁, summaries, items, hwrite, hplan, hmedia⟩ := h
  exact ⟨g₁, summaries, items, hwrite, hplan, mediaEffect (hplan.covered hwrite) hmedia⟩

end Write

end Brainzgraphinator
