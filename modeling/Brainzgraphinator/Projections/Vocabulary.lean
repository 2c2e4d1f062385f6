-- SUMMARY: What holds of the catalog graph in every run of transactions: no orphaned media, no new parallel edges.
import Brainzgraphinator.Projections.Interleavings

/-!
# The catalog over a run

`Vocabulary` says that the media are in order: something keeps every medium, and it is
filed under a family. `NoNewParallels` compares a graph with a later one: where there
was at most one edge there still is, and where there were parallel ones there are no
more of them. Both hold over every run of transactions of all types.
-/

namespace Brainzgraphinator

open PropertyGraph (SameOn)

variable {rt : Runtime} {gate : Bool} {now : Json} {g g₁ g₂ g' : Graph}

/-! ## Transactions by what they write -/

theorem execute_writesReleases {t : Transaction} (htype : t.type = .releases) {tx : Tx} {flags : List Bool}
    (h : t.execute rt gate g = .ok (tx, flags)) : WritesReleases rt gate t.now t.records ⟨g, {}⟩ tx := by
  obtain ⟨type, now, record | records⟩ := t
  · cases htype
    obtain ⟨⟨tx₁, matched⟩, hwrite, h⟩ := Except.bind_eq_ok.mp h
    obtain ⟨tx₂, hrun, hwrite⟩ := Except.bind_eq_ok.mp hwrite
    cases hwrite
    cases h
    exact .inl ⟨record, rfl, hrun⟩
  · cases htype
    exact .inr ⟨flags, h⟩

/-- A transaction of another type than releases does nothing to the relationships but
merge relations. -/
theorem processors_merges {t : EntityType} (ht : t ≠ .releases) {record : Dict} {tx tx' : Tx}
    (h : processors rt gate now t record tx = .ok tx') :
    ∃ g₁ merges, g₁.rels = tx.graph.rels ∧ tx'.graph.rels = (mergeAll merges g₁).rels := by
  cases t with
  | artists =>
    obtain ⟨g₁, merges, hwrite, hgraph, _⟩ := enrichArtist_merges h
    exact ⟨g₁, merges, hwrite.rels, by rw [hgraph]⟩
  | labels =>
    obtain ⟨⟨tx₁, matched⟩, hnode, h⟩ := Except.bind_eq_ok.mp h
    cases h
    exact ⟨tx.graph, [], rfl, (enrichNode_nodeWrite hnode).rels⟩
  | releaseGroups =>
    obtain ⟨⟨tx₁, matched⟩, hnode, h⟩ := Except.bind_eq_ok.mp h
    cases h
    exact ⟨tx.graph, [], rfl, (enrichNode_nodeWrite hnode).rels⟩
  | releases => exact absurd rfl ht

theorem batchProjections_merges {t : EntityType} (ht : t ≠ .releases) {records : List Dict} {tx tx' : Tx}
    {flags : List Bool} (h : batchProjections rt gate now t records tx = .ok (tx', flags)) :
    ∃ g₁ merges, g₁.rels = tx.graph.rels ∧ tx'.graph.rels = (mergeAll merges g₁).rels := by
  cases t with
  | artists =>
    obtain ⟨tx₁, sel, w, hwrite, _, _, hinj, hw, hproject⟩ := enrichArtistsBatch_phases h
    obtain ⟨merges, _, hrels⟩ := projectRelations_merges hw hinj hproject
    exact ⟨tx₁.graph, merges, hwrite.rels, hrels⟩
  | labels =>
    obtain ⟨⟨tx₁, outcomes⟩, hrun, h⟩ := Except.bind_eq_ok.mp h
    cases h
    exact ⟨tx.graph, [], rfl, (runEntityBatch_nodeWrite hrun).rels⟩
  | releaseGroups =>
    obtain ⟨⟨tx₁, outcomes⟩, hrun, h⟩ := Except.bind_eq_ok.mp h
    cases h
    exact ⟨tx.graph, [], rfl, (runEntityBatch_nodeWrite hrun).rels⟩
  | releases => exact absurd rfl ht

theorem execute_merges {t : Transaction} (htype : t.type ≠ .releases) {tx : Tx} {flags : List Bool}
    (h : t.execute rt gate g = .ok (tx, flags)) :
    ∃ g₁ merges, g₁.rels = g.rels ∧ tx.graph.rels = (mergeAll merges g₁).rels := by
  obtain ⟨type, now, record | records⟩ := t
  · obtain ⟨⟨tx₁, matched⟩, hwrite, h⟩ := Except.bind_eq_ok.mp h
    obtain ⟨tx₂, hrun, hwrite⟩ := Except.bind_eq_ok.mp hwrite
    cases hwrite
    cases h
    exact processors_merges htype hrun
  · exact batchProjections_merges htype h

/-- What every committed transaction keeps, a run keeps. -/
theorem catalog_run_keeps {P : Graph → Prop}
    (hstep : ∀ g (t : Transaction) tx flags, P g → t.execute rt gate g = .ok (tx, flags) → P tx.graph)
    (h : P g) (transactions : List Transaction) : P ((catalog rt gate).run g transactions) := by
  refine (catalog rt gate).run_keeps (fun g t h => ?_) h transactions
  change P (commit g (t.execute rt gate g)).1
  cases hexec : t.execute rt gate g with
  | error error => exact h
  | ok r => exact hstep g t r.1 r.2 h hexec

/-! ## The media vocabulary -/

structure Vocabulary (g : Graph) : Prop where
  /-- No medium is filed under a medium. -/
  schema : ∀ e ∈ g.rels, e.type = .inFamily → e.dst.label ≠ .medium
  held : ∀ m, (g.node (mediumKey m)).isSome → ∃ e ∈ g.rels, Keeps m e
  filed : ∀ m, (g.node (mediumKey m)).isSome →
    ∃ e ∈ g.rels, e.type = .inFamily ∧ e.src = mediumKey m ∧ e.dst.label = .mediaFamily

theorem Vocabulary.of_sameOn (h : Vocabulary g) (hsame : SameOn (ownPart (some .releases)) g' g) : Vocabulary g' := by
  have hmem : ∀ e, (ownPart (some .releases)).has e = true → (e ∈ g'.rels ↔ e ∈ g.rels) := by
    intro e he
    have hboth := congrArg (e ∈ ·) hsame.rels
    simpa only [List.mem_filter, he, and_true, eq_iff_iff] using hboth
  have hnode : ∀ m, g'.node (mediumKey m) = g.node (mediumKey m) := fun m => hsame.node (mediumKey m) rfl
  constructor
  · intro e he htype hdst
    have hown : (ownPart (some .releases)).has e = true := has_iff.mpr (relsOwner_of_dst (by rw [hdst]; rfl))
    exact h.schema e ((hmem e hown).mp he) htype hdst
  · intro m hm
    obtain ⟨e, he, hkeeps⟩ := h.held m (by rwa [← hnode])
    exact ⟨e, (hmem e (has_of_touches_medium hkeeps.1)).mpr he, hkeeps⟩
  · intro m hm
    obtain ⟨e, he, htype, hsrc, hdst⟩ := h.filed m (by rwa [← hnode])
    exact ⟨e, (hmem e (has_of_touches_medium (.inl hsrc))).mpr he, htype, hsrc, hdst⟩

section Reconcile

variable {summaries : List SummaryRow} {items : List ReleaseItem}

/-- An edge that keeps a medium is stale or survives the sweep. -/
theorem Vocabulary.keeps_survives (h : Vocabulary g) (heffect : MediaEffect summaries items g g') {m : String}
    (hm : ∀ item ∈ items, item.medium ≠ m) {e : Edge} (he : e ∈ g.rels) (hkeeps : Keeps m e)
    (hstale : ¬Stale summaries e) : e ∈ g'.rels := by
  refine (heffect.keeps m hm e hkeeps).mpr ⟨he, hstale, ?_⟩
  rintro ⟨htype, _⟩
  -- An IN_FAMILY edge that keeps the medium would lead into it.
  have hdst : e.dst = mediumKey m := by
    obtain ⟨htouches, hother⟩ := hkeeps
    rcases hother with hne | hne
    · exact absurd htype hne
    · exact htouches.resolve_left hne
  exact h.schema e he htype (by rw [hdst]; rfl)

/-- A row leaves its medium filed under its family. -/
theorem exists_sameInFamily_mergeItem {item : ReleaseItem} (hr : (g.node (releaseKey item.discogsId)).isSome) :
    ∃ e ∈ (mergeItem g item).rels, sameInFamily item.medium item.family e = true := by
  have hstep := filter_ownFamily_mergeItem (m := item.medium) hr
  have hown : ∀ e, sameInFamily item.medium item.family e = true → ownFamily item.medium e = true := by
    intro e he
    simp only [sameInFamily, decide_eq_true_eq] at he
    exact decide_eq_true ⟨he.1, he.2.1⟩
  by_cases hany : g.rels.any (sameInFamily item.medium item.family) = true
  · rw [if_neg fun hnew => hnew.2 hany] at hstep
    obtain ⟨e, he, hsame⟩ := List.any_eq_true.mp hany
    have hmem : e ∈ (mergeItem g item).rels.filter (ownFamily item.medium) := by
      rw [hstep]
      exact List.mem_filter.mpr ⟨he, hown e hsame⟩
    exact ⟨e, List.mem_of_mem_filter hmem, hsame⟩
  · rw [if_pos ⟨rfl, hany⟩] at hstep
    have hmem : familyEdge item.medium item.family ∈ (mergeItem g item).rels.filter (ownFamily item.medium) := by
      rw [hstep]
      exact List.mem_append_right _ List.mem_cons_self
    exact ⟨_, List.mem_of_mem_filter hmem, by simp [sameInFamily, familyEdge]⟩

theorem exists_sameInFamily_releaseMediaEdges
    (hr : ∀ item ∈ items, (g.node (releaseKey item.discogsId)).isSome) {item : ReleaseItem} (hitem : item ∈ items) :
    ∃ e ∈ (releaseMediaEdgesBatchCypher items g).rels, sameInFamily item.medium item.family e = true := by
  induction items generalizing g with
  | nil => cases hitem
  | cons first items ih =>
    have hr' : ∀ i ∈ items, ((mergeItem g first).node (releaseKey i.discogsId)).isSome :=
      fun i hi => isSome_release_mergeItem (hr i (List.mem_cons_of_mem _ hi))
    rcases List.mem_cons.mp hitem with rfl | hitem
    · obtain ⟨e, he, hsame⟩ := exists_sameInFamily_mergeItem (hr item List.mem_cons_self)
      have hown : ownFamily item.medium e = true := by
        simp only [sameInFamily, decide_eq_true_eq] at hsame
        exact decide_eq_true ⟨hsame.1, hsame.2.1⟩
      have hlater := (sublist_filter_ownFamily hr').subset (List.mem_filter.mpr ⟨he, hown⟩)
      exact ⟨e, List.mem_of_mem_filter hlater, hsame⟩
    · exact ih hr' hitem

/-- The media phase leaves the vocabulary in order. -/
theorem Vocabulary.reconcile (h : Vocabulary g) (hcov : Covered summaries items g)
    (hmedia : reconcileBatch summaries items g = .ok g') : Vocabulary g' := by
  have heffect := mediaEffect hcov hmedia
  rcases reconcileBatch_eq_ok hmedia with ⟨_, rfl⟩ | ⟨g₁, hswept, rfl⟩
  · exact h
  have hswept : Swept summaries items g g₁ := hswept
  have hr := hswept.isSome_release hcov.nodup_ids hcov.isSome
  constructor
  · intro e he htype hdst
    -- Neither kind of edge the rows merge is an IN_FAMILY edge into a medium.
    have hfilter : (releaseMediaEdgesBatchCypher items g₁).rels.filter
          (fun e => decide (e.type = .inFamily ∧ e.dst.label = .medium)) =
        g₁.rels.filter fun e => decide (e.type = .inFamily ∧ e.dst.label = .medium) := by
      refine filter_rels_releaseMediaEdges_of_disjoint ?_ ?_
      · intro item _ e _ _ hfamily
        simp [hfamily, familyKey]
      · intro item _ e hissued
        simp only [mbIssued, decide_eq_true_eq] at hissued
        simp [hissued.1]
    have hmem : e ∈ g₁.rels := by
      refine List.mem_of_mem_filter (p := fun e => decide (e.type = .inFamily ∧ e.dst.label = .medium)) ?_
      rw [← hfilter]
      exact List.mem_filter.mpr ⟨he, decide_eq_true ⟨htype, hdst⟩⟩
    exact h.schema e ((hswept.mem_rels e).mp hmem).1 htype hdst
  · intro m hm
    by_cases hitem : ∃ item ∈ items, item.medium = m
    · obtain ⟨item, hitem, rfl⟩ := hitem
      have hsettled := heffect.settled item hitem
      have hne : issuedQtys (releaseMediaEdgesBatchCypher items g₁) (releaseKey item.discogsId)
          (mediumKey item.medium) ≠ [] := by
        intro hnil
        have hlength := congrArg List.length hsettled
        rw [hnil, length_settle, List.length_nil] at hlength
        omega
      obtain ⟨e, he, hissued⟩ := issuedQtys_ne_nil.mp hne
      simp only [mbIssued, decide_eq_true_eq] at hissued
      exact ⟨e, he, keeps_of_issuedOn hissued.1 hissued.2.2.1⟩
    · have hnone : ∀ item ∈ items, item.medium ≠ m := fun item hi heq => hitem ⟨item, hi, heq⟩
      obtain ⟨hsome, hnot⟩ := ((heffect.medium m).mp hm).resolve_left hitem
      obtain ⟨e, he, hkeeps⟩ := h.held m hsome
      by_cases hstale : Stale summaries e
      · -- The medium lost an edge and was not pruned, so another one keeps it.
        have hlost : ∃ e ∈ g.rels, Stale summaries e ∧ e.dst = mediumKey m := by
          refine ⟨e, he, hstale, hkeeps.1.resolve_left fun hsrc => ?_⟩
          obtain ⟨row, _, _, _, hissued⟩ := hstale.mbIssued
          simp only [mbIssued, decide_eq_true_eq] at hissued
          have hlabel := congrArg NodeKey.label (hsrc.symm.trans hissued.2.1)
          cases hlabel
        have hother : ∃ e ∈ g.rels, Keeps m e ∧ ¬Stale summaries e := by
          by_contra hall
          refine hnot ⟨hlost, fun e he hkeeps => ?_⟩
          by_contra hstale
          exact hall ⟨e, he, hkeeps, hstale⟩
        obtain ⟨e', he', hkeeps', hstale'⟩ := hother
        exact ⟨e', h.keeps_survives heffect hnone he' hkeeps' hstale', hkeeps'⟩
      · exact ⟨e, h.keeps_survives heffect hnone he hkeeps hstale, hkeeps⟩
  · intro m hm
    by_cases hitem : ∃ item ∈ items, item.medium = m
    · obtain ⟨item, hitem, rfl⟩ := hitem
      obtain ⟨e, he, hsame⟩ := exists_sameInFamily_releaseMediaEdges hr hitem
      simp only [sameInFamily, decide_eq_true_eq] at hsame
      exact ⟨e, he, hsame.1, hsame.2.1, by rw [hsame.2.2]; rfl⟩
    · obtain ⟨hsome, hnot⟩ := ((heffect.medium m).mp hm).resolve_left hitem
      obtain ⟨e, he, htype, hsrc, hdst⟩ := h.filed m hsome
      have hown : e ∈ g₁.rels.filter (ownFamily m) := by
        rw [hswept.filter_ownFamily hnot]
        exact List.mem_filter.mpr ⟨he, decide_eq_true ⟨htype, hsrc⟩⟩
      exact ⟨e, List.mem_of_mem_filter ((sublist_filter_ownFamily hr).subset hown), htype, hsrc, hdst⟩

end Reconcile

/-- A gated write changes no medium and no relationship. -/
theorem Vocabulary.nodeWrite {records : List Dict} (h : Vocabulary g)
    (hwrite : NodeWrite rt gate now (releaseSpec rt) records g g₁) : Vocabulary g₁ := by
  constructor
  · rw [hwrite.rels]
    exact h.schema
  · intro m hm
    rw [hwrite.isSome_node] at hm
    rw [hwrite.rels]
    exact h.held m hm
  · intro m hm
    rw [hwrite.isSome_node] at hm
    rw [hwrite.rels]
    exact h.filed m hm

/-- However the four types write, no medium is ever left without anything that keeps it,
or without its family. -/
theorem run_vocabulary (h : Vocabulary g) (transactions : List Transaction) :
    Vocabulary ((catalog rt gate).run g transactions) := by
  refine catalog_run_keeps (fun g t tx flags h hexec => ?_) h transactions
  by_cases htype : t.type = .releases
  · have hwrites := execute_writesReleases htype hexec
    obtain ⟨g₁, summaries, items, hwrite, hplan, hmedia⟩ := hwrites.releaseWrite
    exact (h.nodeWrite hwrite).reconcile (hplan.covered hwrite) hmedia
  · have hforeign : some t.type ≠ some .releases := fun heq => htype (Option.some.inj heq)
    exact h.of_sameOn (execute_outside hforeign hexec)

theorem run_vocabulary_opticalDisc :
    Vocabulary ((catalog plainRuntime true).run opticalDisc
      [⟨.releases, .str "first", .batch [noMediaRecord, discRecord]⟩,
        ⟨.artists, .str "second", .batch [[("discogs_artist_id", .int 1)]]⟩,
        ⟨.releases, .str "third", .message mediaRecord⟩]) := by
  refine run_vocabulary ⟨?_, ?_, ?_⟩ _
  · intro e he htype
    simp only [opticalDisc, List.mem_cons, List.not_mem_nil, or_false] at he
    rcases he with rfl | rfl
    · cases htype
    · simp [familyKey]
  · intro m hm
    obtain rfl : m = "cd" := by simpa [opticalDisc, mediumKey, releaseKey, familyKey] using hm
    exact ⟨_, List.mem_cons_self, keeps_of_issuedOn rfl rfl⟩
  · intro m hm
    obtain rfl : m = "cd" := by simpa [opticalDisc, mediumKey, releaseKey, familyKey] using hm
    exact ⟨_, List.mem_cons_of_mem _ List.mem_cons_self, rfl, rfl, rfl⟩

/-! ## Parallel edges -/

/-- The edges that a MERGE of the service does not tell apart. -/
inductive MergeClass : (Edge → Bool) → Prop
  | relation (type : RelType) (row : RelationRow) : MergeClass (sameRelation type row)
  | family (medium family : String) : MergeClass (sameInFamily medium family)
  | issued (id medium : String) : MergeClass (sameIssuedOn id medium)

/-- No more parallel edges than before, and at most one where there was none. -/
def NoMore (P : Edge → Bool) (g g' : Graph) : Prop :=
  (g'.rels.filter P).length ≤ max 1 (g.rels.filter P).length

def NoNewParallels (g g' : Graph) : Prop := ∀ P, MergeClass P → NoMore P g g'

section NoMore

variable {P : Edge → Bool}

theorem NoMore.of_filter_eq (h : g'.rels.filter P = g.rels.filter P) : NoMore P g g' := by
  rw [NoMore, h]
  exact Nat.le_max_right _ _

theorem NoMore.of_sublist (h : g'.rels.Sublist g.rels) : NoMore P g g' :=
  (h.filter P).length_le.trans (Nat.le_max_right _ _)

theorem NoMore.trans (h : NoMore P g g₁) (h' : NoMore P g₁ g') : NoMore P g g' :=
  Nat.le_trans h' (max_le (Nat.le_max_left _ _) h)

theorem NoMore.foldl {β : Type*} {step : Graph → β → Graph} (hstep : ∀ g x, NoMore P g (step g x)) (xs : List β)
    (g : Graph) : NoMore P g (xs.foldl step g) := by
  induction xs generalizing g with
  | nil => exact .of_filter_eq rfl
  | cons x xs ih => exact (hstep g x).trans (ih (step g x))

theorem noMore_mergeRelation (hP : MergeClass P) (type : RelType) (g : Graph) (row : RelationRow) :
    NoMore P g (mergeRelation type g row) := by
  rw [mergeRelation]
  split
  · cases hP with
    | relation type' row' =>
      refine PropertyGraph.Graph.length_filter_mergeRel_le (fun e => rfl) (fun hfresh e he => ?_) g
      rw [sameRelation_iff] at hfresh he ⊢
      exact ⟨he.1.trans hfresh.1.symm, he.2.1.trans hfresh.2.1.symm, he.2.2.trans hfresh.2.2.symm⟩
    | family medium family =>
      refine .of_filter_eq (PropertyGraph.Graph.filter_mergeRel_of_disjoint (fun e he => ?_) ?_ g)
      · rw [sameRelation_iff] at he
        simp [sameInFamily, he.2.1, artistKey, mediumKey]
      · simp [sameInFamily, artistKey, mediumKey]
    | issued id medium =>
      refine .of_filter_eq (PropertyGraph.Graph.filter_mergeRel_of_disjoint (fun e he => ?_) ?_ g)
      · rw [sameRelation_iff] at he
        simp [sameIssuedOn, he.2.1, artistKey, releaseKey]
      · simp [sameIssuedOn, artistKey, releaseKey]
  · exact .of_filter_eq rfl

theorem noMore_mergeItem (hP : MergeClass P) (g : Graph) (item : ReleaseItem) : NoMore P g (mergeItem g item) := by
  cases hP with
  | relation type row =>
    refine .of_filter_eq (filter_rels_mergeItem_of_disjoint (fun e _ hsrc _ => ?_) fun e he => ?_)
    · simp [sameRelation, hsrc, artistKey, mediumKey]
    · simp only [mbIssued, decide_eq_true_eq] at he
      simp [sameRelation, he.2.1, artistKey, releaseKey]
  | family medium family =>
    rw [mergeItem]
    split
    · refine NoMore.trans ?_ (.of_filter_eq (PropertyGraph.Graph.filter_mergeRel_of_disjoint (fun e he => ?_) ?_ _))
      · refine PropertyGraph.Graph.length_filter_mergeRel_le (fun e => rfl) (fun hfresh e he => ?_) _
        simp only [sameInFamily, decide_eq_true_eq] at hfresh he ⊢
        exact ⟨he.1, he.2.1.trans hfresh.2.1.symm, he.2.2.trans hfresh.2.2.symm⟩
      · simp only [sameIssuedOn, decide_eq_true_eq] at he
        simp [sameInFamily, he.1]
      · simp [sameInFamily]
    · exact .of_filter_eq rfl
  | issued id medium =>
    rw [mergeItem]
    split
    · dsimp only
      refine NoMore.trans (.of_filter_eq (PropertyGraph.Graph.filter_mergeRel_of_disjoint (fun e he => ?_) ?_
        ((g.mergeNode _ _).mergeNode _ _)))
        (PropertyGraph.Graph.length_filter_mergeRel_le (fun e => ?_) (fun hfresh e he => ?_) _)
      · simp only [sameInFamily, decide_eq_true_eq] at he
        simp [sameIssuedOn, he.1]
      · simp [sameIssuedOn]
      · simp [sameIssuedOn]
      · simp only [sameIssuedOn, decide_eq_true_eq] at hfresh he ⊢
        exact ⟨he.1, he.2.1.trans hfresh.2.1.symm, he.2.2.1.trans hfresh.2.2.1.symm, he.2.2.2⟩
    · exact .of_filter_eq rfl

/-- The sweep only deletes. -/
theorem sublist_releaseMediaSummaryBatch {rows : List SummaryRow}
    (h : releaseMediaSummaryBatchCypher rows g = .ok g') : g'.rels.Sublist g.rels := by
  obtain ⟨hrels, _⟩ := pruneOrphanMedium_eq_ok h
  rw [hrels, PropertyGraph.Graph.rels_deleteRels, PropertyGraph.Graph.rels_foldl_update]
  exact List.filter_sublist.trans List.filter_sublist

theorem noMore_reconcileBatch (hP : MergeClass P) {summaries : List SummaryRow} {items : List ReleaseItem}
    (h : reconcileBatch summaries items g = .ok g') : NoMore P g g' := by
  rcases reconcileBatch_eq_ok h with ⟨_, rfl⟩ | ⟨g₁, hsummary, rfl⟩
  · exact .of_filter_eq rfl
  · have hswept := sublist_releaseMediaSummaryBatch hsummary
    rw [rels_lockMediaInOrder] at hswept
    exact (NoMore.of_sublist hswept).trans (.foldl (noMore_mergeItem hP) items g₁)

end NoMore

theorem execute_noNewParallels {t : Transaction} {tx : Tx} {flags : List Bool}
    (h : t.execute rt gate g = .ok (tx, flags)) : NoNewParallels g tx.graph := by
  intro P hP
  by_cases htype : t.type = .releases
  · have hwrites := execute_writesReleases htype h
    obtain ⟨g₁, summaries, items, hwrite, _, hmedia⟩ := hwrites.releaseWrite
    exact (NoMore.of_filter_eq (by rw [hwrite.rels])).trans (noMore_reconcileBatch hP hmedia)
  · obtain ⟨g₁, merges, hrels, hmerged⟩ := execute_merges htype h
    have hmerge : ∀ (g : Graph) (m : RelType × RelationRow), NoMore P g (mergeRelation m.1 g m.2) :=
      fun g m => noMore_mergeRelation hP m.1 g m.2
    have hmerges : NoMore P g₁ (mergeAll merges g₁) := .foldl hmerge merges g₁
    rw [NoMore, hmerged, ← hrels]
    exact hmerges

/-- No run of any transactions adds a parallel edge. -/
theorem run_noNewParallels (g : Graph) (transactions : List Transaction) :
    NoNewParallels g ((catalog rt gate).run g transactions) := by
  refine catalog_run_keeps (P := NoNewParallels g) (fun g₁ t tx flags h hexec P hP => ?_)
    (fun P _ => .of_filter_eq rfl) transactions
  exact (h P hP).trans (execute_noNewParallels hexec P hP)

end Brainzgraphinator
