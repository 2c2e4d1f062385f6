-- SUMMARY: Transactions of different entity types do not interfere, in whatever order they commit.
import Brainzgraphinator.Base.GraphViews
import Brainzgraphinator.Base.Unwinding
import Brainzgraphinator.Projections.EntityTypes

/-!
# The entity types apart

Four consumers write the catalog graph side by side, a flush of theirs in one
transaction or record by record. Every node belongs to one type or to none, and so does
every relationship: releases own all that touch a release, a medium or a media family.

A transaction reads and writes nothing but what its type owns. So the order in which the
transactions of different types commit makes no difference to any of them, nor to the
graph they leave.
-/

namespace Brainzgraphinator

open PropertyGraph (SameOn)

/-! ## Who owns what -/

/-- The type whose projections maintain the nodes with this label. -/
def NodeLabel.owner : NodeLabel → Option EntityType
  | .artist => some .artists
  | .label => some .labels
  | .master => some .releaseGroups
  | .release | .medium | .mediaFamily => some .releases
  | .other _ => none

/-- Releases own every relationship at a node of theirs, another type those between its own. -/
def relsOwner (a b : Option EntityType) : Option EntityType :=
  if a = some .releases ∨ b = some .releases then some .releases
  else if a = b then a else none

/-- What the type owns of the graph; `none` owns what no type does. -/
def ownPart (d : Option EntityType) : PropertyGraph.Part NodeKey where
  nodes k := k.label.owner = d
  rels a b := relsOwner a.label.owner b.label.owner = d

section Owners

variable {d : Option EntityType} {e : Edge}

theorem relsOwner_self (a : Option EntityType) : relsOwner a a = a := by
  unfold relsOwner
  split
  · rename_i h
    exact (or_self_iff.mp h).symm
  · exact if_pos rfl

theorem has_iff : (ownPart d).has e = true ↔ relsOwner e.src.label.owner e.dst.label.owner = d :=
  decide_eq_true_iff

theorem not_has_of_ne {t : Option EntityType} (h : relsOwner e.src.label.owner e.dst.label.owner = t) (hd : t ≠ d) :
    (ownPart d).has e = false :=
  decide_eq_false fun heq => hd (h.symm.trans heq)

theorem relsOwner_of_src (h : e.src.label.owner = some .releases) :
    relsOwner e.src.label.owner e.dst.label.owner = some .releases := if_pos (.inl h)

theorem relsOwner_of_dst (h : e.dst.label.owner = some .releases) :
    relsOwner e.src.label.owner e.dst.label.owner = some .releases := if_pos (.inr h)

theorem relsOwner_of_isStale {row : SummaryRow} (h : isStale row e = true) :
    relsOwner e.src.label.owner e.dst.label.owner = some .releases := by
  simp only [isStale, issuedBy, Bool.and_eq_true, decide_eq_true_eq] at h
  refine relsOwner_of_src ?_
  rw [h.1.2.1]
  rfl

theorem relsOwner_of_sameRelation {type : RelType} {row : RelationRow} (h : sameRelation type row e = true) :
    relsOwner e.src.label.owner e.dst.label.owner = some .artists := by
  simp only [sameRelation, decide_eq_true_eq] at h
  rw [h.2.1, h.2.2]
  rfl

theorem relsOwner_of_sameInFamily {medium family : String} (h : sameInFamily medium family e = true) :
    relsOwner e.src.label.owner e.dst.label.owner = some .releases := by
  simp only [sameInFamily, decide_eq_true_eq] at h
  refine relsOwner_of_src ?_
  rw [h.2.1]
  rfl

theorem relsOwner_of_sameIssuedOn {id medium : String} (h : sameIssuedOn id medium e = true) :
    relsOwner e.src.label.owner e.dst.label.owner = some .releases := by
  simp only [sameIssuedOn, decide_eq_true_eq] at h
  refine relsOwner_of_src ?_
  rw [h.2.1]
  rfl

end Owners

/-! ## The gated write -/

section Gated

variable {rt : Runtime} {gate : Bool} {now : Json} {d : Option EntityType} {g g' : Graph} {tx tx' : Tx}

/-- Two transactions that saw the same of the part, with the same counters. -/
structure SameTx (d : Option EntityType) (tx tx' : Tx) : Prop where
  graph : SameOn (ownPart d) tx.graph tx'.graph
  stats : tx.stats = tx'.stats

theorem gatedCypher_agree {kind : NodeLabel} (hkind : kind.owner = d) (fields : Fields) (rows : List EntityRow)
    (h : SameOn (ownPart d) g g') :
    Except.Agree (fun r r' => SameOn (ownPart d) r.1 r'.1 ∧ r.2 = r'.2) (gatedCypher rt gate kind fields now rows g)
      (gatedCypher rt gate kind fields now rows g') := by
  have hmatched : (rows.filterMap fun row => (g.node ⟨kind, row.discogsId⟩).map fun n => (row, n)) =
      rows.filterMap fun row => (g'.node ⟨kind, row.discogsId⟩).map fun n => (row, n) := by
    simp only [fun id : String => h.node ⟨kind, id⟩ hkind]
  unfold gatedCypher
  rw [hmatched]
  dsimp only
  split
  · have hstep : ∀ (g g' : Graph) (m : EntityRow × Props), SameOn (ownPart d) g g' → SameOn (ownPart d)
        (g.update ⟨kind, m.1.discogsId⟩ (writeRow fields now m.1))
        (g'.update ⟨kind, m.1.discogsId⟩ (writeRow fields now m.1)) :=
      fun _ _ m h => h.update _ (writeRow fields now m.1)
    exact .ok ⟨.foldl hstep _ h, rfl⟩
  · exact .error _

theorem gatedCypher_outside {kind : NodeLabel} (hkind : kind.owner ≠ d) {fields : Fields} {rows : List EntityRow}
    {r : Graph × List GatedResult} (h : gatedCypher rt gate kind fields now rows g = .ok r) :
    SameOn (ownPart d) r.1 g := by
  unfold gatedCypher at h
  dsimp only at h
  split at h
  · cases h
    exact .foldl_outside (fun g m => .update_outside hkind _ g) _ g
  · cases h

theorem enrichNode_agree (spec : EntitySpec) (hkind : spec.kind.owner = d) (record : Dict) (h : SameTx d tx tx') :
    Except.Agree (fun r r' => SameTx d r.1 r'.1 ∧ r.2 = r'.2) (enrichNode rt gate now spec record tx)
      (enrichNode rt gate now spec record tx') := by
  unfold enrichNode
  rw [h.stats]
  split
  · exact .ok ⟨⟨h.graph, rfl⟩, rfl⟩
  · refine (Except.Agree.refl _).bind fun row row' hrow => ?_
    subst hrow
    refine (gatedCypher_agree hkind _ _ h.graph).bind ?_
    rintro ⟨g, results⟩ ⟨g', _⟩ ⟨hgraph, rfl⟩
    exact .ok ⟨⟨hgraph, rfl⟩, rfl⟩

theorem enrichNode_outside (spec : EntitySpec) (hkind : spec.kind.owner ≠ d) {record : Dict}
    {r : Tx × Option (String × Bool)} (h : enrichNode rt gate now spec record tx = .ok r) :
    SameOn (ownPart d) r.1.graph tx.graph := by
  unfold enrichNode at h
  split at h
  · cases h
    exact .refl _
  · obtain ⟨row, _, h⟩ := Except.bind_eq_ok.mp h
    obtain ⟨⟨g, results⟩, hgated, h⟩ := Except.bind_eq_ok.mp h
    cases h
    exact gatedCypher_outside hkind hgated

theorem runEntityBatch_agree (spec : EntitySpec) (hkind : spec.kind.owner = d) (relations : Bool)
    (records : List Dict) (h : SameTx d tx tx') :
    Except.Agree (fun r r' => SameTx d r.1 r'.1 ∧ r.2 = r'.2) (runEntityBatch rt gate now spec relations records tx)
      (runEntityBatch rt gate now spec relations records tx') := by
  unfold runEntityBatch
  rw [h.stats]
  refine (Except.Agree.refl _).bind fun rows rows' hrows => ?_
  subst hrows
  refine (gatedCypher_agree hkind _ _ h.graph).bind ?_
  rintro ⟨g, results⟩ ⟨g', _⟩ ⟨hgraph, rfl⟩
  exact .ok ⟨⟨hgraph, rfl⟩, rfl⟩

theorem runEntityBatch_outside (spec : EntitySpec) (hkind : spec.kind.owner ≠ d) {relations : Bool}
    {records : List Dict} {r : Tx × List Outcome}
    (h : runEntityBatch rt gate now spec relations records tx = .ok r) :
    SameOn (ownPart d) r.1.graph tx.graph := by
  obtain ⟨rows, _, h⟩ := Except.bind_eq_ok.mp h
  obtain ⟨⟨g, results⟩, hgated, h⟩ := Except.bind_eq_ok.mp h
  cases h
  exact gatedCypher_outside hkind hgated

end Gated

/-! ## Relations -/

section Relations

variable {rt : Runtime} {gate : Bool} {d : Option EntityType} {type : RelType} {row : RelationRow}
  {g g' : Graph}

theorem has_of_sameRelation {e : Edge} (h : sameRelation type row e = true) :
    (ownPart (some .artists)).has e = true := has_iff.mpr (relsOwner_of_sameRelation h)

theorem bothSides_agree (h : SameOn (ownPart (some .artists)) g g') : bothSides g row = bothSides g' row := by
  have hartist : ∀ id, g.node (artistKey id) = g'.node (artistKey id) := fun id => h.node (artistKey id) rfl
  rw [bothSides, bothSides, hartist, hartist]

theorem mergeRelation_agree (h : SameOn (ownPart (some .artists)) g g') :
    SameOn (ownPart (some .artists)) (mergeRelation type g row) (mergeRelation type g' row) := by
  rw [mergeRelation, mergeRelation, bothSides_agree h]
  split
  · have hends : ∀ id, (ownPart (some .artists)).nodes (artistKey id) := fun _ => rfl
    exact h.mergeRel (fun _ => has_of_sameRelation) (hends row.sourceId) (hends row.targetId) _
  · exact h

theorem mergeRelation_outside (hd : d ≠ some .artists) (g : Graph) :
    SameOn (ownPart d) (mergeRelation type g row) g := by
  rw [mergeRelation]
  split
  · exact .mergeRel_outside (fun e he => not_has_of_ne (relsOwner_of_sameRelation he) hd.symm)
      (not_has_of_ne (relsOwner_self _) hd.symm) _ g
  · exact .refl g

theorem filter_sameRelation_agree (h : SameOn (ownPart (some .artists)) g g') :
    g.rels.filter (sameRelation type row) = g'.rels.filter (sameRelation type row) :=
  h.filter_eq fun _ => has_of_sameRelation

theorem matchedRows_agree (h : SameOn (ownPart (some .artists)) g g') :
    matchedRows type g row = matchedRows type g' row := by
  rw [matchedRows, matchedRows, bothSides_agree h, filter_sameRelation_agree h]

theorem createdRels_agree (h : SameOn (ownPart (some .artists)) g g') :
    createdRels type g row = createdRels type g' row := by
  rw [createdRels, createdRels, bothSides_agree h, filter_sameRelation_agree h]

/-! ### One record -/

theorem createRelationshipEdge_agree {owner : String} (relation : Json) {tx tx' : Tx}
    (h : SameTx (some .artists) tx tx') :
    Except.Agree (SameTx (some .artists)) (createRelationshipEdge rt owner tx relation)
      (createRelationshipEdge rt owner tx' relation) := by
  refine (Except.Agree.refl _).bind ?_
  rintro planned _ rfl
  rcases planned with _ | ⟨type, _ | row⟩
  · exact .ok h
  · exact .ok ⟨h.graph, by rw [h.stats]⟩
  · refine .ok ⟨mergeRelation_agree h.graph, ?_⟩
    dsimp only
    rw [createdRels_agree h.graph, matchedRows_agree h.graph, h.stats]

theorem createRelationshipEdges_agree {owner : String} (relations : List Json) {tx tx' : Tx}
    (h : SameTx (some .artists) tx tx') :
    Except.Agree (SameTx (some .artists)) (createRelationshipEdges rt owner relations tx)
      (createRelationshipEdges rt owner relations tx') :=
  .foldlM (fun _ _ relation h => createRelationshipEdge_agree relation h) relations h

theorem createRelationshipEdge_outside (hd : d ≠ some .artists) {owner : String} {relation : Json} {tx tx' : Tx}
    (h : createRelationshipEdge rt owner tx relation = .ok tx') : SameOn (ownPart d) tx'.graph tx.graph := by
  obtain ⟨planned, _, h⟩ := Except.bind_eq_ok.mp h
  rcases planned with _ | ⟨type, _ | row⟩
  · cases h
    exact .refl _
  · cases h
    exact .refl _
  · cases h
    exact mergeRelation_outside hd _

theorem createRelationshipEdges_outside (hd : d ≠ some .artists) {owner : String} {relations : List Json}
    {tx tx' : Tx} (h : createRelationshipEdges rt owner relations tx = .ok tx') :
    SameOn (ownPart d) tx'.graph tx.graph := by
  unfold createRelationshipEdges at h
  induction relations generalizing tx with
  | nil =>
    cases h
    exact .refl _
  | cons relation relations ih =>
    rw [List.foldlM_cons] at h
    obtain ⟨tx₁, hedge, h⟩ := Except.bind_eq_ok.mp h
    exact (ih h).trans (createRelationshipEdge_outside hd hedge)

/-! ### Many records -/

/-- The statement over the rows of one edge type: the same rows, the same counts. -/
theorem relationBatchCypher_agree (type : RelType) (rows : List RelationRow) (h : SameOn (ownPart (some .artists)) g g') :
    SameOn (ownPart (some .artists)) (relationBatchCypher type rows g).graph (relationBatchCypher type rows g').graph ∧
      (relationBatchCypher type rows g).matched = (relationBatchCypher type rows g').matched ∧
      (relationBatchCypher type rows g).created = (relationBatchCypher type rows g').created := by
  suffices hfold : ∀ b b' : RelationBatch, SameOn (ownPart (some .artists)) b.graph b'.graph →
      b.matched = b'.matched → b.created = b'.created →
      SameOn (ownPart (some .artists)) (rows.foldl (RelationBatch.add type) b).graph
          (rows.foldl (RelationBatch.add type) b').graph ∧
        (rows.foldl (RelationBatch.add type) b).matched = (rows.foldl (RelationBatch.add type) b').matched ∧
        (rows.foldl (RelationBatch.add type) b).created = (rows.foldl (RelationBatch.add type) b').created from
    hfold _ _ h rfl rfl
  induction rows with
  | nil => exact fun b b' hgraph hmatched hcreated => ⟨hgraph, hmatched, hcreated⟩
  | cons row rows ih =>
    intro b b' hgraph hmatched hcreated
    refine ih _ _ (mergeRelation_agree hgraph) ?_ ?_
    · rw [RelationBatch.add, RelationBatch.add]
      dsimp only
      rw [bothSides_agree hgraph, matchedRows_agree hgraph, hmatched]
    · rw [RelationBatch.add, RelationBatch.add]
      dsimp only
      rw [createdRels_agree hgraph, hcreated]

theorem relationBatchCypher_outside (hd : d ≠ some .artists) (rows : List RelationRow) (g : Graph) :
    SameOn (ownPart d) (relationBatchCypher type rows g).graph g := by
  suffices hfold : ∀ b : RelationBatch,
      SameOn (ownPart d) (rows.foldl (RelationBatch.add type) b).graph b.graph from hfold _
  induction rows with
  | nil => exact fun b => .refl _
  | cons row rows ih => exact fun b => (ih _).trans (mergeRelation_outside hd _)

structure SameProgress (p p' : RelationProgress) : Prop where
  tx : SameTx (some .artists) p.tx p'.tx
  projected : p.projected = p'.projected

theorem addType_agree {p p' : RelationProgress} (h : SameProgress p p') (group : RelType × List RelationRow) :
    SameProgress (p.addType group) (p'.addType group) := by
  obtain ⟨hgraph, hmatched, hcreated⟩ := relationBatchCypher_agree group.1 group.2 h.tx.graph
  refine ⟨⟨hgraph, ?_⟩, ?_⟩
  · simp only [RelationProgress.addType, hmatched, hcreated, h.tx.stats]
  · simp only [RelationProgress.addType, hmatched, h.projected]

theorem foldl_addType_agree {p p' : RelationProgress} (h : SameProgress p p')
    (groups : List (RelType × List RelationRow)) :
    SameProgress (groups.foldl RelationProgress.addType p) (groups.foldl RelationProgress.addType p') := by
  induction groups generalizing p p' with
  | nil => exact h
  | cons group groups ih => exact ih (addType_agree h group)

theorem foldl_addType_outside (hd : d ≠ some .artists) (groups : List (RelType × List RelationRow))
    (p : RelationProgress) : SameOn (ownPart d) (groups.foldl RelationProgress.addType p).tx.graph p.tx.graph := by
  induction groups generalizing p with
  | nil => exact .refl _
  | cons group groups ih => exact (ih _).trans (relationBatchCypher_outside hd group.2 p.tx.graph)

theorem storeRelationsHashCypher_agree (rows : List (String × Json)) (h : SameOn (ownPart d) g g') :
    SameOn (ownPart d) (storeRelationsHashCypher rows g) (storeRelationsHashCypher rows g') :=
  .foldl (fun _ _ row h => h.update (artistKey row.1) fun n => Function.update n "mb_relations_hash" row.2) rows h

theorem storeRelationsHashCypher_outside (hd : d ≠ some .artists) (rows : List (String × Json)) (g : Graph) :
    SameOn (ownPart d) (storeRelationsHashCypher rows g) g := by
  have hartist : ∀ id, ¬(ownPart d).nodes (artistKey id) := fun _ howner => hd (Eq.symm howner)
  have hstep : ∀ (g : Graph) (row : String × Json), SameOn (ownPart d)
      (g.update (artistKey row.1) fun n => Function.update n "mb_relations_hash" row.2) g :=
    fun g row => .update_outside (hartist row.1) _ g
  exact .foldl_outside hstep rows g

theorem projectRelations_agree (w : RelationWork) {tx tx' : Tx} (h : SameTx (some .artists) tx tx') :
    Except.Agree (SameTx (some .artists)) (projectRelations rt w tx) (projectRelations rt w tx') := by
  unfold projectRelations
  split
  · exact .ok h
  · refine Except.Agree.bind (R := fun r r' => SameTx (some .artists) r.1 r'.1 ∧ r.2 = r'.2) ?_ ?_
    · refine (Except.Agree.refl _).bind ?_
      rintro plan _ rfl
      have hstart : SameProgress
          { tx := { tx with stats := { tx.stats with
              relationshipsSkippedMissingSide := tx.stats.relationshipsSkippedMissingSide + plan.skipped } } }
          { tx := { tx' with stats := { tx'.stats with
              relationshipsSkippedMissingSide := tx'.stats.relationshipsSkippedMissingSide + plan.skipped } } } :=
        ⟨⟨h.graph, by rw [h.stats]⟩, rfl⟩
      have hdone := foldl_addType_agree hstart plan.byType
      exact .ok ⟨hdone.tx, by rw [hdone.projected]⟩
    · rintro ⟨tx₁, complete⟩ ⟨tx₁', _⟩ ⟨htx, rfl⟩
      exact .ok ⟨storeRelationsHashCypher_agree _ htx.graph, htx.stats⟩

theorem projectRelations_outside (hd : d ≠ some .artists) {w : RelationWork} {tx tx' : Tx}
    (h : projectRelations rt w tx = .ok tx') : SameOn (ownPart d) tx'.graph tx.graph := by
  unfold projectRelations at h
  split at h
  · cases h
    exact .refl _
  · obtain ⟨⟨tx₁, complete⟩, hedges, h⟩ := Except.bind_eq_ok.mp h
    obtain ⟨plan, _, hedges⟩ := Except.bind_eq_ok.mp hedges
    cases h
    cases hedges
    exact (storeRelationsHashCypher_outside hd _ _).trans (foldl_addType_outside hd plan.byType _)

end Relations

/-! ## Media -/

section Media

variable {rt : Runtime} {d : Option EntityType} {g g' : Graph}

theorem has_of_touches_medium {m : String} {e : Edge} (h : e.Touches (mediumKey m)) :
    (ownPart (some .releases)).has e = true := by
  refine has_iff.mpr ?_
  rcases h with h | h
  · exact relsOwner_of_src (by rw [h]; rfl)
  · exact relsOwner_of_dst (by rw [h]; rfl)

theorem has_of_isStale {row : SummaryRow} {e : Edge} (h : isStale row e = true) :
    (ownPart (some .releases)).has e = true := has_iff.mpr (relsOwner_of_isStale h)

/-! ### Locks -/

theorem staleFamilies_agree (h : SameOn (ownPart (some .releases)) g g') (id : String) :
    staleFamilies g id = staleFamilies g' id := by
  have hissued : g.rels.filter (issuedBy id) = g'.rels.filter (issuedBy id) := by
    refine h.filter_eq fun e he => has_iff.mpr (relsOwner_of_src ?_)
    simp only [issuedBy, decide_eq_true_eq] at he
    rw [he.2.1]
    rfl
  have hfamily : ∀ stale : Edge,
      g.rels.filter (fun e => e.type = .inFamily ∧ e.src = stale.dst ∧ e.dst.label = .mediaFamily) =
        g'.rels.filter fun e => e.type = .inFamily ∧ e.src = stale.dst ∧ e.dst.label = .mediaFamily := by
    intro stale
    refine h.filter_eq fun e he => has_iff.mpr (relsOwner_of_dst ?_)
    rw [(of_decide_eq_true he).2.2]
    rfl
  unfold staleFamilies
  rw [hissued]
  simp only [hfamily]

theorem lockMediaFamiliesCypher_agree (rows : List SummaryRow) (families : List String)
    (h : SameOn (ownPart (some .releases)) g g') :
    SameOn (ownPart (some .releases)) (lockMediaFamiliesCypher rows families g)
      (lockMediaFamiliesCypher rows families g') := by
  have hnames : lockNames rows families g = lockNames rows families g' := by
    simp only [lockNames, staleFamilies_agree h]
  rw [lockMediaFamiliesCypher, lockMediaFamiliesCypher, hnames]
  have hstep : ∀ (g g' : Graph) (name : String), SameOn (ownPart (some .releases)) g g' →
      SameOn (ownPart (some .releases)) (lockFamily g name) (lockFamily g' name) :=
    fun _ _ name h => (h.mergeNode (familyKey name) noProps).update (familyKey name) (touch "_lock")
  exact .foldl hstep _ h

theorem lockMediaFamiliesCypher_outside (hd : d ≠ some .releases) (rows : List SummaryRow)
    (families : List String) (g : Graph) : SameOn (ownPart d) (lockMediaFamiliesCypher rows families g) g := by
  have hfamily : ∀ name, ¬(ownPart d).nodes (familyKey name) := fun _ howner => hd (Eq.symm howner)
  have hstep : ∀ (g : Graph) (name : String), SameOn (ownPart d) (lockFamily g name) g := fun g name =>
    (SameOn.update_outside (hfamily name) (touch "_lock") _).trans (.mergeNode_outside (hfamily name) noProps g)
  exact .foldl_outside hstep _ g

theorem lockMedium_agree (h : SameOn (ownPart d) g g') (target : String × Option LockItem) :
    SameOn (ownPart d) (lockMedium g target) (lockMedium g' target) := by
  obtain ⟨id, _ | item⟩ := target
  · exact h.update _ _
  · exact (h.mergeNode _ _).update _ _

theorem lockMedium_outside (hd : d ≠ some .releases) (g : Graph) (target : String × Option LockItem) :
    SameOn (ownPart d) (lockMedium g target) g := by
  have hmedium : ∀ m, ¬(ownPart d).nodes (mediumKey m) := fun _ howner => hd (Eq.symm howner)
  obtain ⟨id, _ | item⟩ := target
  · exact .update_outside (hmedium id) _ g
  · exact (SameOn.update_outside (hmedium id) _ _).trans (.mergeNode_outside (hmedium id) _ g)

theorem lockMediaMediumsCypher_agree (rows : List SummaryRow) (args : MediaLockArgs)
    (h : SameOn (ownPart (some .releases)) g g') :
    SameOn (ownPart (some .releases)) (lockMediaMediumsCypher rows args g) (lockMediaMediumsCypher rows args g') := by
  have hstale : ∀ row, g.rels.filter (isStale row) = g'.rels.filter (isStale row) :=
    fun row => h.filter_eq fun _ => has_of_isStale
  have htargets : lockTargets rows args g = lockTargets rows args g' := by
    simp only [lockTargets, staleIds, hstale]
  rw [lockMediaMediumsCypher, lockMediaMediumsCypher, htargets]
  exact .foldl (fun _ _ target h => lockMedium_agree h target) _ h

theorem lockMediaInOrder_agree (rows : List SummaryRow) (edgeRows : List MediaRow)
    (h : SameOn (ownPart (some .releases)) g g') :
    SameOn (ownPart (some .releases)) (lockMediaInOrder rows edgeRows g) (lockMediaInOrder rows edgeRows g') :=
  lockMediaMediumsCypher_agree rows _ (lockMediaFamiliesCypher_agree rows _ h)

theorem lockMediaInOrder_outside (hd : d ≠ some .releases) (rows : List SummaryRow) (edgeRows : List MediaRow)
    (g : Graph) : SameOn (ownPart d) (lockMediaInOrder rows edgeRows g) g :=
  (SameOn.foldl_outside (lockMedium_outside hd) _ _).trans (lockMediaFamiliesCypher_outside hd rows _ g)

/-! ### Summary, stale sweep and prune -/

theorem isOrphan_agree (h : SameOn (ownPart (some .releases)) g g') : isOrphan g = isOrphan g' := by
  funext m
  have hissued : g.rels.any (fun e => e.type = .issuedOn ∧ e.dst = mediumKey m) =
      g'.rels.any fun e => e.type = .issuedOn ∧ e.dst = mediumKey m :=
    h.any_eq fun e he => has_of_touches_medium (.inr (of_decide_eq_true he).2)
  have htouching : g.rels.filter (fun e =>
        e.Touches (mediumKey m) ∧ (e.type ≠ .inFamily ∨ e.src ≠ mediumKey m)) =
      g'.rels.filter fun e => e.Touches (mediumKey m) ∧ (e.type ≠ .inFamily ∨ e.src ≠ mediumKey m) :=
    h.filter_eq fun e he => has_of_touches_medium (of_decide_eq_true he).1
  rw [isOrphan, isOrphan, hissued, htouching]

theorem pruneOrphanMedium_agree (media : List String) (h : SameOn (ownPart (some .releases)) g g') :
    Except.Agree (SameOn (ownPart (some .releases))) (pruneOrphanMedium media g) (pruneOrphanMedium media g') := by
  have hlocked : SameOn (ownPart (some .releases))
      (media.foldl (fun g m => g.update (mediumKey m) (touch "_prune_lock")) g)
      (media.foldl (fun g m => g.update (mediumKey m) (touch "_prune_lock")) g') :=
    .foldl (fun _ _ m h => h.update (mediumKey m) (touch "_prune_lock")) media h
  unfold pruneOrphanMedium
  dsimp only
  rw [isOrphan_foldl_prune_lock, isOrphan_foldl_prune_lock, isOrphan_agree h]
  have hends : ∀ e : Edge, e.src ∈ (media.filter (isOrphan g')).map mediumKey ∨
      e.dst ∈ (media.filter (isOrphan g')).map mediumKey → (ownPart (some .releases)).has e = true := by
    rintro e (he | he)
    · obtain ⟨m, _, hm⟩ := List.mem_map.mp he
      exact has_of_touches_medium (.inl hm.symm)
    · obtain ⟨m, _, hm⟩ := List.mem_map.mp he
      exact has_of_touches_medium (.inr hm.symm)
  have hdelete := (hlocked.deleteRels fun e =>
    e.type = .inFamily ∧ e.src ∈ (media.filter (isOrphan g')).map mediumKey).deleteNodes hends
  split <;> rename_i hg <;> split <;> rename_i hg' <;> rw [hg, hg'] at hdelete
  · cases hdelete with
    | some h => exact .ok h
  · cases hdelete
  · cases hdelete
  · exact .error _

theorem pruneOrphanMedium_outside (hd : d ≠ some .releases) {media : List String}
    (h : pruneOrphanMedium media g = .ok g') : SameOn (ownPart d) g' g := by
  have hmedium : ∀ m, ¬(ownPart d).nodes (mediumKey m) := fun _ howner => hd (Eq.symm howner)
  unfold pruneOrphanMedium at h
  dsimp only at h
  split at h
  · rename_i g₁ hdelete
    cases h
    refine (SameOn.deleteNodes_outside (fun k hk => ?_) hdelete).trans
      ((SameOn.deleteRels_outside (fun e he => ?_) _).trans ?_)
    · obtain ⟨m, _, rfl⟩ := List.mem_map.mp hk
      exact hmedium m
    · obtain ⟨m, _, hm⟩ := List.mem_map.mp (of_decide_eq_true he).2
      exact not_has_of_ne (relsOwner_of_src (by rw [← hm]; rfl)) hd.symm
    · have hlock : ∀ (g : Graph) (m : String),
          SameOn (ownPart d) (g.update (mediumKey m) (touch "_prune_lock")) g :=
        fun g m => .update_outside (hmedium m) _ g
      exact .foldl_outside hlock media g
  · cases h

theorem releaseMediaSummaryBatchCypher_agree (rows : List SummaryRow)
    (h : SameOn (ownPart (some .releases)) g g') :
    Except.Agree (SameOn (ownPart (some .releases))) (releaseMediaSummaryBatchCypher rows g)
      (releaseMediaSummaryBatchCypher rows g') := by
  have hset : SameOn (ownPart (some .releases))
      (rows.foldl (fun g row => g.update (releaseKey row.discogsId) (setSummary row)) g)
      (rows.foldl (fun g row => g.update (releaseKey row.discogsId) (setSummary row)) g') :=
    .foldl (fun _ _ row h => h.update (releaseKey row.discogsId) (setSummary row)) rows h
  have hstale : ∀ e : Edge, rows.any (isStale · e) = true → (ownPart (some .releases)).has e = true := by
    intro e he
    obtain ⟨row, _, hrow⟩ := List.any_eq_true.mp he
    exact has_of_isStale hrow
  unfold releaseMediaSummaryBatchCypher
  dsimp only
  rw [hset.filter_eq hstale]
  exact pruneOrphanMedium_agree _ (hset.deleteRels _)

theorem releaseMediaSummaryBatchCypher_outside (hd : d ≠ some .releases) {rows : List SummaryRow}
    (h : releaseMediaSummaryBatchCypher rows g = .ok g') : SameOn (ownPart d) g' g := by
  have hset : ∀ (g : Graph) (row : SummaryRow),
      SameOn (ownPart d) (g.update (releaseKey row.discogsId) (setSummary row)) g :=
    fun g row => .update_outside (fun howner => hd (Eq.symm howner)) _ g
  refine (pruneOrphanMedium_outside hd h).trans ((SameOn.deleteRels_outside (fun e he => ?_) _).trans
    (.foldl_outside hset rows g))
  obtain ⟨row, _, hrow⟩ := List.any_eq_true.mp he
  exact not_has_of_ne (relsOwner_of_isStale hrow) hd.symm

/-! ### Edges -/

theorem mergeItem_agree (h : SameOn (ownPart (some .releases)) g g') (item : ReleaseItem) :
    SameOn (ownPart (some .releases)) (mergeItem g item) (mergeItem g' item) := by
  have hrelease : (ownPart (some .releases)).nodes (releaseKey item.discogsId) := rfl
  have hmedium : (ownPart (some .releases)).nodes (mediumKey item.medium) := rfl
  have hfamily : (ownPart (some .releases)).nodes (familyKey item.family) := rfl
  rw [mergeItem, mergeItem, h.node _ hrelease]
  split
  · refine SameOn.mergeRel (SameOn.mergeRel ((h.mergeNode _ _).mergeNode _ _) ?_ hmedium hfamily _) ?_
      hrelease hmedium _
    · exact fun e he => has_iff.mpr (relsOwner_of_sameInFamily he)
    · exact fun e he => has_iff.mpr (relsOwner_of_sameIssuedOn he)
  · exact h

theorem mergeItem_outside (hd : d ≠ some .releases) (g : Graph) (item : ReleaseItem) :
    SameOn (ownPart d) (mergeItem g item) g := by
  rw [mergeItem]
  split
  · refine (SameOn.mergeRel_outside (fun e he => ?_) ?_ _ _).trans ((SameOn.mergeRel_outside (fun e he => ?_) ?_ _ _).trans
      ((SameOn.mergeNode_outside ?_ _ _).trans (.mergeNode_outside ?_ _ g)))
    · exact not_has_of_ne (relsOwner_of_sameIssuedOn he) hd.symm
    · exact not_has_of_ne (relsOwner_of_src rfl) hd.symm
    · exact not_has_of_ne (relsOwner_of_sameInFamily he) hd.symm
    · exact not_has_of_ne (relsOwner_of_src rfl) hd.symm
    · exact fun howner => hd (Eq.symm howner)
    · exact fun howner => hd (Eq.symm howner)
  · exact .refl g

theorem reconcileBatch_agree (summaries : List SummaryRow) (items : List ReleaseItem)
    (h : SameOn (ownPart (some .releases)) g g') :
    Except.Agree (SameOn (ownPart (some .releases))) (reconcileBatch summaries items g)
      (reconcileBatch summaries items g') := by
  unfold reconcileBatch
  split
  · exact .ok h
  · refine (releaseMediaSummaryBatchCypher_agree summaries (lockMediaInOrder_agree summaries _ h)).bind ?_
    intro g₁ g₁' h₁
    split
    · exact .ok (.foldl (fun _ _ item h => mergeItem_agree h item) items h₁)
    · exact .ok h₁

theorem reconcileBatch_outside (hd : d ≠ some .releases) {summaries : List SummaryRow} {items : List ReleaseItem}
    (h : reconcileBatch summaries items g = .ok g') : SameOn (ownPart d) g' g := by
  unfold reconcileBatch at h
  split at h
  · cases h
    exact .refl _
  · obtain ⟨g₁, hsummary, h⟩ := Except.bind_eq_ok.mp h
    have hswept := (releaseMediaSummaryBatchCypher_outside hd hsummary).trans (lockMediaInOrder_outside hd _ _ g)
    split at h
    · cases h
      exact (SameOn.foldl_outside (mergeItem_outside hd) items g₁).trans hswept
    · cases h
      exact hswept

theorem reconcileReleaseMedia_agree (id : String) (record : Dict) (h : SameOn (ownPart (some .releases)) g g') :
    Except.Agree (SameOn (ownPart (some .releases))) (reconcileReleaseMedia rt id record g)
      (reconcileReleaseMedia rt id record g') := by
  cases hblock : releaseMediaBlock rt record with
  | none =>
    rw [reconcileReleaseMedia, reconcileReleaseMedia, hblock]
    exact .ok h
  | some block =>
    rw [reconcileReleaseMedia_eq hblock, reconcileReleaseMedia_eq hblock]
    exact reconcileBatch_agree _ _ h

theorem reconcileReleaseMedia_outside (hd : d ≠ some .releases) {id : String} {record : Dict}
    (h : reconcileReleaseMedia rt id record g = .ok g') : SameOn (ownPart d) g' g := by
  cases hblock : releaseMediaBlock rt record with
  | none =>
    rw [reconcileReleaseMedia, hblock] at h
    cases h
    exact .refl _
  | some block =>
    rw [reconcileReleaseMedia_eq hblock] at h
    exact reconcileBatch_outside hd h

end Media

end Brainzgraphinator
