-- SUMMARY: Relations written in groups against the same relations one by one: edges, totals and complete owners.
import Brainzgraphinator.Projections.RelationsGate

/-!
# Grouped relations

A batch merges its relations type by type; one by one they are merged in list order. Merges
commute, so both leave the same edges. The totals of a batch come from result rows, of which
a merge returns one for each parallel edge, so they are those of the single writes only
where no relation meets parallel edges.
-/

namespace Brainzgraphinator

/-! ## Merges in any order -/

/-- The graphs have the same nodes, and the same edges in some order. -/
structure SameEdges (g g' : Graph) : Prop where
  node : g'.node = g.node
  rels : g.rels.Perm g'.rels

theorem SameEdges.refl (g : Graph) : SameEdges g g := ⟨rfl, .refl _⟩

theorem SameEdges.trans {g₁ g₂ g₃ : Graph} (h : SameEdges g₁ g₂) (h' : SameEdges g₂ g₃) : SameEdges g₁ g₃ :=
  ⟨h'.node.trans h.node, h.rels.trans h'.rels⟩

/-- What a merge makes of an edge. -/
def markEdge (m : RelType × RelationRow) (e : Edge) : Edge :=
  if sameRelation m.1 m.2 e then e.setProps (fun p => Function.update p "source" (.str mediaSource)) else e

/-- The edge a merge creates. -/
def freshEdge (m : RelType × RelationRow) : Edge :=
  ⟨m.1, artistKey m.2.sourceId, artistKey m.2.targetId, Function.update noProps "source" (.str mediaSource)⟩

def createdEdges (m : RelType × RelationRow) (rels : List Edge) : List Edge :=
  if rels.any (sameRelation m.1 m.2) then [] else [freshEdge m]

section Commute

variable {m m' : RelType × RelationRow} {g g' : Graph}

theorem rels_mergeRelation_eq (h : bothSides g m.2 = true) :
    (mergeRelation m.1 g m.2).rels = g.rels.map (markEdge m) ++ createdEdges m g.rels := by
  rw [rels_mergeRelation h, createdEdges]
  by_cases hany : g.rels.any (sameRelation m.1 m.2) = true
  · rw [if_pos hany, if_pos hany, List.append_nil]
    rfl
  · rw [if_neg hany, if_neg hany]
    have hmap : g.rels.map (markEdge m) = g.rels := by
      refine (List.map_congr_left fun e he => ?_).trans (List.map_id _)
      exact if_neg fun hsame => hany (List.any_eq_true.mpr ⟨e, he, hsame⟩)
    rw [hmap]
    rfl

theorem SameEdges.bothSides (h : SameEdges g g') (row : RelationRow) : bothSides g' row = bothSides g row := by
  rw [Brainzgraphinator.bothSides, Brainzgraphinator.bothSides, h.node]

theorem SameEdges.mergeRelation (h : SameEdges g g') (m : RelType × RelationRow) :
    SameEdges (mergeRelation m.1 g m.2) (mergeRelation m.1 g' m.2) := by
  refine ⟨by rw [node_mergeRelation, node_mergeRelation, h.node], ?_⟩
  by_cases hb : Brainzgraphinator.bothSides g m.2 = true
  · have hb' : Brainzgraphinator.bothSides g' m.2 = true := (h.bothSides m.2).trans hb
    rw [rels_mergeRelation_eq hb, rels_mergeRelation_eq hb', createdEdges, createdEdges, h.rels.any_eq]
    exact (h.rels.map _).append_right _
  · have hb' : ¬Brainzgraphinator.bothSides g' m.2 = true := by rwa [h.bothSides]
    rw [mergeRelation_of_not_bothSides hb, mergeRelation_of_not_bothSides hb']
    exact h.rels

theorem SameEdges.mergeAll (h : SameEdges g g') (merges : List (RelType × RelationRow)) :
    SameEdges (mergeAll merges g) (mergeAll merges g') := by
  induction merges generalizing g g' with
  | nil => exact h
  | cons m merges ih => exact ih (h.mergeRelation m)

/-- The merges are for different edges. -/
def Apart (m m' : RelType × RelationRow) : Prop := ∀ e, sameRelation m.1 m.2 e = true → sameRelation m'.1 m'.2 e = false

theorem Apart.symm (h : Apart m m') : Apart m' m := by
  intro e he
  rw [Bool.eq_false_iff]
  intro he'
  cases (h e he').symm.trans he

theorem sameRelation_freshEdge (m : RelType × RelationRow) : sameRelation m.1 m.2 (freshEdge m) = true :=
  sameRelation_iff.mpr ⟨rfl, rfl, rfl⟩

theorem sameRelation_markEdge (e : Edge) : sameRelation m'.1 m'.2 (markEdge m e) = sameRelation m'.1 m'.2 e := by
  rw [markEdge]
  split <;> rfl

theorem any_mergeRelation (h : Apart m m') (hb : bothSides g m.2 = true) :
    (mergeRelation m.1 g m.2).rels.any (sameRelation m'.1 m'.2) = g.rels.any (sameRelation m'.1 m'.2) := by
  have hcreated : (createdEdges m g.rels).any (sameRelation m'.1 m'.2) = false := by
    rw [createdEdges]
    split
    · rfl
    · rw [List.any_cons, h _ (sameRelation_freshEdge m)]
      rfl
  rw [rels_mergeRelation_eq hb, List.any_append, hcreated, Bool.or_false, List.any_map]
  congr 1
  exact funext fun e => sameRelation_markEdge e

theorem map_markEdge_createdEdges (h : Apart m m') (rels : List Edge) :
    (createdEdges m rels).map (markEdge m') = createdEdges m rels := by
  rw [createdEdges]
  split
  · rfl
  · rw [List.map_singleton, markEdge, if_neg (by rw [h _ (sameRelation_freshEdge m)]; exact nofun)]

theorem markEdge_comm (h : Apart m m') (e : Edge) : markEdge m (markEdge m' e) = markEdge m' (markEdge m e) := by
  by_cases hsame : sameRelation m.1 m.2 e = true
  · have hother : markEdge m' e = e := if_neg (by rw [h e hsame]; exact nofun)
    have hother' : markEdge m' (markEdge m e) = markEdge m e :=
      if_neg (by rw [sameRelation_markEdge, h e hsame]; exact nofun)
    rw [hother, hother']
  · have hself : markEdge m e = e := if_neg hsame
    have hself' : markEdge m (markEdge m' e) = markEdge m' e := if_neg (by rwa [sameRelation_markEdge])
    rw [hself, hself']

/-- Merges that are not for different edges are the same merge. -/
theorem mergeRelation_congr (h : ¬Apart m m') (g : Graph) : mergeRelation m.1 g m.2 = mergeRelation m'.1 g m'.2 := by
  simp only [Apart, not_forall, Bool.not_eq_false] at h
  obtain ⟨e, hm, hm'⟩ := h
  obtain ⟨htype, hsource, htarget⟩ := sameRelation_unique hm hm'
  have hsame : sameRelation m.1 m.2 = sameRelation m'.1 m'.2 := by
    funext e
    rw [sameRelation, sameRelation, htype, hsource, htarget]
  rw [mergeRelation, mergeRelation, bothSides, bothSides, hsame, htype, hsource, htarget]

/-- Merges for different edges, one after the other. -/
theorem rels_mergeRelation_twice (h : Apart m m') (hb : bothSides g m.2 = true) (hb' : bothSides g m'.2 = true) :
    (mergeRelation m'.1 (mergeRelation m.1 g m.2) m'.2).rels =
      g.rels.map (fun e => markEdge m' (markEdge m e)) ++ (createdEdges m g.rels ++ createdEdges m' g.rels) := by
  have hb₁ : bothSides (mergeRelation m.1 g m.2) m'.2 = true := by rwa [bothSides_mergeRelation]
  have hcreated : createdEdges m' (mergeRelation m.1 g m.2).rels = createdEdges m' g.rels := by
    rw [createdEdges, createdEdges, any_mergeRelation h hb]
  rw [rels_mergeRelation_eq hb₁, hcreated, rels_mergeRelation_eq hb, List.map_append, map_markEdge_createdEdges h,
    List.map_map, List.append_assoc]
  rfl

/-- Two merges can change places. -/
theorem mergeRelation_comm (m m' : RelType × RelationRow) (g : Graph) :
    SameEdges (mergeRelation m'.1 (mergeRelation m.1 g m.2) m'.2)
      (mergeRelation m.1 (mergeRelation m'.1 g m'.2) m.2) := by
  refine ⟨by simp only [node_mergeRelation], ?_⟩
  by_cases hapart : Apart m m'
  · by_cases hb : bothSides g m.2 = true
    · by_cases hb' : bothSides g m'.2 = true
      · have hmarks : (fun e => markEdge m (markEdge m' e)) = fun e => markEdge m' (markEdge m e) :=
          funext (markEdge_comm hapart)
        rw [rels_mergeRelation_twice hapart hb hb', rels_mergeRelation_twice hapart.symm hb' hb, hmarks]
        exact List.perm_append_comm.append_left _
      · rw [mergeRelation_of_not_bothSides (g := g) hb', mergeRelation_of_not_bothSides (by rwa [bothSides_mergeRelation])]
    · rw [mergeRelation_of_not_bothSides (g := g) hb, mergeRelation_of_not_bothSides (g := mergeRelation m'.1 g m'.2)
        (by rwa [bothSides_mergeRelation])]
  · rw [mergeRelation_congr hapart g, mergeRelation_congr hapart]

/-- The order of the merges does not matter. -/
theorem SameEdges.of_perm {merges merges' : List (RelType × RelationRow)} (h : merges.Perm merges') (g : Graph) :
    SameEdges (Brainzgraphinator.mergeAll merges g) (Brainzgraphinator.mergeAll merges' g) := by
  induction h generalizing g with
  | nil => exact .refl g
  | cons m _ ih => exact ih (Brainzgraphinator.mergeRelation m.1 g m.2)
  | swap m m' merges => exact (mergeRelation_comm m' m g).mergeAll merges
  | trans _ _ ih ih' => exact (ih g).trans (ih' g)

end Commute

/-! ## Totals -/

/-- The relations of the list that are supported. -/
def supportedCount (rt : Runtime) (relations : List (String × Json)) : Nat :=
  relations.countP fun x => (supported rt x.1 x.2).isSome

/-- The counters of a write of `count` supported relations with `rows` result rows. -/
structure Totals (count rows : Nat) (tx tx' : Tx) : Prop where
  created : tx'.stats.relationshipsCreated + tx.graph.rels.length =
    tx.stats.relationshipsCreated + tx'.graph.rels.length
  matched : tx'.stats.relationshipsCreated + tx'.stats.relationshipsUpdated =
    tx.stats.relationshipsCreated + tx.stats.relationshipsUpdated + rows
  supported : tx'.stats.relationshipsCreated + tx'.stats.relationshipsUpdated +
      tx'.stats.relationshipsSkippedMissingSide =
    tx.stats.relationshipsCreated + tx.stats.relationshipsUpdated + tx.stats.relationshipsSkippedMissingSide + count

theorem Totals.refl (tx : Tx) : Totals 0 0 tx tx := ⟨rfl, (Int.add_zero _).symm, (Int.add_zero _).symm⟩

theorem Totals.trans {count rows count' rows' : Nat} {tx tx₁ tx' : Tx} (h : Totals count rows tx tx₁)
    (h' : Totals count' rows' tx₁ tx') : Totals (count + count') (rows + rows') tx tx' := by
  obtain ⟨hcreated, hmatched, hsupported⟩ := h
  obtain ⟨hcreated', hmatched', hsupported'⟩ := h'
  constructor <;> push_cast <;> omega

/-- The merges whose artists exist. -/
def resolvedRows (g : Graph) (merges : List (RelType × RelationRow)) : Nat :=
  merges.countP fun m => bothSides g m.2

/-- The result rows of all merges. -/
def resultRows (g : Graph) (merges : List (RelType × RelationRow)) : Nat :=
  (merges.map fun m => matchedRows m.1 g m.2).sum

theorem length_mergeRelation (type : RelType) (g : Graph) (row : RelationRow) :
    (mergeRelation type g row).rels.length = g.rels.length + createdRels type g row := by
  by_cases hb : bothSides g row = true
  · rw [rels_mergeRelation_eq (m := (type, row)) hb, List.length_append, List.length_map, createdEdges, createdRels]
    congr 1
    by_cases hany : g.rels.any (sameRelation type row) = true
    · have hne : g.rels.filter (sameRelation type row) ≠ [] := by
        obtain ⟨e, he, hsame⟩ := List.any_eq_true.mp hany
        exact List.ne_nil_of_mem (List.mem_filter.mpr ⟨he, hsame⟩)
      rw [if_pos hany, if_neg fun h => hne h.2]
      rfl
    · have hnil : g.rels.filter (sameRelation type row) = [] := by
        rw [List.filter_eq_nil_iff]
        exact fun e he hsame => hany (List.any_eq_true.mpr ⟨e, he, hsame⟩)
      rw [if_neg hany, if_pos ⟨hb, hnil⟩]
      rfl
  · rw [mergeRelation_of_not_bothSides hb, createdRels, if_neg fun h => hb h.1, Nat.add_zero]

theorem createdRels_le (type : RelType) (g : Graph) (row : RelationRow) :
    createdRels type g row ≤ (bothSides g row).toNat ∧ (bothSides g row).toNat ≤ matchedRows type g row := by
  rw [createdRels, matchedRows]
  cases hb : bothSides g row with
  | false => simp
  | true =>
    refine ⟨?_, Nat.le_max_left _ _⟩
    split <;> simp

/-! ### One by one -/

section InOrder

variable {rt : Runtime}

/-- The relations one by one, in list order. -/
def createRelationshipEdgesInOrder (rt : Runtime) (relations : List (String × Json)) (tx : Tx) : Except Failure Tx :=
  relations.foldlM (fun tx x => createRelationshipEdges rt x.1 [x.2] tx) tx

theorem createRelationshipEdges_singleton (owner : String) (relation : Json) (tx : Tx) :
    createRelationshipEdges rt owner [relation] tx = createRelationshipEdge rt owner tx relation := by
  rw [createRelationshipEdges, List.foldlM_cons]
  exact bind_pure _

theorem resolvedRows_mergeAll (g : Graph) (ms ms' : List (RelType × RelationRow)) :
    resolvedRows (mergeAll ms g) ms' = resolvedRows g ms' := by
  simp only [resolvedRows, bothSides, node_mergeAll]

/-- One relation: an edge is created or updated if both artists exist. -/
theorem createRelationshipEdge_totals {owner : String} {relation : Json} {tx tx' : Tx}
    (h : createRelationshipEdge rt owner tx relation = .ok tx') :
    tx'.graph = mergeAll ([(owner, relation)].filterMap (mergeOf rt)) tx.graph ∧
      Totals (supportedCount rt [(owner, relation)])
        (resolvedRows tx.graph ([(owner, relation)].filterMap (mergeOf rt))) tx tx' := by
  obtain ⟨r, hr, h⟩ := Except.bind_eq_ok.mp h
  have hsupported := supported_of_eq_ok hr
  have hcount : supportedCount rt [(owner, relation)] = r.isSome.toNat := by
    rw [supportedCount, List.countP_singleton, hsupported]
    cases r <;> rfl
  rw [hcount]
  match r with
  | none =>
    cases Except.pure_eq_ok.mp h
    rw [List.filterMap_cons_none (by simp [mergeOf, hsupported])]
    exact ⟨rfl, .refl tx⟩
  | some (type, none) =>
    cases Except.pure_eq_ok.mp h
    rw [List.filterMap_cons_none (by simp [mergeOf, hsupported])]
    refine ⟨rfl, rfl, (Int.add_zero _).symm, ?_⟩
    simp only [Stats.skipRelation, Option.isSome_some, Bool.toNat_true]
    omega
  | some (type, some row) =>
    cases Except.pure_eq_ok.mp h
    rw [List.filterMap_cons_some ((mergeOf_eq_some (m := (type, row))).mpr hsupported)]
    have hlength := length_mergeRelation type tx.graph row
    obtain ⟨hcreated, hmatched⟩ := createdRels_le type tx.graph row
    have hrows : resolvedRows tx.graph [(type, row)] = (bothSides tx.graph row).toNat := by
      rw [resolvedRows, List.countP_singleton]
      cases bothSides tx.graph row <;> rfl
    refine ⟨rfl, ?_⟩
    rw [List.filterMap_nil, hrows]
    by_cases hpos : 0 < createdRels type tx.graph row
    · simp only [if_pos hpos]
      have hle := (bothSides tx.graph row).toNat_le
      constructor <;> dsimp only [Option.isSome_some, Bool.toNat_true] <;> omega
    · rw [if_neg hpos]
      by_cases hb : bothSides tx.graph row = true
      · rw [hb, Bool.toNat_true] at hmatched
        rw [if_pos (by omega), hb]
        constructor <;> dsimp only [Option.isSome_some, Bool.toNat_true] <;> omega
      · have hzero : matchedRows type tx.graph row = 0 := by rw [matchedRows, if_neg hb]
        have hmissing : bothSides tx.graph row = false := Bool.not_eq_true _ ▸ hb
        rw [if_neg (by omega), hmissing]
        constructor <;> dsimp only [Option.isSome_some, Bool.toNat_true, Bool.toNat_false, Stats.skipRelation] <;> omega

theorem createRelationshipEdgesInOrder_totals {relations : List (String × Json)} {tx tx' : Tx}
    (h : createRelationshipEdgesInOrder rt relations tx = .ok tx') :
    tx'.graph = mergeAll (relations.filterMap (mergeOf rt)) tx.graph ∧
      Totals (supportedCount rt relations) (resolvedRows tx.graph (relations.filterMap (mergeOf rt))) tx tx' := by
  unfold createRelationshipEdgesInOrder at h
  induction relations generalizing tx with
  | nil =>
    cases Except.pure_eq_ok.mp h
    exact ⟨rfl, .refl _⟩
  | cons x relations ih =>
    rw [List.foldlM_cons] at h
    obtain ⟨tx₁, hone, h⟩ := Except.bind_eq_ok.mp h
    rw [createRelationshipEdges_singleton] at hone
    obtain ⟨hgraph, htotals⟩ := createRelationshipEdge_totals hone
    obtain ⟨ihgraph, ihtotals⟩ := ih h
    have hsplit : (x :: relations).filterMap (mergeOf rt) =
        [x].filterMap (mergeOf rt) ++ relations.filterMap (mergeOf rt) := by
      rw [← List.filterMap_append, List.singleton_append]
    have hcount : supportedCount rt (x :: relations) = supportedCount rt [x] + supportedCount rt relations := by
      rw [supportedCount, ← List.singleton_append, List.countP_append]
      rfl
    rw [hgraph, resolvedRows_mergeAll] at ihtotals
    rw [hsplit, mergeAll_append, ← hgraph, hcount, resolvedRows, List.countP_append]
    exact ⟨ihgraph, htotals.trans ihtotals⟩

end InOrder

/-! ### Type by type -/

section Grouped

variable {rt : Runtime}

/-- One UNWIND creates the edges that are new, and returns a row for each it matches. -/
theorem relationBatchCypher_counts (type : RelType) (rows : List RelationRow) (g : Graph) :
    g.rels.length + (relationBatchCypher type rows g).created = (relationBatchCypher type rows g).graph.rels.length ∧
      ((relationBatchCypher type rows g).matched.map Prod.snd).sum = resultRows g (rows.map (Prod.mk type)) ∧
      (relationBatchCypher type rows g).created ≤ resultRows g (rows.map (Prod.mk type)) := by
  induction rows using List.reverseRecOn with
  | nil => exact ⟨rfl, rfl, Nat.le_refl 0⟩
  | append_singleton rows row ih =>
    obtain ⟨hlength, hsum, hle⟩ := ih
    obtain ⟨hgraph, _⟩ := relationBatchCypher_spec type rows g
    have hstep : relationBatchCypher type (rows ++ [row]) g =
        (relationBatchCypher type rows g).add type row := by
      rw [relationBatchCypher, relationBatchCypher, List.foldl_append]
      rfl
    have hrows : resultRows g ((rows ++ [row]).map (Prod.mk type)) =
        resultRows g (rows.map (Prod.mk type)) + matchedRows type g row := by
      simp [resultRows]
    have hmatched : matchedRows type (relationBatchCypher type rows g).graph row = matchedRows type g row := by
      rw [hgraph, matchedRows_mergeAll]
    obtain ⟨hcreated, hresolved⟩ := createdRels_le type (relationBatchCypher type rows g).graph row
    rw [hmatched] at hresolved
    rw [hstep, hrows]
    refine ⟨?_, ?_, ?_⟩
    · simp only [RelationBatch.add, length_mergeRelation]
      omega
    · simp only [RelationBatch.add]
      split
      · rw [OrderedDict.sum_bump, hsum, hmatched]
      · rename_i hb
        rw [hsum, ← hmatched, matchedRows, if_neg hb, Nat.add_zero]
    · simp only [RelationBatch.add]
      omega

theorem addType_totals (group : RelType × List RelationRow) (p : RelationProgress) :
    Totals group.2.length (resultRows p.tx.graph (group.2.map (Prod.mk group.1))) p.tx (p.addType group).tx := by
  obtain ⟨hlength, hsum, hle⟩ := relationBatchCypher_counts group.1 group.2 p.tx.graph
  have hmax : max ((((relationBatchCypher group.1 group.2 p.tx.graph).matched.map Prod.snd).sum : Int) -
      (relationBatchCypher group.1 group.2 p.tx.graph).created) 0 =
      (resultRows p.tx.graph (group.2.map (Prod.mk group.1)) : Int) -
        (relationBatchCypher group.1 group.2 p.tx.graph).created := by
    rw [hsum]
    omega
  simp only [RelationProgress.addType]
  constructor
  · dsimp only
    omega
  · dsimp only
    rw [hmax]
    omega
  · dsimp only
    rw [hmax, hsum]
    omega

theorem resultRows_append (g : Graph) (ms ms' : List (RelType × RelationRow)) :
    resultRows g (ms ++ ms') = resultRows g ms + resultRows g ms' := by
  simp [resultRows]

theorem resultRows_mergeAll (g : Graph) (ms ms' : List (RelType × RelationRow)) :
    resultRows (mergeAll ms g) ms' = resultRows g ms' := by
  simp only [resultRows, matchedRows_mergeAll]

theorem foldl_addType_totals (groups : List (RelType × List RelationRow)) (p : RelationProgress) :
    Totals (OrderedDict.ungroup groups).length (resultRows p.tx.graph (OrderedDict.ungroup groups)) p.tx
      (groups.foldl RelationProgress.addType p).tx := by
  induction groups generalizing p with
  | nil => exact .refl p.tx
  | cons group groups ih =>
    obtain ⟨hgraph, _⟩ := relationBatchCypher_spec group.1 group.2 p.tx.graph
    have hgroup : (p.addType group).tx.graph = mergeAll (group.2.map (Prod.mk group.1)) p.tx.graph := hgraph
    have hungroup : OrderedDict.ungroup (group :: groups) =
        group.2.map (Prod.mk group.1) ++ OrderedDict.ungroup groups := rfl
    have hrest := ih (p.addType group)
    rw [hgroup, resultRows_mergeAll] at hrest
    rw [List.foldl_cons, hungroup, List.length_append, List.length_map, resultRows_append]
    exact (addType_totals group p).trans hrest

/-- A supported relation is skipped or gets a row. -/
theorem plan_skipped {relations : List (String × Json)} {plan : RelationPlan}
    (h : relations.foldlM (RelationPlan.add rt) {} = .ok plan) :
    plan.skipped + (relations.filterMap (mergeOf rt)).length = supportedCount rt relations := by
  induction relations using List.reverseRecOn generalizing plan with
  | nil =>
    cases Except.pure_eq_ok.mp h
    rfl
  | append_singleton relations x ih =>
    rw [List.foldlM_append] at h
    obtain ⟨plan₁, hprefix, h⟩ := Except.bind_eq_ok.mp h
    rw [List.foldlM_cons] at h
    obtain ⟨plan₂, hadd, h⟩ := Except.bind_eq_ok.mp h
    cases Except.pure_eq_ok.mp h
    have hih := ih hprefix
    obtain ⟨r, hr, hadd⟩ := Except.bind_eq_ok.mp hadd
    have hsupported := supported_of_eq_ok hr
    have hcount : supportedCount rt (relations ++ [x]) = supportedCount rt relations + r.isSome.toNat := by
      rw [supportedCount, List.countP_append, List.countP_singleton, hsupported]
      cases r <;> rfl
    rw [hcount, List.filterMap_append, List.length_append]
    match r with
    | none =>
      cases Except.pure_eq_ok.mp hadd
      rw [List.filterMap_cons_none (by simp [mergeOf, hsupported])]
      exact hih
    | some (type, none) =>
      cases Except.pure_eq_ok.mp hadd
      rw [List.filterMap_cons_none (by simp [mergeOf, hsupported])]
      simp only [List.filterMap_nil, List.length_nil, Option.isSome_some, Bool.toNat_true]
      omega
    | some (type, some row) =>
      cases Except.pure_eq_ok.mp hadd
      rw [List.filterMap_cons_some ((mergeOf_eq_some (m := (type, row))).mpr hsupported)]
      simp only [List.filterMap_nil, List.length_singleton, Option.isSome_some, Bool.toNat_true]
      omega

theorem createRelationshipEdgesBatch_totals {relations : List (String × Json)} {tx tx' : Tx}
    {complete : List (String × Bool)} (h : createRelationshipEdgesBatch rt relations tx = .ok (tx', complete)) :
    Totals (supportedCount rt relations) (resultRows tx.graph (relations.filterMap (mergeOf rt))) tx tx' := by
  obtain ⟨plan, hplan, h⟩ := Except.bind_eq_ok.mp h
  cases Except.pure_eq_ok.mp h
  have hskipped := plan_skipped hplan
  have hrows := (planSpec hplan).1.rows
  have hresult : resultRows tx.graph (OrderedDict.ungroup plan.byType) =
      resultRows tx.graph (relations.filterMap (mergeOf rt)) := (hrows.map _).sum_nat
  have htotals := foldl_addType_totals plan.byType { tx := { tx with stats := { tx.stats with
    relationshipsSkippedMissingSide := tx.stats.relationshipsSkippedMissingSide + plan.skipped } } }
  rw [hrows.length_eq, hresult] at htotals
  obtain ⟨hcreated, hmatched, hsupported⟩ := htotals
  exact ⟨hcreated, hmatched, by dsimp only at hsupported ⊢; omega⟩

/-! ## Where the two agree -/

theorem relationRow_of_createRelationshipEdges {owner : String} {relation : Json} {tx : Tx} :
    (∃ tx', createRelationshipEdges rt owner [relation] tx = .ok tx') ↔ ∃ r, relationRow rt owner relation = .ok r := by
  rw [createRelationshipEdges_singleton]
  constructor
  · rintro ⟨tx', h⟩
    obtain ⟨r, hr, _⟩ := Except.bind_eq_ok.mp h
    exact ⟨r, hr⟩
  · rintro ⟨r, hr⟩
    match r with
    | none => exact ⟨_, Except.bind_eq_ok.mpr ⟨_, hr, rfl⟩⟩
    | some (type, none) => exact ⟨_, Except.bind_eq_ok.mpr ⟨_, hr, rfl⟩⟩
    | some (type, some row) => exact ⟨_, Except.bind_eq_ok.mpr ⟨_, hr, rfl⟩⟩

/-- Both writes raise on the same relations. -/
theorem createRelationshipEdgesBatch_ok_iff (relations : List (String × Json)) (tx : Tx) :
    (∃ r, createRelationshipEdgesBatch rt relations tx = .ok r) ↔
      ∃ tx', createRelationshipEdgesInOrder rt relations tx = .ok tx' := by
  constructor
  · rintro ⟨⟨tx', complete⟩, h⟩
    refine Except.exists_foldlM_eq_ok (fun x hx tx => ?_) tx
    exact relationRow_of_createRelationshipEdges.mpr ((createRelationshipEdgesBatch_spec h).2.1 x hx)
  · rintro ⟨tx', h⟩
    have hrows : ∀ x ∈ relations, ∃ r, relationRow rt x.1 x.2 = .ok r := fun x hx => by
      obtain ⟨tx₀, tx₁, hx⟩ := Except.exists_of_foldlM_eq_ok h x hx
      exact relationRow_of_createRelationshipEdges.mp ⟨tx₁, hx⟩
    exact exists_createRelationshipEdgesBatch hrows tx

/-- The grouped write `tx'` did what the single writes `tx''` do, and told which artists are complete. -/
structure GroupedAgrees (rt : Runtime) (relations : List (String × Json)) (tx tx' tx'' : Tx)
    (complete : List (String × Bool)) : Prop where
  edges : SameEdges tx''.graph tx'.graph
  created : tx'.stats.relationshipsCreated = tx''.stats.relationshipsCreated
  updated : tx'.stats.relationshipsUpdated = tx''.stats.relationshipsUpdated
  skipped : tx'.stats.relationshipsSkippedMissingSide = tx''.stats.relationshipsSkippedMissingSide
  supported : tx'.stats.relationshipsCreated + tx'.stats.relationshipsUpdated +
      tx'.stats.relationshipsSkippedMissingSide =
    tx.stats.relationshipsCreated + tx.stats.relationshipsUpdated + tx.stats.relationshipsSkippedMissingSide +
      supportedCount rt relations
  complete : ∀ owner, (∃ relation, (owner, relation) ∈ relations ∧ (Brainzgraphinator.supported rt owner relation).isSome) →
    (complete.lookup owner = some true ↔
      ∀ relation, (owner, relation) ∈ relations → unresolved rt tx.graph owner relation = false)

/-- No relation of the list is for an edge that the graph has more than once. -/
def NoParallel (rt : Runtime) (relations : List (String × Json)) (g : Graph) : Prop :=
  ∀ m ∈ relations.filterMap (mergeOf rt), (g.rels.filter (sameRelation m.1 m.2)).length ≤ 1

/-- The artists of an edge are there. -/
theorem bothSides_of_edge {g : Graph} {m : RelType × RelationRow} (h : g.rels.filter (sameRelation m.1 m.2) ≠ []) :
    bothSides g m.2 = true := by
  obtain ⟨e, he⟩ := List.exists_mem_of_ne_nil _ h
  obtain ⟨hmem, hsame⟩ := List.mem_filter.mp he
  obtain ⟨_, hsrc, hdst⟩ := sameRelation_iff.mp hsame
  have hclosed := g.closed e hmem
  rw [hsrc, hdst] at hclosed
  rw [bothSides, hclosed.1, hclosed.2]
  rfl

theorem matchedRows_eq_iff {g : Graph} {m : RelType × RelationRow} :
    matchedRows m.1 g m.2 = (bothSides g m.2).toNat ↔ (g.rels.filter (sameRelation m.1 m.2)).length ≤ 1 := by
  by_cases hb : bothSides g m.2 = true
  · rw [matchedRows, if_pos hb, hb, Bool.toNat_true]
    omega
  · have hnil : g.rels.filter (sameRelation m.1 m.2) = [] := by
      by_contra hne
      exact hb (bothSides_of_edge hne)
    have hmissing : bothSides g m.2 = false := Bool.not_eq_true _ ▸ hb
    rw [matchedRows, if_neg hb, hmissing, hnil]
    simp

/-- Result rows and resolved relations are the same number just where no edge is doubled. -/
theorem resultRows_eq_iff {g : Graph} {merges : List (RelType × RelationRow)} :
    resultRows g merges = resolvedRows g merges ↔
      ∀ m ∈ merges, (g.rels.filter (sameRelation m.1 m.2)).length ≤ 1 := by
  have hle : ∀ merges : List (RelType × RelationRow), resolvedRows g merges ≤ resultRows g merges := by
    intro merges
    induction merges with
    | nil => exact Nat.le_refl 0
    | cons m merges ih =>
      have hone := (createdRels_le m.1 g m.2).2
      rw [resolvedRows, List.countP_cons, ← resolvedRows, resultRows, List.map_cons, List.sum_cons, ← resultRows]
      cases hb : bothSides g m.2 <;> rw [hb] at hone <;> simp at hone ⊢ <;> omega
  induction merges with
  | nil => exact ⟨fun _ => nofun, fun _ => rfl⟩
  | cons m merges ih =>
    have hone := (createdRels_le m.1 g m.2).2
    have hrest := hle merges
    have hcount : resolvedRows g (m :: merges) = resolvedRows g merges + (bothSides g m.2).toNat := by
      rw [resolvedRows, List.countP_cons, ← resolvedRows]
      cases bothSides g m.2 <;> rfl
    rw [List.forall_mem_cons, ← matchedRows_eq_iff, hcount, resultRows, List.map_cons, List.sum_cons, ← resultRows]
    constructor
    · intro h
      exact ⟨by omega, ih.mp (by omega)⟩
    · rintro ⟨hfirst, hothers⟩
      rw [hfirst, ih.mpr hothers, Nat.add_comm]

theorem surplus_of_noParallel {relations : List (String × Json)} {g : Graph} (h : NoParallel rt relations g)
    {x : String × Json} (hx : x ∈ relations) : surplus rt g x.1 x.2 = 0 := by
  unfold surplus
  split
  · rename_i type row hs
    have hm : (type, row) ∈ relations.filterMap (mergeOf rt) :=
      List.mem_filterMap.mpr ⟨x, hx, mergeOf_eq_some.mpr hs⟩
    rw [matchedRows_eq_iff.mpr (h _ hm)]
    cases bothSides g row <;> rfl
  · rfl

/-- An owner with a supported relation is called complete when its result rows are as many
as its supported relations. -/
theorem lookup_complete {relations : List (String × Json)} {tx tx' : Tx} {complete : List (String × Bool)}
    (h : createRelationshipEdgesBatch rt relations tx = .ok (tx', complete)) {owner : String}
    (howner : ∃ relation, (owner, relation) ∈ relations ∧ (supported rt owner relation).isSome) :
    complete.lookup owner = some true ↔
      expectedCount rt relations owner ≤ ownerRows tx.graph (relations.filterMap (mergeOf rt)) owner := by
  rw [← (createRelationshipEdgesBatch_spec h).2.2 owner]
  obtain ⟨plan, hplan, h⟩ := Except.bind_eq_ok.mp h
  cases Except.pure_eq_ok.mp h
  have hpos : 0 < expectedCount rt relations owner := by
    obtain ⟨relation, hmem, hsupported⟩ := howner
    exact List.countP_pos_iff.mpr ⟨_, hmem, by simp [hsupported]⟩
  have hlookup : plan.expected.lookup owner ≠ none := by
    intro hnone
    have hexpected := (planSpec hplan).1.expected owner
    rw [hnone, Option.getD_none] at hexpected
    omega
  generalize hcomplete : List.lookup owner (plan.expected.map _) = answer
  cases answer with
  | some b => simp
  | none =>
    rw [OrderedDict.lookup_eq_none_iff, List.map_map] at hcomplete
    rw [ne_eq, OrderedDict.lookup_eq_none_iff] at hlookup
    exact absurd hcomplete hlookup

/-- Without parallel edges an owner is complete when nothing of it is unresolved. -/
theorem complete_of_noParallel {relations : List (String × Json)} {g : Graph} (h : NoParallel rt relations g)
    (owner : String) :
    expectedCount rt relations owner ≤ ownerRows g (relations.filterMap (mergeOf rt)) owner ↔
      ∀ relation, (owner, relation) ∈ relations → unresolved rt g owner relation = false := by
  have howned : relations.filter (fun x => x.1 = owner) =
      ((relations.filter fun x => x.1 = owner).map Prod.snd).map (Prod.mk owner) := by
    rw [List.map_map]
    refine (List.map_id _).symm.trans (List.map_congr_left fun x hx => ?_)
    have hx' : x.1 = owner := by simpa using (List.mem_filter.mp hx).2
    exact Prod.ext hx' rfl
  have hcount := expected_add_surplus rt g owner ((relations.filter fun x => x.1 = owner).map Prod.snd)
  rw [← howned, ← expectedCount_filter, ← ownerRows_filter] at hcount
  have hmem : ∀ relation, relation ∈ (relations.filter fun x => x.1 = owner).map Prod.snd ↔
      (owner, relation) ∈ relations := by
    intro relation
    simp only [List.mem_map, List.mem_filter, decide_eq_true_eq]
    constructor
    · rintro ⟨⟨_, _⟩, ⟨hx, rfl⟩, rfl⟩
      exact hx
    · exact fun hx => ⟨_, ⟨hx, rfl⟩, rfl⟩
  have hsurplus : (((relations.filter fun x => x.1 = owner).map Prod.snd).map (surplus rt g owner)).sum = 0 := by
    rw [List.sum_eq_zero_iff_forall_eq_nat]
    intro n hn
    obtain ⟨relation, hrel, rfl⟩ := List.mem_map.mp hn
    exact surplus_of_noParallel h ((hmem relation).mp hrel)
  rw [hsurplus] at hcount
  have hzero : expectedCount rt relations owner ≤ ownerRows g (relations.filterMap (mergeOf rt)) owner ↔
      ((relations.filter fun x => x.1 = owner).map Prod.snd).countP (unresolved rt g owner) = 0 := by omega
  rw [hzero, List.countP_eq_zero]
  simp only [hmem, Bool.not_eq_true]

variable (rt) in
/-- The grouped write raises where the single writes do. Where both succeed, they agree just
if no relation of the list is for an edge that the graph has more than once. -/
theorem createRelationshipEdgesBatch_agrees_iff (relations : List (String × Json)) (tx : Tx) :
    ((∃ r, createRelationshipEdgesBatch rt relations tx = .ok r) ↔
      ∃ tx'', createRelationshipEdgesInOrder rt relations tx = .ok tx'') ∧
    ∀ tx' complete tx'', createRelationshipEdgesBatch rt relations tx = .ok (tx', complete) →
      createRelationshipEdgesInOrder rt relations tx = .ok tx'' →
      (GroupedAgrees rt relations tx tx' tx'' complete ↔ NoParallel rt relations tx.graph) := by
  refine ⟨createRelationshipEdgesBatch_ok_iff relations tx, fun tx' complete tx'' hbatch horder => ?_⟩
  obtain ⟨⟨merges, hperm, hgraph⟩, _, _⟩ := createRelationshipEdgesBatch_spec hbatch
  obtain ⟨hgraph', htotals'⟩ := createRelationshipEdgesInOrder_totals horder
  have htotals := createRelationshipEdgesBatch_totals hbatch
  have hsame : SameEdges tx''.graph tx'.graph := by
    rw [hgraph, hgraph']
    exact .of_perm hperm.symm tx.graph
  have hlength := hsame.rels.length_eq
  obtain ⟨hcreated, hmatched, hsupported⟩ := htotals
  obtain ⟨hcreated', hmatched', hsupported'⟩ := htotals'
  constructor
  · intro h
    have hcreatedEq := h.created
    have hupdatedEq := h.updated
    exact resultRows_eq_iff.mp (by omega)
  · intro h
    have hrows := resultRows_eq_iff.mpr h
    rw [hrows] at hmatched
    refine ⟨hsame, by omega, by omega, by omega, hsupported, fun owner howner => ?_⟩
    rw [lookup_complete hbatch howner]
    exact complete_of_noParallel h owner

end Grouped

/-- One membership asserted forward by `x` and backward by `y`, and one whose group is missing. -/
def mirroredRelations : List (String × Json) :=
  [("x", memberOfBand "y"),
    ("y", .obj [("direction", .str "backward"), ("target_discogs_artist_id", .str "x"), ("type", .str "member of band")]),
    ("x", memberOfBand "z")]

theorem createRelationshipEdgesBatch_agrees_mirrored : ∃ tx' complete tx'',
    createRelationshipEdgesBatch plainRuntime mirroredRelations ⟨twoArtists, {}⟩ = .ok (tx', complete) ∧
    GroupedAgrees plainRuntime mirroredRelations ⟨twoArtists, {}⟩ tx' tx'' complete := by
  obtain ⟨⟨tx', complete⟩, hbatch, _⟩ : ∃ r : Tx × List (String × Bool),
      createRelationshipEdgesBatch plainRuntime mirroredRelations ⟨twoArtists, {}⟩ = .ok r ∧
      r.1.stats.relationshipsCreated = 1 :=
    Except.exists_eq_ok (by decide +kernel)
  obtain ⟨hok, hagrees⟩ := createRelationshipEdgesBatch_agrees_iff plainRuntime mirroredRelations ⟨twoArtists, {}⟩
  obtain ⟨tx'', horder⟩ := hok.mp ⟨_, hbatch⟩
  exact ⟨tx', complete, tx'', hbatch, (hagrees tx' complete tx'' hbatch horder).mpr (by unfold NoParallel; decide +kernel)⟩

/-- Two parallel edges to `y`: one by one the missing `z` is skipped, in a group it is not, and
`x` is called complete. -/
theorem grouped_disagrees : ∃ tx' complete tx'',
    createRelationshipEdgesBatch plainRuntime [("x", memberOfBand "y"), ("x", memberOfBand "z")] ⟨parallelMembers, {}⟩ =
      .ok (tx', complete) ∧
    createRelationshipEdgesInOrder plainRuntime [("x", memberOfBand "y"), ("x", memberOfBand "z")] ⟨parallelMembers, {}⟩ =
      .ok tx'' ∧
    tx'.stats.relationshipsUpdated = 2 ∧ tx''.stats.relationshipsUpdated = 1 ∧
    tx'.stats.relationshipsSkippedMissingSide = 0 ∧ tx''.stats.relationshipsSkippedMissingSide = 1 ∧
    complete.lookup "x" = some true ∧ unresolved plainRuntime parallelMembers "x" (memberOfBand "z") = true := by
  obtain ⟨⟨tx', complete⟩, hbatch, hsee⟩ : ∃ r : Tx × List (String × Bool),
      createRelationshipEdgesBatch plainRuntime [("x", memberOfBand "y"), ("x", memberOfBand "z")]
        ⟨parallelMembers, {}⟩ = .ok r ∧
      (r.1.stats.relationshipsUpdated, r.1.stats.relationshipsSkippedMissingSide, r.2.lookup "x") = (2, 0, some true) :=
    Except.exists_eq_ok (by decide +kernel)
  obtain ⟨tx'', horder, hsee'⟩ : ∃ r : Tx,
      createRelationshipEdgesInOrder plainRuntime [("x", memberOfBand "y"), ("x", memberOfBand "z")]
        ⟨parallelMembers, {}⟩ = .ok r ∧
      (r.stats.relationshipsUpdated, r.stats.relationshipsSkippedMissingSide) = (1, 1) :=
    Except.exists_eq_ok (by decide +kernel)
  simp only [Prod.mk.injEq] at hsee hsee'
  exact ⟨tx', complete, tx'', hbatch, horder, hsee.1, hsee'.1, hsee.2.1, hsee'.2, hsee.2.2, by decide +kernel⟩

end Brainzgraphinator
