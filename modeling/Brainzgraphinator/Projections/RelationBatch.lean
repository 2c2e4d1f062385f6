-- SUMMARY: The grouped relationship UNWINDs: which edges they leave and when they report an owner complete.
import Brainzgraphinator.Projections.RelationMerge

/-!
# Relationships of a batch

`createRelationshipEdgesBatch` counts the supported relations of every owner,
merges their rows grouped by edge type and calls an owner complete when at least
as many rows came back. Since a row comes back once for every parallel edge, an
owner with an unresolved relation can be called complete: expected and returned
rows are balanced by `expected_add_surplus`.
-/

namespace Brainzgraphinator

variable {rt : Runtime}

/-! ## Supported relations -/

/-- The edge type of a relation and its row, when the type is supported. -/
def supported (rt : Runtime) (owner : String) (relation : Json) :
    Option (RelType × Option RelationRow) :=
  (relationRow rt owner relation).toOption.join

theorem supported_of_eq_ok {owner : String} {relation : Json}
    {r : Option (RelType × Option RelationRow)} (h : relationRow rt owner relation = .ok r) :
    supported rt owner relation = r := by
  rw [supported, h]
  rfl

/-- The rows of a relation belong to its owner, in one direction or the other. -/
theorem relationRow_owner {owner : String} {relation : Json} {type : RelType} {row : RelationRow}
    (h : relationRow rt owner relation = .ok (some (type, some row))) : row.owner = owner := by
  obtain ⟨fields, _, h⟩ := Except.bind_eq_ok.mp h
  obtain ⟨t, _, h⟩ := Except.bind_eq_ok.mp h
  cases t with
  | none => cases Except.pure_eq_ok.mp h
  | some t =>
    dsimp only at h
    split at h
    · cases Except.pure_eq_ok.mp h
    · split at h
      · cases Except.pure_eq_ok.mp h
        rfl
      · cases Except.pure_eq_ok.mp h
        rfl

theorem supported_owner {owner : String} {relation : Json} {type : RelType} {row : RelationRow}
    (h : supported rt owner relation = some (type, some row)) : row.owner = owner := by
  cases hr : relationRow rt owner relation with
  | error e => rw [supported, hr] at h; cases h
  | ok r =>
    rw [supported_of_eq_ok hr] at h
    exact relationRow_owner (hr.trans (congrArg Except.ok h))

/-- The row a relation of the owner merges, if it is supported and has a target. -/
def mergeOf (rt : Runtime) (relation : String × Json) : Option (RelType × RelationRow) :=
  (supported rt relation.1 relation.2).bind fun r => r.2.map (Prod.mk r.1)

theorem mergeOf_eq_some {relation : String × Json} {m : RelType × RelationRow} :
    mergeOf rt relation = some m ↔ supported rt relation.1 relation.2 = some (m.1, some m.2) := by
  obtain ⟨type, row⟩ := m
  simp only [mergeOf, Option.bind_eq_some_iff, Option.map_eq_some_iff, Prod.mk.injEq]
  constructor
  · rintro ⟨⟨t, r⟩, h, row', hrow, rfl, rfl⟩
    dsimp only at hrow
    rw [h, hrow]
  · intro h
    exact ⟨_, h, row, rfl, rfl, rfl⟩

/-! ## The plan -/

/-- The supported relations of an owner. -/
def expectedCount (rt : Runtime) (relations : List (String × Json)) (owner : String) : Nat :=
  relations.countP fun x => x.1 = owner && (supported rt x.1 x.2).isSome

/-- The plan counts the supported relations of every owner and groups their rows. -/
structure PlanSpec (rt : Runtime) (relations : List (String × Json)) (plan : RelationPlan) : Prop where
  nodup : (plan.expected.map Prod.fst).Nodup
  expected : ∀ owner, (plan.expected.lookup owner).getD 0 = expectedCount rt relations owner
  mem_expected : ∀ owner n, plan.expected.lookup owner = some n → 0 < n
  rows : (OrderedDict.ungroup plan.byType).Perm (relations.filterMap (mergeOf rt))

theorem PlanSpec.nil : PlanSpec rt [] {} :=
  ⟨List.nodup_nil, fun _ => rfl, nofun, List.Perm.refl _⟩

theorem expectedCount_concat (relations : List (String × Json)) (relation : String × Json)
    (owner : String) :
    expectedCount rt (relations ++ [relation]) owner = expectedCount rt relations owner +
      if relation.1 = owner ∧ (supported rt relation.1 relation.2).isSome then 1 else 0 := by
  simp [expectedCount, List.countP_append, List.countP_singleton]

theorem PlanSpec.add {relations : List (String × Json)} {relation : String × Json}
    {plan plan' : RelationPlan} (hplan : PlanSpec rt relations plan)
    (h : RelationPlan.add rt plan relation = .ok plan') :
    PlanSpec rt (relations ++ [relation]) plan' ∧
      ∃ r, relationRow rt relation.1 relation.2 = .ok r := by
  obtain ⟨r, hr, h⟩ := Except.bind_eq_ok.mp h
  refine ⟨?_, r, hr⟩
  have hsupported := supported_of_eq_ok hr
  cases r with
  | none =>
    cases Except.pure_eq_ok.mp h
    refine ⟨hplan.nodup, fun owner => ?_, hplan.mem_expected, ?_⟩
    · rw [hplan.expected, expectedCount_concat]
      simp [hsupported]
    · have hmerge : mergeOf rt relation = none := by simp [mergeOf, hsupported]
      simpa [List.filterMap_append, hmerge] using hplan.rows
  | some supportedRow =>
    obtain ⟨type, row⟩ := supportedRow
    -- Every supported relation is counted for its owner.
    have hcount : ∀ owner, ((OrderedDict.bump relation.1 1 plan.expected).lookup owner).getD 0 =
        expectedCount rt (relations ++ [relation]) owner := by
      intro owner
      rw [OrderedDict.getD_lookup_bump, hplan.expected, expectedCount_concat]
      simp [hsupported, eq_comm]
    have hpos : ∀ owner n, (OrderedDict.bump relation.1 1 plan.expected).lookup owner = some n →
        0 < n := by
      intro owner n hn
      by_cases ho : owner = relation.1
      · subst ho
        rw [OrderedDict.bump, OrderedDict.lookup_set_self] at hn
        cases hn
        exact Nat.succ_pos _
      · rw [OrderedDict.bump, OrderedDict.lookup_set_ne ho] at hn
        exact hplan.mem_expected owner n hn
    cases row with
    | none =>
      cases Except.pure_eq_ok.mp h
      refine ⟨OrderedDict.nodup_keys_bump hplan.nodup, hcount, hpos, ?_⟩
      have hmerge : mergeOf rt relation = none := by simp [mergeOf, hsupported]
      simpa [List.filterMap_append, hmerge] using hplan.rows
    | some row =>
      cases Except.pure_eq_ok.mp h
      refine ⟨OrderedDict.nodup_keys_bump hplan.nodup, hcount, hpos, ?_⟩
      have hmerge : mergeOf rt relation = some (type, row) := mergeOf_eq_some.mpr hsupported
      rw [List.filterMap_append]
      apply (OrderedDict.ungroup_set_append type row plan.byType).trans
      simpa [hmerge] using hplan.rows.append_right [(type, row)]

theorem planSpec {relations : List (String × Json)} {plan : RelationPlan}
    (h : relations.foldlM (RelationPlan.add rt) {} = .ok plan) :
    PlanSpec rt relations plan ∧ ∀ x ∈ relations, ∃ r, relationRow rt x.1 x.2 = .ok r := by
  induction relations using List.reverseRecOn generalizing plan with
  | nil =>
    cases Except.pure_eq_ok.mp h
    exact ⟨PlanSpec.nil, nofun⟩
  | append_singleton relations relation ih =>
    rw [List.foldlM_append] at h
    obtain ⟨plan₁, hprefix, h⟩ := Except.bind_eq_ok.mp h
    rw [List.foldlM_cons] at h
    obtain ⟨plan₂, hadd, h⟩ := Except.bind_eq_ok.mp h
    cases Except.pure_eq_ok.mp h
    obtain ⟨hspec, hok⟩ := ih hprefix
    obtain ⟨hspec', hr⟩ := hspec.add hadd
    refine ⟨hspec', fun x hx => ?_⟩
    rcases List.mem_append.mp hx with hx | hx
    · exact hok x hx
    · rw [List.mem_singleton.mp hx]
      exact hr

/-! ## The UNWINDs -/

/-- The result rows of an owner's merges on the graph. -/
def ownerRows (g : Graph) (merges : List (RelType × RelationRow)) (owner : String) : Nat :=
  ((merges.filter fun m => m.2.owner = owner).map fun m => matchedRows m.1 g m.2).sum

theorem ownerRows_append (g : Graph) (ms ms' : List (RelType × RelationRow)) (owner : String) :
    ownerRows g (ms ++ ms') owner = ownerRows g ms owner + ownerRows g ms' owner := by
  simp [ownerRows, List.filter_append]

theorem ownerRows_mergeAll (g : Graph) (ms ms' : List (RelType × RelationRow)) (owner : String) :
    ownerRows (mergeAll ms g) ms' owner = ownerRows g ms' owner := by
  simp only [ownerRows, matchedRows_mergeAll]

/-- One UNWIND merges its rows in order and counts their result rows by owner. -/
theorem relationBatchCypher_spec (type : RelType) (rows : List RelationRow) (g : Graph) :
    (relationBatchCypher type rows g).graph = mergeAll (rows.map (Prod.mk type)) g ∧
      ((relationBatchCypher type rows g).matched.map Prod.fst).Nodup ∧
      ∀ owner, ((relationBatchCypher type rows g).matched.lookup owner).getD 0 =
        ownerRows g (rows.map (Prod.mk type)) owner := by
  unfold relationBatchCypher
  induction rows using List.reverseRecOn with
  | nil => exact ⟨rfl, List.nodup_nil, fun _ => rfl⟩
  | append_singleton rows row ih =>
    obtain ⟨hgraph, hnodup, hcount⟩ := ih
    simp only [List.foldl_append, List.foldl_cons, List.foldl_nil, List.map_append, List.map_cons,
      List.map_nil, mergeAll_append]
    refine ⟨?_, ?_, fun owner => ?_⟩
    · simp only [RelationBatch.add, hgraph]
      rfl
    · simp only [RelationBatch.add]
      split
      · exact OrderedDict.nodup_keys_bump hnodup
      · exact hnodup
    · rw [ownerRows_append, ← hcount]
      simp only [RelationBatch.add, hgraph, matchedRows_mergeAll]
      split
      · rw [OrderedDict.getD_lookup_bump]
        by_cases ho : row.owner = owner
        · simp [ownerRows, ho]
        · simp [ownerRows, ho, Ne.symm ho]
      · rename_i hb
        have hb' : bothSides g row = false := by
          simpa [bothSides] using hb
        simp [ownerRows, List.filter_cons, matchedRows, hb', apply_ite]

/-- The UNWINDs of a plan merge all its rows. -/
theorem foldl_addType_spec (groups : List (RelType × List RelationRow)) (p : RelationProgress) :
    (groups.foldl RelationProgress.addType p).tx.graph =
        mergeAll (OrderedDict.ungroup groups) p.tx.graph ∧
      ∀ owner, ((groups.foldl RelationProgress.addType p).projected.lookup owner).getD 0 =
        (p.projected.lookup owner).getD 0 +
          ownerRows p.tx.graph (OrderedDict.ungroup groups) owner := by
  induction groups generalizing p with
  | nil => exact ⟨rfl, fun _ => rfl⟩
  | cons group groups ih =>
    obtain ⟨hgraph, hnodup, hcount⟩ := relationBatchCypher_spec group.1 group.2 p.tx.graph
    obtain ⟨ihgraph, ihcount⟩ := ih (p.addType group)
    have hungroup : OrderedDict.ungroup (group :: groups) =
        group.2.map (Prod.mk group.1) ++ OrderedDict.ungroup groups := rfl
    rw [List.foldl_cons, hungroup]
    refine ⟨?_, fun owner => ?_⟩
    · rw [ihgraph, mergeAll_append]
      simp only [RelationProgress.addType, hgraph]
    · rw [ihcount, ownerRows_append]
      simp only [RelationProgress.addType, hgraph, ownerRows_mergeAll]
      rw [OrderedDict.getD_lookup_foldl_bump hnodup, hcount, Nat.add_assoc]

/-! ## When an owner is complete -/

/-- The relation is supported but has no target, or an artist of it is missing. -/
def unresolved (rt : Runtime) (g : Graph) (owner : String) (relation : Json) : Bool :=
  match supported rt owner relation with
  | none => false
  | some (_, none) => true
  | some (_, some row) => !bothSides g row

/-- The parallel edges of the relation beyond the first. -/
def surplus (rt : Runtime) (g : Graph) (owner : String) (relation : Json) : Nat :=
  match supported rt owner relation with
  | some (type, some row) => matchedRows type g row - 1
  | _ => 0

theorem ownerRows_perm {g : Graph} {ms ms' : List (RelType × RelationRow)} (h : ms.Perm ms')
    (owner : String) : ownerRows g ms owner = ownerRows g ms' owner :=
  ((h.filter _).map _).sum_nat

/-- The rows a relation gets back from the merges. -/
def returnedRows (rt : Runtime) (g : Graph) (owner : String) (relation : Json) : Nat :=
  match supported rt owner relation with
  | some (type, some row) => matchedRows type g row
  | _ => 0

variable (rt) in
/-- One relation: expected and returned rows differ by what is unresolved and
what is parallel. -/
theorem expected_add_surplus_one (g : Graph) (owner : String) (relation : Json) :
    (supported rt owner relation).isSome.toNat + surplus rt g owner relation =
      returnedRows rt g owner relation + (unresolved rt g owner relation).toNat := by
  unfold surplus returnedRows unresolved
  match supported rt owner relation with
  | none => rfl
  | some (_, none) => rfl
  | some (type, some row) =>
    cases hb : bothSides g row with
    | false => simp [matchedRows, hb]
    | true =>
      simp only [matchedRows, hb, if_true, Option.isSome_some, Bool.toNat_true, Bool.not_true,
        Bool.toNat_false]
      omega

theorem expectedCount_cons (owner : String) (relation : Json) (relations : List Json) :
    expectedCount rt ((relation :: relations).map (Prod.mk owner)) owner =
      (supported rt owner relation).isSome.toNat +
        expectedCount rt (relations.map (Prod.mk owner)) owner := by
  rw [expectedCount, List.map_cons, List.countP_cons, expectedCount, Nat.add_comm]
  cases (supported rt owner relation).isSome <;> simp

theorem ownerRows_cons (g : Graph) (owner : String) (relation : Json) (relations : List Json) :
    ownerRows g (((relation :: relations).map (Prod.mk owner)).filterMap (mergeOf rt)) owner =
      returnedRows rt g owner relation +
        ownerRows g ((relations.map (Prod.mk owner)).filterMap (mergeOf rt)) owner := by
  rw [List.map_cons]
  cases hm : mergeOf rt (owner, relation) with
  | none =>
    rw [List.filterMap_cons_none hm]
    have hzero : returnedRows rt g owner relation = 0 := by
      unfold returnedRows
      split
      · rename_i type row hs
        rw [(mergeOf_eq_some (m := (type, row))).mpr hs] at hm
        cases hm
      · rfl
    rw [hzero, Nat.zero_add]
  | some m =>
    rw [List.filterMap_cons_some hm]
    have hs := mergeOf_eq_some.mp hm
    have howner : m.2.owner = owner := supported_owner hs
    simp [ownerRows, howner, returnedRows, hs]

variable (rt) in
/-- All relations of an owner. -/
theorem expected_add_surplus (g : Graph) (owner : String) (relations : List Json) :
    expectedCount rt (relations.map (Prod.mk owner)) owner + (relations.map (surplus rt g owner)).sum =
      ownerRows g ((relations.map (Prod.mk owner)).filterMap (mergeOf rt)) owner +
        relations.countP (unresolved rt g owner) := by
  induction relations with
  | nil => rfl
  | cons relation relations ih =>
    have hone := expected_add_surplus_one rt g owner relation
    rw [expectedCount_cons, ownerRows_cons, List.map_cons, List.sum_cons, List.countP_cons]
    cases hu : unresolved rt g owner relation with
    | false =>
      rw [hu, Bool.toNat_false] at hone
      simp only [Bool.false_eq_true, if_false]
      omega
    | true =>
      rw [hu, Bool.toNat_true] at hone
      simp only [if_true]
      omega

/-! ## The batch -/

/-- What the batch leaves: an edge for every resolvable relation, and the owners
it calls complete. -/
theorem createRelationshipEdgesBatch_spec {relations : List (String × Json)} {tx tx' : Tx}
    {complete : List (String × Bool)}
    (h : createRelationshipEdgesBatch rt relations tx = .ok (tx', complete)) :
    (∃ merges : List (RelType × RelationRow), merges.Perm (relations.filterMap (mergeOf rt)) ∧
      tx'.graph = mergeAll merges tx.graph) ∧
    (∀ x ∈ relations, ∃ r, relationRow rt x.1 x.2 = .ok r) ∧
    ∀ owner, (complete.lookup owner).getD true = true ↔
      expectedCount rt relations owner ≤
        ownerRows tx.graph (relations.filterMap (mergeOf rt)) owner := by
  obtain ⟨plan, hplan, h⟩ := Except.bind_eq_ok.mp h
  obtain ⟨hspec, hok⟩ := planSpec hplan
  rw [Except.pure_eq_ok] at h
  cases h
  obtain ⟨hgraph, hprojected⟩ := foldl_addType_spec plan.byType
    { tx := { tx with stats := { tx.stats with
      relationshipsSkippedMissingSide := tx.stats.relationshipsSkippedMissingSide + plan.skipped } } }
  refine ⟨⟨_, hspec.rows, hgraph⟩, hok, fun owner => ?_⟩
  have hprojected := hprojected owner
  rw [ownerRows_perm hspec.rows] at hprojected
  have hlookup : ∀ (d : List (String × Nat)) (f : String × Nat → Bool),
      (d.map fun e => (e.1, f e)).lookup owner = (d.lookup owner).map fun n => f (owner, n) := by
    intro d f
    induction d with
    | nil => rfl
    | cons e d ih =>
      obtain ⟨k, n⟩ := e
      rw [List.map_cons, OrderedDict.lookup_cons_ite, OrderedDict.lookup_cons_ite, ih]
      by_cases hk : owner = k
      · simp [hk]
      · simp [hk]
  rw [hlookup]
  have hexpected := hspec.expected owner
  cases hn : plan.expected.lookup owner with
  | none =>
    rw [hn, Option.getD_none] at hexpected
    simp [← hexpected]
  | some n =>
    rw [hn, Option.getD_some] at hexpected
    simp only [List.lookup_nil, Option.getD_none, Nat.zero_add] at hprojected
    simp [hprojected, hexpected]

theorem exists_relationPlan_add {relation : String × Json} (h : ∃ r, relationRow rt relation.1 relation.2 = .ok r)
    (plan : RelationPlan) : ∃ plan', RelationPlan.add rt plan relation = .ok plan' := by
  obtain ⟨r, hr⟩ := h
  rw [RelationPlan.add, hr]
  rcases r with _ | ⟨type, _ | row⟩
  · exact ⟨_, rfl⟩
  · exact ⟨_, rfl⟩
  · exact ⟨_, rfl⟩

/-- The grouped write goes through where every relation can be read. -/
theorem exists_createRelationshipEdgesBatch {relations : List (String × Json)}
    (h : ∀ x ∈ relations, ∃ r, relationRow rt x.1 x.2 = .ok r) (tx : Tx) :
    ∃ r, createRelationshipEdgesBatch rt relations tx = .ok r := by
  obtain ⟨plan, hplan⟩ := Except.exists_foldlM_eq_ok (fun x hx => exists_relationPlan_add (h x hx)) {}
  exact ⟨_, Except.bind_eq_ok.mpr ⟨plan, hplan, rfl⟩⟩

end Brainzgraphinator
