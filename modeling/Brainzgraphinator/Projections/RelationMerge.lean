-- SUMMARY: Merging relationship edges, one row at a time or grouped by type, and what the row counts say.
import Brainzgraphinator.Projections.EntityBatch

/-!
# Merging relationships

Both artist write paths merge relationship rows one after another (`mergeAll`); a
batch only reorders them by edge type. The edges afterwards are those before plus
one for every row whose artists exist (`hasEdge_mergeAll`). The number of result
rows, which a batch compares with the number of relations it expects, counts
parallel edges too (`matchedRows`).
-/

namespace Brainzgraphinator

/-! ## One row -/

/-- The edge of the row, projected by MusicBrainz. -/
def HasEdge (g : Graph) (type : RelType) (row : RelationRow) : Prop :=
  ∃ e ∈ g.rels, sameRelation type row e = true ∧ e.props "source" = .str mediaSource

/-- The rows name the same two artists in the same direction. -/
def SameEnds (row row' : RelationRow) : Prop :=
  row.sourceId = row'.sourceId ∧ row.targetId = row'.targetId

theorem sameRelation_iff {type : RelType} {row : RelationRow} {e : Edge} :
    sameRelation type row e = true ↔
      e.type = type ∧ e.src = artistKey row.sourceId ∧ e.dst = artistKey row.targetId := by
  simp [sameRelation]

theorem sameRelation_setProps (type : RelType) (row : RelationRow) (f : Props → Props) (e : Edge) :
    sameRelation type row (e.setProps f) = sameRelation type row e := rfl

/-- One edge cannot belong to rows that differ in type or ends. -/
theorem sameRelation_unique {type type' : RelType} {row row' : RelationRow} {e : Edge}
    (h : sameRelation type row e = true) (h' : sameRelation type' row' e = true) :
    type = type' ∧ SameEnds row row' := by
  obtain ⟨htype, hsrc, hdst⟩ := sameRelation_iff.mp h
  obtain ⟨htype', hsrc', hdst'⟩ := sameRelation_iff.mp h'
  exact ⟨htype.symm.trans htype', artistKey_inj.mp (hsrc.symm.trans hsrc'),
    artistKey_inj.mp (hdst.symm.trans hdst')⟩

theorem HasEdge.congr {g : Graph} {type : RelType} {row row' : RelationRow} (h : SameEnds row row')
    (hedge : HasEdge g type row) : HasEdge g type row' := by
  obtain ⟨e, he, hsame, hsource⟩ := hedge
  refine ⟨e, he, ?_, hsource⟩
  rw [sameRelation_iff] at hsame ⊢
  rw [← h.1, ← h.2]
  exact hsame

section Merge

variable {type type' : RelType} {row row' : RelationRow} {g : Graph}

@[simp] theorem node_mergeRelation (type : RelType) (g : Graph) (row : RelationRow) :
    (mergeRelation type g row).node = g.node := by
  unfold mergeRelation
  split
  · exact PropertyGraph.Graph.node_mergeRel _ _ _ _
  · rfl

@[simp] theorem bothSides_mergeRelation :
    bothSides (mergeRelation type g row) row' = bothSides g row' := by
  simp [bothSides]

/-- The relationships after a merge. -/
theorem rels_mergeRelation (h : bothSides g row = true) :
    (mergeRelation type g row).rels =
      if g.rels.any (sameRelation type row) then
        g.rels.map fun e => if sameRelation type row e then
          e.setProps (fun p => Function.update p "source" (.str mediaSource)) else e
      else g.rels ++ [⟨type, artistKey row.sourceId, artistKey row.targetId,
        Function.update noProps "source" (.str mediaSource)⟩] := by
  rw [mergeRelation, if_pos h]
  simp only [bothSides, Bool.and_eq_true] at h
  by_cases hany : g.rels.any (sameRelation type row)
  · rw [if_pos hany, PropertyGraph.Graph.rels_mergeRel_of_any hany]
  · rw [if_neg hany, PropertyGraph.Graph.rels_mergeRel_of_not_any hany h.1 h.2]
    rfl

theorem mergeRelation_of_not_bothSides (h : ¬ bothSides g row = true) :
    mergeRelation type g row = g := by
  rw [mergeRelation, if_neg h]

/-- A merge keeps every edge. -/
theorem HasEdge.mergeRelation (h : HasEdge g type' row') :
    HasEdge (mergeRelation type g row) type' row' := by
  by_cases hb : bothSides g row = true
  · obtain ⟨e, he, hsame, hsource⟩ := h
    rw [HasEdge, rels_mergeRelation hb]
    split
    · refine ⟨_, List.mem_map_of_mem he, ?_, ?_⟩
      · split
        · rw [sameRelation_setProps]; exact hsame
        · exact hsame
      · split
        · simp
        · exact hsource
    · exact ⟨e, List.mem_append_left _ he, hsame, hsource⟩
  · rw [mergeRelation_of_not_bothSides hb]
    exact h

/-- After a merge between existing artists the edge is there. -/
theorem hasEdge_mergeRelation_self (hb : bothSides g row = true) :
    HasEdge (mergeRelation type g row) type row := by
  rw [HasEdge, rels_mergeRelation hb]
  by_cases hany : g.rels.any (sameRelation type row) = true
  · rw [if_pos hany]
    obtain ⟨e, he, hsame⟩ := List.any_eq_true.mp hany
    refine ⟨_, List.mem_map_of_mem he, ?_⟩
    rw [if_pos hsame]
    exact ⟨hsame, by simp⟩
  · rw [if_neg hany]
    refine ⟨_, List.mem_append_right _ (List.mem_singleton.mpr rfl), ?_⟩
    exact ⟨sameRelation_iff.mpr ⟨rfl, rfl, rfl⟩, by simp⟩

/-- A merge adds its own edge only. -/
theorem hasEdge_mergeRelation_inv (h : HasEdge (mergeRelation type g row) type' row') :
    HasEdge g type' row' ∨ (bothSides g row = true ∧ type = type' ∧ SameEnds row row') := by
  by_cases hb : bothSides g row = true
  · obtain ⟨e, he, hsame, hsource⟩ := h
    rw [rels_mergeRelation hb] at he
    by_cases hrow : sameRelation type row e = true
    · exact .inr ⟨hb, sameRelation_unique hrow hsame⟩
    · refine .inl ⟨e, ?_, hsame, hsource⟩
      split at he
      · obtain ⟨e₀, he₀, heq⟩ := List.mem_map.mp he
        split at heq
        · rename_i h₀
          rw [← heq, sameRelation_setProps] at hrow
          exact absurd h₀ hrow
        · rw [← heq]
          exact he₀
      · rcases List.mem_append.mp he with he | he
        · exact he
        · rw [List.mem_singleton.mp he] at hrow
          exact absurd (sameRelation_iff.mpr ⟨rfl, rfl, rfl⟩) hrow
  · rw [mergeRelation_of_not_bothSides hb] at h
    exact .inl h

/-- A merge can only create the first edge between two artists, so it does not
change how many rows a later merge of any pair matches. -/
theorem matchedRows_mergeRelation :
    matchedRows type' (mergeRelation type g row) row' = matchedRows type' g row' := by
  rw [matchedRows, bothSides_mergeRelation, matchedRows]
  split
  · by_cases hb : bothSides g row = true
    · rw [rels_mergeRelation hb]
      split
      · have hlen : ∀ rels : List Edge, ((rels.map fun e => if sameRelation type row e then
            e.setProps (fun p => Function.update p "source" (.str mediaSource)) else e).filter
            (sameRelation type' row')).length = (rels.filter (sameRelation type' row')).length := by
          intro rels
          rw [← List.countP_eq_length_filter, ← List.countP_eq_length_filter, List.countP_map]
          refine List.countP_congr fun e _ => ?_
          simp only [Function.comp_apply]
          split <;> rfl
        rw [hlen]
      · rename_i hany
        rw [List.filter_append]
        by_cases hsame : sameRelation type' row' ⟨type, artistKey row.sourceId,
            artistKey row.targetId, Function.update noProps "source" (.str mediaSource)⟩ = true
        · -- The edge just created is the first of the pair.
          have hnone : g.rels.filter (sameRelation type' row') = [] := by
            rw [List.filter_eq_nil_iff]
            intro e he hmatch
            obtain ⟨htype, hends⟩ := sameRelation_unique hsame
              (sameRelation_iff.mpr ⟨rfl, rfl, rfl⟩ : sameRelation type row _ = true)
            refine hany (List.any_eq_true.mpr ⟨e, he, ?_⟩)
            rw [sameRelation_iff] at hmatch ⊢
            rw [← htype, ← hends.1, ← hends.2]
            exact hmatch
          simp [hnone, hsame]
        · simp [hsame]
    · rw [mergeRelation_of_not_bothSides hb]
  · rfl

end Merge

/-! ## Many rows -/

/-- Merge the rows one after another. -/
def mergeAll (merges : List (RelType × RelationRow)) (g : Graph) : Graph :=
  merges.foldl (fun g m => mergeRelation m.1 g m.2) g

section MergeAll

variable {merges : List (RelType × RelationRow)} {g : Graph}

@[simp] theorem node_mergeAll : (mergeAll merges g).node = g.node := by
  unfold mergeAll
  induction merges generalizing g with
  | nil => rfl
  | cons m merges ih => rw [List.foldl_cons, ih, node_mergeRelation]

theorem mergeAll_append (merges' : List (RelType × RelationRow)) :
    mergeAll (merges ++ merges') g = mergeAll merges' (mergeAll merges g) :=
  List.foldl_append

theorem matchedRows_mergeAll {type : RelType} {row : RelationRow} :
    matchedRows type (mergeAll merges g) row = matchedRows type g row := by
  unfold mergeAll
  induction merges generalizing g with
  | nil => rfl
  | cons m merges ih => rw [List.foldl_cons, ih, matchedRows_mergeRelation]

/-- The edges after the merges: those before, and one for every row whose
artists exist. -/
theorem hasEdge_mergeAll {type : RelType} {row : RelationRow} :
    HasEdge (mergeAll merges g) type row ↔ HasEdge g type row ∨
      ∃ m ∈ merges, m.1 = type ∧ SameEnds m.2 row ∧ bothSides g m.2 = true := by
  unfold mergeAll
  induction merges generalizing g with
  | nil => simp
  | cons m merges ih =>
    rw [List.foldl_cons, ih]
    simp only [bothSides_mergeRelation, List.mem_cons, exists_eq_or_imp]
    constructor
    · rintro (h | h)
      · rcases hasEdge_mergeRelation_inv h with h | ⟨hb, htype, hends⟩
        · exact .inl h
        · exact .inr (.inl ⟨htype, hends, hb⟩)
      · exact .inr (.inr h)
    · rintro (h | ⟨rfl, hends, hb⟩ | h)
      · exact .inl h.mergeRelation
      · exact .inl ((hasEdge_mergeRelation_self hb).congr hends)
      · exact .inr h

end MergeAll

end Brainzgraphinator
