-- SUMMARY: Parts of a property graph: what an update does to a part it belongs to, and to one it does not.
import Brainzgraphinator.Base.PropertyGraph

/-!
# Parts of a graph

A `Part` selects nodes by their key and relationships by their ends. `SameOn part`
relates two graphs that do not differ in the part.

Every update comes with two lemmas. Made on two graphs that are the same on a part, it
leaves them so, provided that the relationships it looks at are in the part. Made
outside the part, it leaves the part as it was.
-/

namespace PropertyGraph

variable {κ τ ν ρ : Type*}

structure Part (κ : Type*) where
  nodes : κ → Prop
  /-- The relationships from the first key to the second. -/
  rels : κ → κ → Bool

/-- The relationship is in the part. -/
def Part.has (part : Part κ) (e : Rel κ τ ρ) : Bool := part.rels e.src e.dst

structure SameOn (part : Part κ) (g g' : Graph κ τ ν ρ) : Prop where
  node : ∀ k, part.nodes k → g.node k = g'.node k
  rels : g.rels.filter part.has = g'.rels.filter part.has

namespace SameOn

variable {part : Part κ} {g g' g'' : Graph κ τ ν ρ}

theorem refl (g : Graph κ τ ν ρ) : SameOn part g g := ⟨fun _ _ => rfl, rfl⟩

theorem symm (h : SameOn part g g') : SameOn part g' g := ⟨fun k hk => (h.node k hk).symm, h.rels.symm⟩

theorem trans (h : SameOn part g g') (h' : SameOn part g' g'') : SameOn part g g'' :=
  ⟨fun k hk => (h.node k hk).trans (h'.node k hk), h.rels.trans h'.rels⟩

theorem equivalence (part : Part κ) : Equivalence (SameOn (τ := τ) (ν := ν) (ρ := ρ) part) := ⟨refl, symm, trans⟩

/-! ### Reading -/

/-- Lists that agree on every class are permutations of each other. -/
theorem perm_of_filter_eq {α γ : Type*} [DecidableEq γ] {f : α → γ} {l l' : List α}
    (h : ∀ c, (l.filter fun x => f x = c) = l'.filter fun x => f x = c) : l.Perm l' := by
  classical
  refine List.perm_iff_count.mpr fun x => ?_
  have hclass : ∀ l : List α, (l.filter fun y => f y = f x).count x = l.count x :=
    fun l => List.count_filter (decide_eq_true rfl)
  rw [← hclass l, h, hclass l']

theorem filter_eq (h : SameOn part g g') {p : Rel κ τ ρ → Bool} (hp : ∀ e, p e = true → part.has e = true) :
    g.rels.filter p = g'.rels.filter p := by
  have hsub : ∀ g : Graph κ τ ν ρ, g.rels.filter p = (g.rels.filter part.has).filter p := by
    intro g
    rw [List.filter_filter]
    refine List.filter_congr fun e _ => ?_
    cases hpe : p e with
    | false => rfl
    | true => rw [hp e hpe]; rfl
  rw [hsub g, hsub g', h.rels]

theorem any_eq (h : SameOn part g g') {p : Rel κ τ ρ → Bool} (hp : ∀ e, p e = true → part.has e = true) :
    g.rels.any p = g'.rels.any p := by
  rw [Bool.eq_iff_iff, List.any_eq_true, List.any_eq_true]
  have hmem : ∀ e, p e = true → (e ∈ g.rels ↔ e ∈ g'.rels) := by
    intro e hpe
    have hboth := congrArg (e ∈ ·) h.rels
    simpa only [List.mem_filter, hp e hpe, and_true, eq_iff_iff] using hboth
  constructor
  · rintro ⟨e, he, hpe⟩
    exact ⟨e, (hmem e hpe).mp he, hpe⟩
  · rintro ⟨e, he, hpe⟩
    exact ⟨e, (hmem e hpe).mpr he, hpe⟩

/-! ### Updates of nodes -/

section Nodes

variable [DecidableEq κ]

theorem update (h : SameOn part g g') (k : κ) (f : ν → ν) : SameOn part (g.update k f) (g'.update k f) := by
  refine ⟨fun k' hk' => ?_, h.rels⟩
  rw [Graph.node_update, Graph.node_update, h.node k' hk']

theorem update_outside {k : κ} (hk : ¬part.nodes k) (f : ν → ν) (g : Graph κ τ ν ρ) :
    SameOn part (g.update k f) g := by
  refine ⟨fun k' hk' => Graph.node_update_ne ?_ f g, rfl⟩
  rintro rfl
  exact hk hk'

theorem mergeNode (h : SameOn part g g') (k : κ) (init : ν) :
    SameOn part (g.mergeNode k init) (g'.mergeNode k init) := by
  refine ⟨fun k' hk' => ?_, h.rels⟩
  rw [Graph.node_mergeNode, Graph.node_mergeNode, h.node k' hk']

theorem mergeNode_outside {k : κ} (hk : ¬part.nodes k) (init : ν) (g : Graph κ τ ν ρ) :
    SameOn part (g.mergeNode k init) g := by
  refine ⟨fun k' hk' => Graph.node_mergeNode_ne ?_ init g, rfl⟩
  rintro rfl
  exact hk hk'

/-- Nodes are deleted from both graphs or from neither, if the part has every
relationship at one of them. -/
theorem deleteNodes (h : SameOn part g g') {ks : List κ}
    (hks : ∀ e : Rel κ τ ρ, e.src ∈ ks ∨ e.dst ∈ ks → part.has e = true) :
    Option.Rel (SameOn part) (g.deleteNodes ks) (g'.deleteNodes ks) := by
  have hfree : ∀ g g' : Graph κ τ ν ρ, SameOn part g g' → (∀ e ∈ g.rels, e.src ∉ ks ∧ e.dst ∉ ks) →
      ∀ e ∈ g'.rels, e.src ∉ ks ∧ e.dst ∉ ks := by
    intro g g' h hfree e he
    by_contra hends
    have htouches : e.src ∈ ks ∨ e.dst ∈ ks := by
      by_contra hnot
      exact hends (not_or.mp hnot)
    have hmem : e ∈ g'.rels.filter part.has := List.mem_filter.mpr ⟨he, hks e htouches⟩
    rw [← h.rels] at hmem
    exact hends (hfree e (List.mem_of_mem_filter hmem))
  by_cases hg : ∀ e ∈ g.rels, e.src ∉ ks ∧ e.dst ∉ ks
  · have hg' := hfree g g' h hg
    obtain ⟨g₁, hg₁⟩ := Graph.exists_deleteNodes hg
    obtain ⟨g₁', hg₁'⟩ := Graph.exists_deleteNodes hg'
    obtain ⟨hrels, hnode⟩ := Graph.deleteNodes_eq_some hg₁
    obtain ⟨hrels', hnode'⟩ := Graph.deleteNodes_eq_some hg₁'
    rw [hg₁, hg₁']
    refine .some ⟨fun k hk => ?_, by rw [hrels, hrels', h.rels]⟩
    rw [hnode, hnode', h.node k hk]
  · have hg' : ¬∀ e ∈ g'.rels, e.src ∉ ks ∧ e.dst ∉ ks := fun hall => hg (hfree g' g h.symm hall)
    rw [Graph.deleteNodes, Graph.deleteNodes, dif_neg hg, dif_neg hg']
    exact .none

theorem deleteNodes_outside {ks : List κ} (hks : ∀ k ∈ ks, ¬part.nodes k) (h : g.deleteNodes ks = some g') :
    SameOn part g' g := by
  obtain ⟨hrels, hnode⟩ := Graph.deleteNodes_eq_some h
  refine ⟨fun k hk => ?_, by rw [hrels]⟩
  rw [hnode, if_neg fun hmem => hks k hmem hk]

end Nodes

/-! ### Updates of relationships -/

theorem deleteRels (h : SameOn part g g') (p : Rel κ τ ρ → Bool) : SameOn part (g.deleteRels p) (g'.deleteRels p) := by
  refine ⟨h.node, ?_⟩
  rw [Graph.rels_deleteRels, Graph.rels_deleteRels, List.filter_comm, h.rels, List.filter_comm]

theorem deleteRels_outside {p : Rel κ τ ρ → Bool} (hp : ∀ e, p e = true → part.has e = false)
    (g : Graph κ τ ν ρ) : SameOn part (g.deleteRels p) g := by
  refine ⟨fun _ _ => rfl, ?_⟩
  rw [Graph.rels_deleteRels, List.filter_filter]
  refine List.filter_congr fun e _ => ?_
  cases hpe : p e with
  | false => exact Bool.and_true _
  | true => rw [hp e hpe]; rfl

theorem mergeRel (h : SameOn part g g') {same : Rel κ τ ρ → Bool} {fresh : Rel κ τ ρ}
    (hsame : ∀ e, same e = true → part.has e = true) (hsrc : part.nodes fresh.src) (hdst : part.nodes fresh.dst)
    (f : ρ → ρ) : SameOn part (g.mergeRel same fresh f) (g'.mergeRel same fresh f) := by
  refine ⟨fun k hk => by rw [Graph.node_mergeRel, Graph.node_mergeRel, h.node k hk], ?_⟩
  have hany := h.any_eq hsame
  have hmap : ∀ es : List (Rel κ τ ρ), (es.map fun e => if same e then e.setProps f else e).filter part.has =
      (es.filter part.has).map fun e => if same e then e.setProps f else e := by
    intro es
    rw [List.filter_map]
    congr 1
    refine List.filter_congr fun e _ => ?_
    rw [Function.comp_apply]
    split <;> rfl
  by_cases hg : g.rels.any same = true
  · rw [Graph.rels_mergeRel_of_any hg, Graph.rels_mergeRel_of_any (hany ▸ hg), hmap, hmap, h.rels]
  · have hg' : ¬g'.rels.any same = true := hany ▸ hg
    simp only [Graph.mergeRel, hg, hg', if_false, h.node _ hsrc, h.node _ hdst, Bool.false_eq_true]
    split
    · simp only [List.filter_append, h.rels]
    · exact h.rels

theorem mergeRel_outside {same : Rel κ τ ρ → Bool} {fresh : Rel κ τ ρ}
    (hsame : ∀ e, same e = true → part.has e = false) (hfresh : part.has fresh = false) (f : ρ → ρ)
    (g : Graph κ τ ν ρ) : SameOn part (g.mergeRel same fresh f) g := by
  refine ⟨fun k _ => by rw [Graph.node_mergeRel], ?_⟩
  exact Graph.filter_mergeRel_of_disjoint (fun e he => ⟨hsame e he, hsame e he⟩) hfresh g

/-! ### Loops -/

theorem foldl {β : Type*} {step : Graph κ τ ν ρ → β → Graph κ τ ν ρ} (hstep : ∀ g g' x, SameOn part g g' →
    SameOn part (step g x) (step g' x)) (xs : List β) (h : SameOn part g g') :
    SameOn part (xs.foldl step g) (xs.foldl step g') := by
  induction xs generalizing g g' with
  | nil => exact h
  | cons x xs ih => exact ih (hstep g g' x h)

theorem foldl_outside {β : Type*} {step : Graph κ τ ν ρ → β → Graph κ τ ν ρ}
    (hstep : ∀ g x, SameOn part (step g x) g) (xs : List β) (g : Graph κ τ ν ρ) :
    SameOn part (xs.foldl step g) g := by
  induction xs generalizing g with
  | nil => exact .refl g
  | cons x xs ih => exact (ih (step g x)).trans (hstep g x)

end SameOn

/-! ## Parallel relationships -/

namespace Graph

variable {same P : Rel κ τ ρ → Bool} {fresh : Rel κ τ ρ} {f : ρ → ρ}

/-- A merge adds to a class of relationships only where the class was empty. -/
theorem length_filter_mergeRel_le (hset : ∀ e, P (e.setProps f) = P e)
    (hfresh : P fresh = true → ∀ e, P e = true → same e = true) (g : Graph κ τ ν ρ) :
    ((g.mergeRel same fresh f).rels.filter P).length ≤ max 1 (g.rels.filter P).length := by
  unfold mergeRel
  split
  · have hmap : ((g.rels.map fun e => if same e then e.setProps f else e).filter P).length =
        (g.rels.filter P).length := by
      rw [List.filter_map, List.length_map]
      refine congrArg List.length (List.filter_congr fun e _ => ?_)
      rw [Function.comp_apply]
      split
      · exact hset e
      · rfl
    rw [hmap]
    exact Nat.le_max_right _ _
  · rename_i hnone
    split
    · simp only [List.filter_append, List.length_append]
      cases hP : P fresh with
      | false =>
        have hnil : [fresh.setProps f].filter P = [] := by rw [List.filter_singleton, hset, hP]; rfl
        rw [hnil, List.length_nil, Nat.add_zero]
        exact Nat.le_max_right _ _
      | true =>
        have hnil : g.rels.filter P = [] := by
          rw [List.filter_eq_nil_iff]
          exact fun e he hPe => hnone (List.any_eq_true.mpr ⟨e, he, hfresh hP e hPe⟩)
        rw [hnil, List.filter_singleton, hset, hP]
        exact Nat.le_refl _
    · exact Nat.le_max_right _ _

end Graph

end PropertyGraph
