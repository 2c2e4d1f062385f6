-- SUMMARY: Closed property multigraphs keyed by node, with the updates a graph query language performs on them.
import Mathlib.Data.List.Basic

/-!
# Property graphs

A directed multigraph whose nodes and relationships carry properties. A node is
identified by its key, so a key names at most one node; any number of
relationships may join the same two nodes. `closed` is the store's own
integrity rule: a relationship never outlives an endpoint.

The updates are those of a graph query language: `update` is MATCH … SET,
`mergeNode` is MERGE of a node with its ON CREATE properties, `mergeRel` is
MERGE of a relationship followed by SET, `deleteRels` and `deleteNodes` are
DELETE. A plain DELETE of a node that still has a relationship fails.
-/

namespace PropertyGraph

/-- A relationship of type `type` from `src` to `dst`. -/
structure Rel (κ τ ρ : Type*) where
  type : τ
  src : κ
  dst : κ
  props : ρ

namespace Rel

variable {κ τ ρ : Type*}

def setProps (f : ρ → ρ) (e : Rel κ τ ρ) : Rel κ τ ρ := { e with props := f e.props }

@[simp] theorem setProps_type (f : ρ → ρ) (e : Rel κ τ ρ) : (e.setProps f).type = e.type := rfl
@[simp] theorem setProps_src (f : ρ → ρ) (e : Rel κ τ ρ) : (e.setProps f).src = e.src := rfl
@[simp] theorem setProps_dst (f : ρ → ρ) (e : Rel κ τ ρ) : (e.setProps f).dst = e.dst := rfl
@[simp] theorem setProps_props (f : ρ → ρ) (e : Rel κ τ ρ) :
    (e.setProps f).props = f e.props := rfl

/-- The relationship has `k` at one of its ends. -/
def Touches (e : Rel κ τ ρ) (k : κ) : Prop := e.src = k ∨ e.dst = k

instance [DecidableEq κ] (e : Rel κ τ ρ) (k : κ) : Decidable (e.Touches k) :=
  inferInstanceAs (Decidable (_ ∨ _))

end Rel

/-- A property multigraph in which every relationship has both of its ends. -/
@[ext] structure Graph (κ τ ν ρ : Type*) where
  node : κ → Option ν
  rels : List (Rel κ τ ρ)
  closed : ∀ e ∈ rels, (node e.src).isSome ∧ (node e.dst).isSome

namespace Graph

variable {κ τ ν ρ : Type*}

/-! ## Updates -/

/-- Apply `f` to the properties of the node at `k`, if there is one. -/
def update [DecidableEq κ] (k : κ) (f : ν → ν) (g : Graph κ τ ν ρ) : Graph κ τ ν ρ where
  node k' := if k' = k then (g.node k').map f else g.node k'
  rels := g.rels
  closed e he := by
    obtain ⟨hs, hd⟩ := g.closed e he
    constructor <;> split <;> simpa

/-- Create the node at `k` with properties `init` unless it exists. -/
def mergeNode [DecidableEq κ] (k : κ) (init : ν) (g : Graph κ τ ν ρ) : Graph κ τ ν ρ where
  node k' := if k' = k then some ((g.node k').getD init) else g.node k'
  rels := g.rels
  closed e he := by
    obtain ⟨hs, hd⟩ := g.closed e he
    constructor <;> split <;> simp_all

/-- Apply `f` to the properties of every relationship that matches `same`, or
create `fresh` with `f` applied when none does and both its ends exist. -/
def mergeRel (same : Rel κ τ ρ → Bool) (fresh : Rel κ τ ρ) (f : ρ → ρ)
    (g : Graph κ τ ν ρ) : Graph κ τ ν ρ :=
  if g.rels.any same then
    { node := g.node
      rels := g.rels.map fun e => if same e then e.setProps f else e
      closed := by
        intro e he
        obtain ⟨e₀, he₀, rfl⟩ := List.mem_map.mp he
        split <;> simpa using g.closed e₀ he₀ }
  else if h : (g.node fresh.src).isSome ∧ (g.node fresh.dst).isSome then
    { node := g.node
      rels := g.rels ++ [fresh.setProps f]
      closed := by
        intro e he
        rcases List.mem_append.mp he with he | he
        · exact g.closed e he
        · rw [List.mem_singleton.mp he]; exact h }
  else g

/-- Delete every relationship that satisfies `p`. -/
def deleteRels (p : Rel κ τ ρ → Bool) (g : Graph κ τ ν ρ) : Graph κ τ ν ρ where
  node := g.node
  rels := g.rels.filter fun e => !p e
  closed e he := g.closed e (List.mem_of_mem_filter he)

/-- Delete the nodes `ks`; fails while a relationship still touches one of them. -/
def deleteNodes [DecidableEq κ] (ks : List κ) (g : Graph κ τ ν ρ) : Option (Graph κ τ ν ρ) :=
  if h : ∀ e ∈ g.rels, e.src ∉ ks ∧ e.dst ∉ ks then
    some
      { node := fun k => if k ∈ ks then none else g.node k
        rels := g.rels
        closed := fun e he => by
          simpa [(h e he).1, (h e he).2] using g.closed e he }
  else none

/-! ## What an update leaves -/

theorem node_update [DecidableEq κ] (k k' : κ) (f : ν → ν) (g : Graph κ τ ν ρ) :
    (g.update k f).node k' = if k' = k then (g.node k').map f else g.node k' := rfl

@[simp] theorem node_update_ne [DecidableEq κ] {k k' : κ} (h : k' ≠ k) (f : ν → ν) (g : Graph κ τ ν ρ) :
    (g.update k f).node k' = g.node k' := by
  simp [node_update, h]

@[simp] theorem isSome_node_update [DecidableEq κ] (k k' : κ) (f : ν → ν) (g : Graph κ τ ν ρ) :
    ((g.update k f).node k').isSome = (g.node k').isSome := by
  rw [node_update]; split <;> simp

@[simp] theorem rels_update [DecidableEq κ] (k : κ) (f : ν → ν) (g : Graph κ τ ν ρ) :
    (g.update k f).rels = g.rels := rfl

theorem node_mergeNode [DecidableEq κ] (k k' : κ) (init : ν) (g : Graph κ τ ν ρ) :
    (g.mergeNode k init).node k' =
      if k' = k then some ((g.node k').getD init) else g.node k' := rfl

@[simp] theorem node_mergeNode_ne [DecidableEq κ] {k k' : κ} (h : k' ≠ k) (init : ν) (g : Graph κ τ ν ρ) :
    (g.mergeNode k init).node k' = g.node k' := by
  simp [node_mergeNode, h]

/-- Merging a node leaves every node that was there as it was. -/
theorem node_mergeNode_of_eq_some [DecidableEq κ] {k k' : κ} {init n : ν} {g : Graph κ τ ν ρ}
    (h : g.node k' = some n) : (g.mergeNode k init).node k' = some n := by
  rw [node_mergeNode]; split <;> simp [h]

theorem isSome_node_mergeNode [DecidableEq κ] (k k' : κ) (init : ν) (g : Graph κ τ ν ρ) :
    ((g.mergeNode k init).node k').isSome ↔ k' = k ∨ (g.node k').isSome := by
  rw [node_mergeNode]; split <;> simp_all

@[simp] theorem rels_mergeNode [DecidableEq κ] (k : κ) (init : ν) (g : Graph κ τ ν ρ) :
    (g.mergeNode k init).rels = g.rels := rfl

@[simp] theorem node_mergeRel (same : Rel κ τ ρ → Bool) (fresh : Rel κ τ ρ) (f : ρ → ρ)
    (g : Graph κ τ ν ρ) : (g.mergeRel same fresh f).node = g.node := by
  unfold mergeRel; split
  · rfl
  · split <;> rfl

theorem rels_mergeRel_of_any {same : Rel κ τ ρ → Bool} {g : Graph κ τ ν ρ}
    (h : g.rels.any same) (fresh : Rel κ τ ρ) (f : ρ → ρ) :
    (g.mergeRel same fresh f).rels = g.rels.map fun e => if same e then e.setProps f else e := by
  simp only [mergeRel, h, if_true]

theorem rels_mergeRel_of_not_any {same : Rel κ τ ρ → Bool} {fresh : Rel κ τ ρ}
    {g : Graph κ τ ν ρ} (h : ¬ g.rels.any same) (hs : (g.node fresh.src).isSome)
    (hd : (g.node fresh.dst).isSome) (f : ρ → ρ) :
    (g.mergeRel same fresh f).rels = g.rels ++ [fresh.setProps f] := by
  simp only [mergeRel, h, hs, hd, and_self, dite_true]
  rfl

@[simp] theorem node_deleteRels (p : Rel κ τ ρ → Bool) (g : Graph κ τ ν ρ) :
    (g.deleteRels p).node = g.node := rfl

@[simp] theorem rels_deleteRels (p : Rel κ τ ρ → Bool) (g : Graph κ τ ν ρ) :
    (g.deleteRels p).rels = g.rels.filter fun e => !p e := rfl

/-- A delete that goes through removes exactly the listed nodes and no relationship. -/
theorem deleteNodes_eq_some [DecidableEq κ] {ks : List κ} {g g' : Graph κ τ ν ρ}
    (h : g.deleteNodes ks = some g') :
    g'.rels = g.rels ∧ ∀ k, g'.node k = if k ∈ ks then none else g.node k := by
  unfold deleteNodes at h
  split at h
  · cases h; exact ⟨rfl, fun _ => rfl⟩
  · cases h

/-- A delete goes through when no relationship touches a listed node. -/
theorem exists_deleteNodes [DecidableEq κ] {ks : List κ} {g : Graph κ τ ν ρ}
    (h : ∀ e ∈ g.rels, e.src ∉ ks ∧ e.dst ∉ ks) : ∃ g', g.deleteNodes ks = some g' := by
  simp only [deleteNodes, dif_pos h]
  exact ⟨_, rfl⟩

/-! ## Updating several nodes -/

section Fold

variable {β : Type*} [DecidableEq κ] {key : β → κ} {f : β → ν → ν}

@[simp] theorem rels_foldl_update (xs : List β) (g : Graph κ τ ν ρ) :
    (xs.foldl (fun g x => g.update (key x) (f x)) g).rels = g.rels := by
  induction xs generalizing g with
  | nil => rfl
  | cons x xs ih => rw [List.foldl_cons, ih, rels_update]

@[simp] theorem isSome_node_foldl_update (xs : List β) (k : κ) (g : Graph κ τ ν ρ) :
    ((xs.foldl (fun g x => g.update (key x) (f x)) g).node k).isSome = (g.node k).isSome := by
  induction xs generalizing g with
  | nil => rfl
  | cons x xs ih => rw [List.foldl_cons, ih, isSome_node_update]

theorem node_foldl_update_of_forall_ne {xs : List β} {k : κ} (h : ∀ x ∈ xs, key x ≠ k)
    (g : Graph κ τ ν ρ) :
    (xs.foldl (fun g x => g.update (key x) (f x)) g).node k = g.node k := by
  induction xs generalizing g with
  | nil => rfl
  | cons x xs ih =>
    rw [List.foldl_cons, ih fun y hy => h y (List.mem_cons_of_mem _ hy),
      node_update_ne (h x List.mem_cons_self).symm]

/-- With distinct keys every node is updated once. -/
theorem node_foldl_update_of_mem {xs : List β} (hnd : (xs.map key).Nodup) {x : β} (hx : x ∈ xs)
    (g : Graph κ τ ν ρ) :
    (xs.foldl (fun g x => g.update (key x) (f x)) g).node (key x) =
      (g.node (key x)).map (f x) := by
  induction xs generalizing g with
  | nil => cases hx
  | cons y ys ih =>
    obtain ⟨hy, hnd⟩ := List.nodup_cons.mp hnd
    rw [List.foldl_cons]
    rcases List.mem_cons.mp hx with rfl | hx
    · rw [node_foldl_update_of_forall_ne, node_update, if_pos rfl]
      exact fun z hz heq => hy (List.mem_map.mpr ⟨z, hz, heq⟩)
    · have hne : key x ≠ key y := fun heq => hy (List.mem_map.mpr ⟨x, hx, heq⟩)
      rw [ih hnd hx, node_update_ne hne]

end Fold

/-! ## Merging a relationship, seen through a selection -/

/-- A selection the merge neither reads nor writes is the same after it. -/
theorem filter_mergeRel_of_disjoint {same P : Rel κ τ ρ → Bool} {fresh : Rel κ τ ρ} {f : ρ → ρ}
    (hsame : ∀ e, same e → P e = false ∧ P (e.setProps f) = false)
    (hfresh : P (fresh.setProps f) = false) (g : Graph κ τ ν ρ) :
    (g.mergeRel same fresh f).rels.filter P = g.rels.filter P := by
  unfold mergeRel
  split
  · simp only
    induction g.rels with
    | nil => rfl
    | cons e es ih =>
      by_cases h : same e
      · simp [h, (hsame e h).1, (hsame e h).2, ih]
      · simp [h, List.filter_cons, ih]
  · split
    · simp [List.filter_append, hfresh]
    · rfl

/-- The matched relationships after the merge: all of them updated, or the one
just created. -/
theorem filter_mergeRel_same {same : Rel κ τ ρ → Bool} {fresh : Rel κ τ ρ} {f : ρ → ρ}
    (hset : ∀ e, same e → same (e.setProps f)) (hfresh : same (fresh.setProps f))
    {g : Graph κ τ ν ρ} (hs : (g.node fresh.src).isSome) (hd : (g.node fresh.dst).isSome) :
    (g.mergeRel same fresh f).rels.filter same =
      if g.rels.filter same = [] then [fresh.setProps f]
      else (g.rels.filter same).map (Rel.setProps f) := by
  by_cases hany : g.rels.any same
  · have hne : g.rels.filter same ≠ [] := by
      simpa [List.filter_eq_nil_iff, List.any_eq_true] using hany
    rw [rels_mergeRel_of_any hany, if_neg hne]
    induction g.rels with
    | nil => rfl
    | cons e es ih =>
      by_cases h : same e
      · simp [h, hset e h, ih]
      · simp [h, ih]
  · have hnil : g.rels.filter same = [] := by
      simpa [List.filter_eq_nil_iff, List.any_eq_true] using hany
    rw [rels_mergeRel_of_not_any hany hs hd, if_pos hnil, List.filter_append, hnil]
    simp [hfresh]

end Graph

end PropertyGraph
