-- SUMMARY: Sorting by a key: what does not depend on the order of the elements.
import Mathlib.Algebra.Order.BigOperators.Group.List
import Mathlib.Data.List.Nodup
import Mathlib.Data.List.Sort

/-!
# Sorting by a key

A stable sort leaves elements of one key in the order they came in. What is said here of
its result does not depend on that order: the whole result when the keys are distinct, and
otherwise the keys, and with them every sum over the first of them.
-/

namespace Sorting

variable {α κ : Type} {r : κ → κ → Prop} [DecidableRel r] [Std.Total r] [IsTrans κ r] {key : α → κ} {xs ys : List α}

instance total_key (key : α → κ) : Std.Total fun a b => r (key a) (key b) := ⟨fun a b => Std.Total.total (key a) (key b)⟩

instance trans_key (key : α → κ) : IsTrans α fun a b => r (key a) (key b) :=
  ⟨fun _ _ _ hab hbc => IsTrans.trans _ _ _ hab hbc⟩

/-- The elements in the order of their keys. -/
def sortBy (r : κ → κ → Prop) [DecidableRel r] (key : α → κ) (xs : List α) : List α :=
  xs.insertionSort fun a b => r (key a) (key b)

omit [Std.Total r] [IsTrans κ r] in
theorem perm_sortBy : (sortBy r key xs).Perm xs := List.perm_insertionSort _ xs

omit [Std.Total r] [IsTrans κ r] in
theorem mem_sortBy {x : α} : x ∈ sortBy r key xs ↔ x ∈ xs := List.mem_insertionSort _

theorem pairwise_sortBy : (sortBy r key xs).Pairwise fun a b => r (key a) (key b) := List.pairwise_insertionSort _ xs

omit [Std.Total r] [IsTrans κ r] in
theorem sortBy_map {β : Type} {f : β → α} {zs : List β} : sortBy r key (zs.map f) = (sortBy r (key ∘ f) zs).map f :=
  (List.map_insertionSort _ _ f zs fun _ _ _ _ => Iff.rfl).symm

variable [Std.Antisymm r]

/-- Elements with distinct keys are sorted the same, whatever order they come in. -/
theorem sortBy_eq_of_perm (h : xs.Perm ys) (hnd : (xs.map key).Nodup) : sortBy r key xs = sortBy r key ys := by
  have hsorts : (sortBy r key xs).Perm (sortBy r key ys) := (perm_sortBy.trans h).trans perm_sortBy.symm
  refine hsorts.eq_of_pairwise ?_ pairwise_sortBy pairwise_sortBy
  intro a b ha hb hab hba
  exact List.inj_on_of_nodup_map hnd (mem_sortBy.mp ha) (h.mem_iff.mpr (mem_sortBy.mp hb))
    (Std.Antisymm.antisymm _ _ hab hba)

/-- The sorted keys are the same, whatever order the elements come in. -/
theorem map_sortBy_eq_of_perm (h : xs.Perm ys) : (sortBy r key xs).map key = (sortBy r key ys).map key := by
  have hsorts : (sortBy r key xs).Perm (sortBy r key ys) := (perm_sortBy.trans h).trans perm_sortBy.symm
  have hxs : ((sortBy r key xs).map key).Pairwise r := List.pairwise_map.mpr pairwise_sortBy
  have hys : ((sortBy r key ys).map key).Pairwise r := List.pairwise_map.mpr pairwise_sortBy
  refine (hsorts.map key).eq_of_pairwise ?_ hxs hys
  intro a b _ _ hab hba
  exact Std.Antisymm.antisymm a b hab hba

end Sorting
