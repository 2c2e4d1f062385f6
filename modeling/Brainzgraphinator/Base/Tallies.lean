-- SUMMARY: The sum of the values of those who are at a place, while they come and go.
import Mathlib.Algebra.BigOperators.Group.Finset.Basic
import Mathlib.Data.Set.Card

/-!
# Tallies

`Tally p f t` says that `p` holds of finitely many, and that their values under `f`
sum up to `t`. It is what is left to book while parties enter and leave a place one
at a time.
-/

namespace Tallies

variable {ι M : Type*} [AddCommMonoid M] {p q : ι → Prop} {f g : ι → M} {i : ι} {t t' : M}

def Tally (p : ι → Prop) (f : ι → M) (t : M) : Prop :=
  ∃ F : Finset ι, (∀ i, i ∈ F ↔ p i) ∧ ∑ i ∈ F, f i = t

theorem tally_zero (h : ∀ i, ¬p i) : Tally p f 0 :=
  ⟨∅, fun i => iff_of_false (Finset.notMem_empty i) (h i), Finset.sum_empty⟩

theorem Tally.unique (h : Tally p f t) (h' : Tally p f t') : t = t' := by
  obtain ⟨F, hF, rfl⟩ := h
  obtain ⟨F', hF', rfl⟩ := h'
  have heq : F = F' := Finset.ext fun i => (hF i).trans (hF' i).symm
  rw [heq]

theorem Tally.congr (h : Tally p f t) (hp : ∀ i, q i ↔ p i) (hf : ∀ i, p i → g i = f i) : Tally q g t := by
  obtain ⟨F, hF, rfl⟩ := h
  exact ⟨F, fun i => (hF i).trans (hp i).symm, Finset.sum_congr rfl fun i hi => hf i ((hF i).mp hi)⟩

/-- One enters, with its value. -/
theorem Tally.enter (h : Tally p f t) (hi : ¬p i) (hp : ∀ j, q j ↔ p j ∨ j = i)
    (hf : ∀ j, p j → g j = f j) : Tally q g (t + g i) := by
  classical
  obtain ⟨F, hF, rfl⟩ := h
  refine ⟨insert i F, fun j => ?_, ?_⟩
  · rw [Finset.mem_insert, hF, hp, or_comm]
  · rw [Finset.sum_insert (mt (hF i).mp hi), add_comm]
    congr 1
    exact Finset.sum_congr rfl fun j hj => hf j ((hF j).mp hj)

/-- One leaves, with its value. -/
theorem Tally.leave (h : Tally p f t) (hi : p i) (hp : ∀ j, q j ↔ p j ∧ j ≠ i)
    (hf : ∀ j, q j → g j = f j) : ∃ t', Tally q g t' ∧ t = t' + f i := by
  classical
  obtain ⟨F, hF, rfl⟩ := h
  have hmem : ∀ j, j ∈ F.erase i ↔ q j := by
    intro j
    rw [Finset.mem_erase, hF, hp, and_comm]
  refine ⟨∑ j ∈ F.erase i, g j, ⟨F.erase i, hmem, rfl⟩, ?_⟩
  rw [← Finset.sum_erase_add F f ((hF i).mpr hi)]
  congr 1
  exact Finset.sum_congr rfl fun j hj => (hf j ((hmem j).mp hj)).symm

/-- Counting them is summing up ones. -/
theorem Tally.ncard {n : ℤ} (h : Tally p (fun _ => (1 : ℤ)) n) : n = ({i | p i} : Set ι).ncard := by
  obtain ⟨F, hF, rfl⟩ := h
  have hset : ({i | p i} : Set ι) = F := Set.ext fun i => (hF i).symm
  rw [hset, Set.ncard_coe_finset, Finset.sum_const, nsmul_eq_mul, mul_one]

end Tallies
