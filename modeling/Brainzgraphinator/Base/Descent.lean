-- SUMMARY: Steps that make a measure smaller: how long their paths are, and where they end.
import Mathlib.Data.Nat.Basic

/-!
# Descent

Where every step makes a measure smaller, no path is longer than the measure of the state
it starts from, and every state has a path to one from which no step leads on.
-/

namespace Descent

variable {σ : Type*}

/-- A path of so many steps. -/
inductive Path (r : σ → σ → Prop) : Nat → σ → σ → Prop
  | nil (s : σ) : Path r 0 s s
  | snoc {n : Nat} {s s' s'' : σ} : Path r n s s' → r s' s'' → Path r (n + 1) s s''

/-- No step leads on. -/
def Stuck (r : σ → σ → Prop) (s : σ) : Prop := ∀ s', ¬r s s'

/-- The steps keep an invariant under which they make the measure smaller. -/
structure Descends (r : σ → σ → Prop) (inv : σ → Prop) (load : σ → Nat) : Prop where
  keeps : ∀ {s s'}, inv s → r s s' → inv s'
  lt : ∀ {s s'}, inv s → r s s' → load s' < load s

variable {r : σ → σ → Prop} {inv : σ → Prop} {load : σ → Nat} {n : Nat} {s s' s'' : σ}

theorem Path.cons (h : r s s') (hpath : Path r n s' s'') : Path r (n + 1) s s'' := by
  induction hpath with
  | nil => exact .snoc (.nil s) h
  | snoc _ hstep ih => exact .snoc (ih h) hstep

namespace Descends

theorem inv_of_path (h : Descends r inv load) (hinv : inv s) (hpath : Path r n s s') : inv s' := by
  induction hpath with
  | nil => exact hinv
  | snoc _ hstep ih => exact h.keeps (ih hinv) hstep

theorem length_add_le (h : Descends r inv load) (hinv : inv s) (hpath : Path r n s s') :
    n + load s' ≤ load s := by
  induction hpath with
  | nil => exact Nat.le_of_eq (Nat.zero_add _)
  | snoc hprefix hstep ih =>
    have hlt := h.lt (h.inv_of_path hinv hprefix) hstep
    have hle := ih hinv
    omega

theorem exists_stuck (h : Descends r inv load) (hinv : inv s) : ∃ n s', Path r n s s' ∧ Stuck r s' := by
  induction hload : load s using Nat.strong_induction_on generalizing s with
  | _ m ih =>
    by_cases hstuck : Stuck r s
    · exact ⟨0, s, .nil s, hstuck⟩
    · obtain ⟨s₁, hstep⟩ : ∃ s₁, r s s₁ := by
        simpa only [Stuck, not_forall, not_not] using hstuck
      obtain ⟨n, s', hpath, hend⟩ := ih (load s₁) (hload ▸ h.lt hinv hstep) (h.keeps hinv hstep) rfl
      exact ⟨n + 1, s', hpath.cons hstep, hend⟩

end Descends

end Descent
