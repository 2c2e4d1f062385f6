-- SUMMARY: Exclusive locks held to the end of a transaction, and freedom from deadlock when they are taken in order.
import Mathlib.Logic.Relation
import Mathlib.Order.Basic
import Mathlib.Logic.Function.Basic

/-!
# Locks

A lock table says who holds which key. A key that is free, or already its own, is
taken; another's is waited for; the end of a transaction releases all it holds.

If every transaction that waits asks for a key above all it holds, no transactions
wait for one another in a circle.
-/

namespace Locks

variable {κ τ : Type*}

abbrev Table (κ τ : Type*) := κ → Option τ

def take [DecidableEq κ] [DecidableEq τ] (t : τ) (k : κ) (l : Table κ τ) : Option (Table κ τ) :=
  if l k = none ∨ l k = some t then some (Function.update l k (some t)) else none

def release [DecidableEq τ] (t : τ) (l : Table κ τ) : Table κ τ := fun k => if l k = some t then none else l k

section Held

variable [DecidableEq κ] [DecidableEq τ] {l l' : Table κ τ} {t t' : τ} {k k' : κ}

theorem held_take_self (h : take t k l = some l') : l' k = some t := by
  obtain ⟨_, heq⟩ := Option.ite_none_right_eq_some.mp h
  cases heq
  exact Function.update_self k (some t) l

theorem held_take (h : take t k l = some l') : l' k' = some t' ↔ k' = k ∧ t' = t ∨ l k' = some t' := by
  obtain ⟨hfree, heq⟩ := Option.ite_none_right_eq_some.mp h
  cases heq
  by_cases hk : k' = k
  · rw [hk, Function.update_self, Option.some_inj]
    constructor
    · rintro rfl
      exact .inl ⟨rfl, rfl⟩
    · rintro (⟨_, rfl⟩ | hheld)
      · rfl
      · rw [hheld] at hfree
        rcases hfree with hfree | hfree
        · cases hfree
        · exact (Option.some.inj hfree).symm
  · rw [Function.update_of_ne hk]
    exact ⟨.inr, fun h => h.resolve_left fun hself => hk hself.1⟩

omit [DecidableEq κ] in
theorem held_release : release t l k = some t' ↔ l k = some t' ∧ t' ≠ t := by
  unfold release
  split
  · rename_i hheld
    rw [hheld]
    exact iff_of_false nofun fun h => h.2 (Option.some.inj h.1).symm
  · rename_i hheld
    refine (and_iff_left_of_imp ?_).symm
    rintro hk rfl
    exact hheld hk

end Held

/-! ## Waiting -/

/-- `t` asks for a key that `t'` holds. -/
def WaitsFor (l : Table κ τ) (wants : τ → Option κ) (t t' : τ) : Prop :=
  ∃ k, wants t = some k ∧ l k = some t' ∧ t' ≠ t

/-- No deadlock: who waits asks for a key above all it holds. -/
theorem acyclic_of_ordered {R : Type*} [Preorder R] {l : Table κ τ} {wants : τ → Option κ} {rank : κ → R}
    (h : ∀ t k k', wants t = some k → l k ≠ some t → l k' = some t → rank k' < rank k) (t : τ) :
    ¬ Relation.TransGen (WaitsFor l wants) t t := by
  -- Along a chain of waiters the keys asked for go up.
  have hchain : ∀ t', Relation.TransGen (WaitsFor l wants) t t' →
      ∃ k k', wants t = some k ∧ l k ≠ some t ∧ l k' = some t' ∧ rank k ≤ rank k' := by
    intro t' hpath
    induction hpath with
    | single hwait =>
      obtain ⟨k, hk, hheld, hne⟩ := hwait
      refine ⟨k, k, hk, ?_, hheld, le_rfl⟩
      rw [hheld]
      exact fun heq => hne (Option.some.inj heq)
    | tail _ hwait ih =>
      obtain ⟨k, k', hk, hblocked, hheld, hle⟩ := ih
      obtain ⟨k'', hk'', hheld'', hne⟩ := hwait
      refine ⟨k, k'', hk, hblocked, hheld'', hle.trans (le_of_lt (h _ _ _ hk'' ?_ hheld))⟩
      rw [hheld'']
      exact fun heq => hne (Option.some.inj heq)
  intro hcycle
  obtain ⟨k, k', hk, hblocked, hheld, hle⟩ := hchain t hcycle
  exact lt_irrefl _ (lt_of_lt_of_le (h t k k' hk hblocked hheld) hle)

end Locks
