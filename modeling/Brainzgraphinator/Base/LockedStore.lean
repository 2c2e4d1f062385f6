-- SUMMARY: A store under exclusive locks held to commit, whose reads see committed values and the reader's own writes.
import Brainzgraphinator.Base.Locks

/-!
# A store under exclusive locks

A transaction writes a key only while it holds it. What it wrote is its own until it
commits; a rollback forgets it. A read sees the reader's own value of a key it holds
and the committed one otherwise.
-/

namespace LockedStore

open Locks

structure Store (κ τ υ : Type*) where
  committed : κ → υ
  locks : Table κ τ
  /-- What the holder of a key wrote to it. -/
  pending : κ → Option υ

variable {κ τ υ : Type*} [DecidableEq κ] [DecidableEq τ]

namespace Store

/-- Nobody is at work. -/
def initial (committed : κ → υ) : Store κ τ υ := ⟨committed, fun _ => none, fun _ => none⟩

def view (s : Store κ τ υ) (t : τ) (k : κ) : υ :=
  if s.locks k = some t then (s.pending k).getD (s.committed k) else s.committed k

/-- Lock the key; it is the transaction's own already, or free. -/
def lock (t : τ) (k : κ) (s : Store κ τ υ) : Option (Store κ τ υ) :=
  if s.locks k = some t then some s
  else (take t k s.locks).map fun locks => { s with locks := locks, pending := Function.update s.pending k none }

def write (t : τ) (k : κ) (v : υ) (s : Store κ τ υ) : Option (Store κ τ υ) :=
  if s.locks k = some t then some { s with pending := Function.update s.pending k (some v) } else none

def commit (t : τ) (s : Store κ τ υ) : Store κ τ υ :=
  { s with committed := s.view t, locks := release t s.locks }

def rollback (t : τ) (s : Store κ τ υ) : Store κ τ υ := { s with locks := release t s.locks }

variable {s s' : Store κ τ υ} {t t' : τ} {k k' : κ} {v : υ}

omit [DecidableEq κ] in
theorem view_of_not_held (h : s.locks k ≠ some t) : s.view t k = s.committed k := if_neg h

theorem held_lock (h : s.lock t k = some s') : s'.locks k = some t := by
  unfold lock at h
  split at h
  · rename_i hheld
    cases h
    exact hheld
  · obtain ⟨l, htake, heq⟩ := Option.map_eq_some_iff.mp h
    cases heq
    exact held_take_self htake

theorem held_of_lock (h : s.lock t k = some s') : s'.locks k' = some t' ↔ k' = k ∧ t' = t ∨ s.locks k' = some t' := by
  unfold lock at h
  split at h
  · rename_i hheld
    cases h
    refine ⟨.inr, ?_⟩
    rintro (⟨rfl, rfl⟩ | h)
    · exact hheld
    · exact h
  · obtain ⟨l, htake, heq⟩ := Option.map_eq_some_iff.mp h
    cases heq
    exact held_take htake

theorem exists_lock (h : s.locks k = none) : ∃ s', s.lock t k = some s' := by
  have hnot : s.locks k ≠ some t := by
    rw [h]
    nofun
  rw [lock, if_neg hnot, take, if_pos (.inl h)]
  exact ⟨_, rfl⟩

theorem committed_lock (h : s.lock t k = some s') : s'.committed = s.committed := by
  unfold lock at h
  split at h
  · cases h
    rfl
  · obtain ⟨l, _, heq⟩ := Option.map_eq_some_iff.mp h
    cases heq
    rfl

/-- Locking changes what nobody sees. -/
theorem view_lock (h : s.lock t k = some s') : s'.view = s.view := by
  unfold lock at h
  split at h
  · cases h
    rfl
  · rename_i hnot
    obtain ⟨l, htake, heq⟩ := Option.map_eq_some_iff.mp h
    cases heq
    funext t' k'
    by_cases hk : k' = k
    · subst hk
      unfold view
      dsimp only
      rw [Function.update_self, Option.getD_none, ite_self]
      refine (if_neg fun hheld => ?_).symm
      -- The key was free, or the lock would not have been granted.
      obtain ⟨hfree, _⟩ := Option.ite_none_right_eq_some.mp htake
      rcases hfree with hfree | hfree
      · rw [hheld] at hfree
        cases hfree
      · exact hnot hfree
    · have hheld : l k' = some t' ↔ s.locks k' = some t' :=
        (held_take htake).trans (or_iff_right fun h => hk h.1)
      unfold view
      dsimp only
      rw [Function.update_of_ne hk]
      simp only [hheld]

theorem held_of_write (h : s.write t k v = some s') : s.locks k = some t :=
  (Option.ite_none_right_eq_some.mp h).1

theorem exists_write (h : s.locks k = some t) (v : υ) : ∃ s', s.write t k v = some s' := ⟨_, if_pos h⟩

theorem locks_write (h : s.write t k v = some s') : s'.locks = s.locks := by
  obtain ⟨_, heq⟩ := Option.ite_none_right_eq_some.mp h
  cases heq
  rfl

theorem committed_write (h : s.write t k v = some s') : s'.committed = s.committed := by
  obtain ⟨_, heq⟩ := Option.ite_none_right_eq_some.mp h
  cases heq
  rfl

theorem view_write_self (h : s.write t k v = some s') : s'.view t k = v := by
  obtain ⟨hheld, heq⟩ := Option.ite_none_right_eq_some.mp h
  cases heq
  unfold view
  dsimp only
  rw [if_pos hheld, Function.update_self, Option.getD_some]

/-- Nobody else sees the value, and the writer no other one. -/
theorem view_write_of_ne (h : s.write t k v = some s') (hne : t' ≠ t ∨ k' ≠ k) : s'.view t' k' = s.view t' k' := by
  obtain ⟨hheld, heq⟩ := Option.ite_none_right_eq_some.mp h
  cases heq
  unfold view
  dsimp only
  by_cases hk : k' = k
  · have hnot : s.locks k' ≠ some t' := by
      rw [hk, hheld]
      exact fun heq => (hne.resolve_right fun hne => hne hk) (Option.some.inj heq).symm
    rw [if_neg hnot, if_neg hnot]
  · rw [Function.update_of_ne hk]

omit [DecidableEq κ] in
theorem view_of_free (h : s.locks k = none) : s.view t k = s.committed k :=
  view_of_not_held (by rw [h]; nofun)

omit [DecidableEq κ] in
theorem free_commit (h : s.locks k = some t) : (s.commit t).locks k = none := if_pos h

omit [DecidableEq κ] in
/-- What was committed is what the transaction saw, for all but the holder of the key. -/
theorem view_commit : (s.commit t).view t' k = if s.locks k = some t' then s.view t' k else s.view t k := by
  have hview : (s.commit t).view t' k =
      if s.locks k = some t' ∧ t' ≠ t then (s.pending k).getD (s.view t k) else s.view t k := by
    change (if release t s.locks k = some t' then _ else _) = _
    simp only [held_release]
    rfl
  rw [hview]
  by_cases hheld : s.locks k = some t'
  · rw [if_pos hheld]
    by_cases ht : t' = t
    · rw [if_neg fun h => h.2 ht, ht]
    · have hnot : s.locks k ≠ some t := by
        rw [hheld]
        exact fun heq => ht (Option.some.inj heq)
      rw [if_pos ⟨hheld, ht⟩, view_of_not_held hnot, view, if_pos hheld]
  · rw [if_neg hheld, if_neg fun h => hheld h.1]

omit [DecidableEq κ] in
theorem view_rollback : (s.rollback t).view t' k = if t' = t then s.committed k else s.view t' k := by
  unfold view rollback
  simp only [held_release]
  by_cases ht : t' = t
  · rw [if_pos ht, if_neg fun h => h.2 ht]
  · rw [if_neg ht]
    by_cases hheld : s.locks k = some t'
    · rw [if_pos ⟨hheld, ht⟩, if_pos hheld]
    · rw [if_neg fun h => hheld h.1, if_neg hheld]

end Store

end LockedStore
