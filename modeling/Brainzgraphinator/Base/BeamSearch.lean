-- SUMMARY: Beam search in rounds: expand every candidate, keep the best; narrower beams and replayed beams.
import Brainzgraphinator.Base.Except
import Brainzgraphinator.Base.RecordReplay

/-!
# Beam search

A round expands all candidates of the beam one after another and selects the beam
of the next round among the results. An expansion may fail, and with it the search.

What the selection of the last round leaves out is never expanded. A search of two
rounds is therefore free to keep fewer candidates: it expands no candidate that the
wider one has not expanded.
-/

namespace BeamSearch

open RecordReplay

universe u v

variable {m : Type u → Type v} [Monad m] {α : Type u}

def expandAll (expand : α → m (List α)) : List α → m (List α)
  | [] => pure []
  | c :: cs => do
    let first ← expand c
    let rest ← expandAll expand cs
    return first ++ rest

def search (expand : α → m (List α)) (select : List α → List α) : Nat → List α → m (List α)
  | 0, cs => pure cs
  | n + 1, cs => do
    let expanded ← expandAll expand cs
    search expand select n (select expanded)

/-! ## Narrower beams -/

section Narrower

variable {ε : Type u} {expand : α → Except ε (List α)} {cs cs' : List α}

theorem exists_expandAll_iff : (∃ r, expandAll expand cs = .ok r) ↔ ∀ c ∈ cs, ∃ r, expand c = .ok r := by
  induction cs with
  | nil => exact iff_of_true ⟨[], rfl⟩ nofun
  | cons c cs ih =>
    rw [List.forall_mem_cons, ← ih]
    simp only [expandAll, Except.bind_eq_ok, Except.pure_eq_ok]
    constructor
    · rintro ⟨_, first, hfirst, rest, hrest, rfl⟩
      exact ⟨⟨first, hfirst⟩, rest, hrest⟩
    · rintro ⟨⟨first, hfirst⟩, rest, hrest⟩
      exact ⟨_, first, hfirst, rest, hrest, rfl⟩

theorem exists_expandAll_of_subset (hsub : cs' ⊆ cs) (h : ∃ r, expandAll expand cs = .ok r) :
    ∃ r, expandAll expand cs' = .ok r :=
  exists_expandAll_iff.mpr fun c hc => exists_expandAll_iff.mp h c (hsub hc)

/-- A search of two rounds succeeds when one with wider beams does. -/
theorem exists_search_two_of_subset {select select' : List α → List α} (hsub : ∀ xs, select' xs ⊆ select xs)
    (h : ∃ r, search expand select 2 cs = .ok r) : ∃ r, search expand select' 2 cs = .ok r := by
  simp only [search, Except.bind_eq_ok, Except.pure_eq_ok] at h ⊢
  obtain ⟨_, first, hfirst, second, hsecond, rfl⟩ := h
  obtain ⟨second', hsecond'⟩ := exists_expandAll_of_subset (hsub first) ⟨second, hsecond⟩
  exact ⟨_, first, hfirst, second', hsecond', rfl⟩

end Narrower

/-! ## Replayed beams -/

section Replayed

variable {σ ε κ ν α : Type} {read : σ → κ → Option ν} {expand : α → Session σ ε (List α)}
  {again : (κ → Option ν) → α → Except ε (List α)}

theorem replays_expandAll (h : ∀ c, Replays read (expand c) fun r => again r c) (cs : List α) :
    Replays read (expandAll expand cs) fun r => expandAll (again r) cs := by
  induction cs with
  | nil => exact .pure []
  | cons c cs ih => exact (h c).bind fun first => ih.bind fun rest => .pure (first ++ rest)

theorem replays_search (h : ∀ c, Replays read (expand c) fun r => again r c) (select : List α → List α)
    (n : Nat) (cs : List α) : Replays read (search expand select n cs) fun r => search (again r) select n cs := by
  induction n generalizing cs with
  | zero => exact .pure cs
  | succ n ih => exact (replays_expandAll h cs).bind fun expanded => ih (select expanded)

end Replayed

end BeamSearch
