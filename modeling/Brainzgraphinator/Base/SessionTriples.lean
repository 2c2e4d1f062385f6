-- SUMMARY: Triples of sessions that may fail: what holds after a result, and what after an error.
import Brainzgraphinator.Base.BeamSearch

/-!
# Triples of sessions

`Triple P x Q E` says that the session `x`, begun in a state with `P`, leaves `Q` with
its result, or `E` with its error: what it did before it failed stays.
-/

namespace RecordReplay

variable {σ ε α β : Type} {P P' : σ → Prop} {Q Q' : α → σ → Prop} {E E' : ε → σ → Prop}

structure Triple (P : σ → Prop) (x : Session σ ε α) (Q : α → σ → Prop) (E : ε → σ → Prop) : Prop where
  ok : ∀ {s a s'}, P s → exec x s = (.ok a, s') → Q a s'
  error : ∀ {s e s'}, P s → exec x s = (.error e, s') → E e s'

namespace Triple

variable {x : Session σ ε α} {f : α → Session σ ε β}

theorem pure (a : α) (h : ∀ s, P s → Q a s) : Triple P (pure a : Session σ ε α) Q E where
  ok hP hexec := by
    cases hexec
    exact h _ hP
  error _ hexec := by cases hexec

theorem throw (e : ε) (h : ∀ s, P s → E e s) : Triple P (throw e : Session σ ε α) Q E where
  ok _ hexec := by cases hexec
  error hP hexec := by
    cases hexec
    exact h _ hP

theorem modify {Q : PUnit → σ → Prop} (g : σ → σ) (h : ∀ s, P s → Q ⟨⟩ (g s)) :
    Triple P (modify g : Session σ ε PUnit) Q E where
  ok hP hexec := by
    cases hexec
    exact h _ hP
  error _ hexec := by cases hexec

/-- What reads the state goes on from the one it is in. -/
theorem get {Q : σ → σ → Prop} (h : ∀ s, P s → Q s s) : Triple P (get : Session σ ε σ) Q E where
  ok hP hexec := by
    cases hexec
    exact h _ hP
  error _ hexec := by cases hexec

theorem set {Q : PUnit → σ → Prop} (t : σ) (h : ∀ s, P s → Q ⟨⟩ t) :
    Triple P (set t : Session σ ε PUnit) Q E where
  ok hP hexec := by
    cases hexec
    exact h _ hP
  error _ hexec := by cases hexec

theorem ofExcept (y : Except ε α) (hok : ∀ a s, P s → Q a s) (herror : ∀ e s, y = .error e → P s → E e s) :
    Triple P (MonadExcept.ofExcept y : Session σ ε α) Q E where
  ok hP hexec := by
    rw [exec_ofExcept] at hexec
    cases hexec
    exact hok _ _ hP
  error hP hexec := by
    rw [exec_ofExcept] at hexec
    cases hexec
    exact herror _ _ rfl hP

theorem bind {R : β → σ → Prop} (hx : Triple P x Q E) (hf : ∀ a, Triple (Q a) (f a) R E) :
    Triple P (x >>= f) R E where
  ok hP hexec := by
    obtain ⟨a, t, hfirst, hrest⟩ := exec_bind_eq_ok.mp hexec
    exact (hf a).ok (hx.ok hP hfirst) hrest
  error {s e s'} hP hexec := by
    rw [exec_bind] at hexec
    rcases h : exec x s with ⟨e' | a, t⟩
    · rw [h] at hexec
      cases hexec
      exact hx.error hP h
    · rw [h] at hexec
      exact (hf a).error (hx.ok hP h) hexec

theorem mono (h : Triple P x Q E) (hP : ∀ s, P' s → P s) (hQ : ∀ a s, Q a s → Q' a s) (hE : ∀ e s, E e s → E' e s) :
    Triple P' x Q' E' where
  ok hP' hexec := hQ _ _ (h.ok (hP _ hP') hexec)
  error hP' hexec := hE _ _ (h.error (hP _ hP') hexec)

theorem trivial (x : Session σ ε α) : Triple (fun _ => True) x (fun _ _ => True) fun _ _ => True where
  ok _ _ := True.intro
  error _ _ := True.intro

/-- What holds whatever the state is an assumption. -/
theorem assuming {p : Prop} (h : p → Triple P x Q E) : Triple (fun s => p ∧ P s) x Q E where
  ok hP hexec := (h hP.1).ok hP.2 hexec
  error hP hexec := (h hP.1).error hP.2 hexec

/-- What the session maintains holds after it as before it. -/
theorem frame {R : σ → σ → Prop} {I : σ → Prop} (h : Triple P x Q E) (hx : Maintains R x)
    (hI : ∀ s s', R s s' → I s → I s') : Triple (fun s => P s ∧ I s) x (fun a s => Q a s ∧ I s) fun e s => E e s ∧ I s where
  ok {s a s'} hP hexec := by
    have hmaintains := hx s
    rw [hexec] at hmaintains
    exact ⟨h.ok hP.1 hexec, hI _ _ hmaintains hP.2⟩
  error {s e s'} hP hexec := by
    have hmaintains := hx s
    rw [hexec] at hmaintains
    exact ⟨h.error hP.1 hexec, hI _ _ hmaintains hP.2⟩

/-! ## Beam search -/

section Search

variable {expand : α → Session σ ε (List α)} {select : List α → List α}

theorem expandAll (h : ∀ c, Triple P (expand c) (fun _ => P) E) (cs : List α) :
    Triple P (BeamSearch.expandAll expand cs) (fun _ => P) E := by
  induction cs with
  | nil => exact .pure [] fun _ => id
  | cons c cs ih => exact (h c).bind fun first => ih.bind fun rest => .pure (first ++ rest) fun _ => id

/-- What every expansion keeps, the search keeps, however it selects. -/
theorem search (h : ∀ c, Triple P (expand c) (fun _ => P) E) (n : Nat) (cs : List α) :
    Triple P (BeamSearch.search expand select n cs) (fun _ => P) E := by
  induction n generalizing cs with
  | zero => exact .pure cs fun _ => id
  | succ n ih => exact (Triple.expandAll h cs).bind fun expanded => ih (select expanded)

end Search

end Triple

end RecordReplay
