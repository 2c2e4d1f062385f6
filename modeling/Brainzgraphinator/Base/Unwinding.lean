-- SUMMARY: Two runs side by side: computations that agree, and machines whose domains do not interfere.
import Mathlib.Data.List.Basic
import Brainzgraphinator.Base.Except

/-!
# Two runs side by side

`Except.Agree R` relates two computations that fail with the same error or both
succeed with results in relation `R`.

A `Machine` answers actions, each of which belongs to a domain; `view d` relates the
states that look the same to the domain `d`. `Separated` lists what is to be shown of
single actions: an action changes nothing in the view of a foreign domain, and what it
answers and does in its own view depends on nothing but this view. Then a domain gets
the same answers, and sees the same, whatever the others did in between.
-/

namespace Except

universe u v

variable {ε : Type u} {α β α' β' : Type v} {R : α → α' → Prop} {T : β → β' → Prop}

/-- Both fail with the same error, or both succeed with related results. -/
inductive Agree (R : α → α' → Prop) : Except ε α → Except ε α' → Prop
  | error (e : ε) : Agree R (.error e) (.error e)
  | ok {a : α} {a' : α'} : R a a' → Agree R (.ok a) (.ok a')

theorem Agree.pure {a : α} {a' : α'} (h : R a a') : Agree R (Pure.pure a : Except ε α) (Pure.pure a') := .ok h

theorem Agree.refl (x : Except ε α) : Agree Eq x x := by
  cases x with
  | error e => exact .error e
  | ok a => exact .ok rfl

theorem Agree.bind {x : Except ε α} {x' : Except ε α'} {f : α → Except ε β} {f' : α' → Except ε β'}
    (hx : Agree R x x') (hf : ∀ a a', R a a' → Agree T (f a) (f' a')) : Agree T (x >>= f) (x' >>= f') := by
  cases hx with
  | error e => exact .error e
  | ok h => exact hf _ _ h

theorem Agree.foldlM {γ : Type*} {f : α → γ → Except ε α} {f' : α' → γ → Except ε α'}
    (hf : ∀ a a' c, R a a' → Agree R (f a c) (f' a' c)) (cs : List γ) {a : α} {a' : α'} (h : R a a') :
    Agree R (cs.foldlM f a) (cs.foldlM f' a') := by
  induction cs generalizing a a' with
  | nil => exact .pure h
  | cons c cs ih =>
    rw [List.foldlM_cons, List.foldlM_cons]
    exact (hf a a' c h).bind fun _ _ h' => ih h'

end Except

namespace Unwinding

variable {σ α ο δ : Type*}

structure Machine (σ α ο δ : Type*) where
  /-- The state an action leads to, and its answer. -/
  step : σ → α → σ × ο
  domain : α → δ
  view : δ → σ → σ → Prop

namespace Machine

variable (M : Machine σ α ο δ)

def run (s : σ) (actions : List α) : σ := actions.foldl (fun s a => (M.step s a).1) s

/-- What every action keeps, a run keeps. -/
theorem run_keeps {P : σ → Prop} (hstep : ∀ s a, P s → P (M.step s a).1) {s : σ} (h : P s) (actions : List α) :
    P (M.run s actions) := by
  induction actions generalizing s with
  | nil => exact h
  | cons a actions ih => exact ih (hstep s a h)

variable [DecidableEq δ]

/-- What the actions of one domain are answered. -/
def answers (d : δ) : σ → List α → List ο
  | _, [] => []
  | s, a :: actions =>
    if M.domain a = d then (M.step s a).2 :: answers d (M.step s a).1 actions
    else answers d (M.step s a).1 actions

/-- The actions of one domain. -/
def actionsOf (d : δ) (actions : List α) : List α := actions.filter fun a => M.domain a = d

/-- No domain sees what the others do. -/
structure Separated : Prop where
  equivalence : ∀ d, Equivalence (M.view d)
  /-- An action leaves the view of every foreign domain as it was. -/
  respects : ∀ s a d, M.domain a ≠ d → M.view d (M.step s a).1 s
  /-- An action depends on nothing but the view of its domain. -/
  consistent : ∀ s s' a, M.view (M.domain a) s s' →
    (M.step s a).2 = (M.step s' a).2 ∧ M.view (M.domain a) (M.step s a).1 (M.step s' a).1

variable {M} {d : δ} {s s' : σ}

/-- The actions of the other domains can be left out. -/
theorem Separated.purge (h : M.Separated) (hview : M.view d s s') (actions : List α) :
    M.answers d s actions = M.answers d s' (M.actionsOf d actions) ∧
      M.view d (M.run s actions) (M.run s' (M.actionsOf d actions)) := by
  induction actions generalizing s s' with
  | nil => exact ⟨rfl, hview⟩
  | cons a actions ih =>
    by_cases ha : M.domain a = d
    · subst ha
      obtain ⟨hanswer, hnext⟩ := h.consistent s s' a hview
      obtain ⟨hanswers, hrun⟩ := ih hnext
      have hkept : M.actionsOf (M.domain a) (a :: actions) = a :: M.actionsOf (M.domain a) actions :=
        List.filter_cons_of_pos (decide_eq_true rfl)
      rw [hkept, answers, answers, if_pos rfl, if_pos rfl, hanswer, hanswers]
      exact ⟨rfl, hrun⟩
    · have hnext : M.view d (M.step s a).1 s' := (h.equivalence d).trans (h.respects s a d ha) hview
      have hdropped : M.actionsOf d (a :: actions) = M.actionsOf d actions :=
        List.filter_cons_of_neg fun hdomain => ha (of_decide_eq_true hdomain)
      rw [hdropped, answers, if_neg ha]
      exact ih hnext

/-- Two runs in which a domain does the same look the same to it. -/
theorem Separated.agree (h : M.Separated) (hview : M.view d s s') {actions actions' : List α}
    (hsame : M.actionsOf d actions = M.actionsOf d actions') :
    M.answers d s actions = M.answers d s' actions' ∧ M.view d (M.run s actions) (M.run s' actions') := by
  obtain ⟨hanswers, hrun⟩ := h.purge hview actions
  obtain ⟨hanswers', hrun'⟩ := h.purge ((h.equivalence d).refl s') actions'
  rw [← hsame] at hanswers' hrun'
  exact ⟨hanswers.trans hanswers'.symm, (h.equivalence d).trans hrun ((h.equivalence d).symm hrun')⟩

end Machine

end Unwinding
