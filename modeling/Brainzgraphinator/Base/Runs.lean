-- SUMMARY: Runs of a step function all whose steps meet a condition, and their invariants.
import Mathlib.Logic.Basic

/-!
# Runs

A machine takes an event and may refuse it. `Run step ok s₀ es s` says that the
events `es` lead from `s₀` to `s`, and that `ok` held of each event in the state it
was taken in. `exec` is the machine itself, to run a list of events.
-/

namespace Runs

variable {σ ε : Type} {step : σ → ε → Option σ} {ok ok' : σ → ε → Prop} {s₀ s s' : σ}
  {es : List ε} {e : ε}

inductive Run (step : σ → ε → Option σ) (ok : σ → ε → Prop) (s₀ : σ) : List ε → σ → Prop
  | nil : Run step ok s₀ [] s₀
  | snoc {es : List ε} {e : ε} {s s' : σ} : Run step ok s₀ es s → ok s e → step s e = some s' →
      Run step ok s₀ (es ++ [e]) s'

/-- What holds at the start and is kept by every step holds in every state reached. -/
theorem Run.invariant {I : σ → Prop} (h : Run step ok s₀ es s) (hstart : I s₀)
    (hstep : ∀ {s s' e}, I s → ok s e → step s e = some s' → I s') : I s := by
  induction h with
  | nil => exact hstart
  | snoc _ hok hs ih => exact hstep ih hok hs

theorem Run.mono (h : Run step ok s₀ es s) (hok : ∀ s e, ok s e → ok' s e) :
    Run step ok' s₀ es s := by
  induction h with
  | nil => exact .nil
  | snoc _ hs hstep ih => exact .snoc ih (hok _ _ hs) hstep

/-- A property holds in all states of a run exactly when the condition is met, if it
holds at the start, and a step keeps it exactly when it meets the condition. -/
theorem Run.always_iff {P : σ → Prop} (hstart : P s₀)
    (hstep : ∀ {es s s' e}, Run step ok s₀ es s → P s → step s e = some s' → (P s' ↔ ok s e)) :
    (Run step (fun s _ => P s) s₀ es s ∧ P s) ↔ Run step ok s₀ es s := by
  constructor
  · rintro ⟨h, hlast⟩
    induction h with
    | nil => exact .nil
    | snoc _ hs hnext ih => exact .snoc (ih hs) ((hstep (ih hs) hs hnext).mp hlast) hnext
  · intro h
    induction h with
    | nil => exact ⟨.nil, hstart⟩
    | snoc hrun hs hnext ih =>
      exact ⟨.snoc ih.1 ih.2 hnext, (hstep hrun ih.2 hnext).mpr hs⟩

/-- Some state on the way, the first and the last included, is as described. -/
def Visits (step : σ → ε → Option σ) (s₀ : σ) (es : List ε) (P : σ → Prop) : Prop :=
  ∃ es₁ es₂ s, es = es₁ ++ es₂ ∧ Run step (fun _ _ => True) s₀ es₁ s ∧ P s

theorem Run.visits {P : σ → Prop} (h : Run step ok s₀ es s) (hP : P s) : Visits step s₀ es P :=
  ⟨es, [], s, (List.append_nil es).symm, h.mono fun _ _ _ => trivial, hP⟩

theorem Visits.append {P : σ → Prop} (h : Visits step s₀ es P) (es' : List ε) : Visits step s₀ (es ++ es') P := by
  obtain ⟨es₁, es₂, s, rfl, hrun, hP⟩ := h
  exact ⟨es₁, es₂ ++ es', s, List.append_assoc es₁ es₂ es', hrun, hP⟩

/-- A machine that takes the same events gets to the same state. -/
theorem Run.unique (h : Run step ok s₀ es s) (h' : Run step ok' s₀ es s') : s = s' := by
  induction h generalizing s' with
  | nil =>
    generalize hes : ([] : List ε) = es' at h'
    cases h' with
    | nil => rfl
    | snoc _ _ _ => exact absurd hes.symm (List.append_ne_nil_of_right_ne_nil _ (List.cons_ne_nil _ _))
  | @snoc es e s s₁ _ _ hstep ih =>
    generalize hes : es ++ [e] = es' at h'
    cases h' with
    | nil => exact absurd hes (List.append_ne_nil_of_right_ne_nil _ (List.cons_ne_nil _ _))
    | snoc hrun _ hstep' =>
      obtain ⟨rfl, he⟩ := List.append_inj' hes rfl
      cases he
      have heq := ih hrun
      rw [heq, hstep'] at hstep
      exact (Option.some.inj hstep).symm

/-- What one more step visits is what was visited before, and the state it leads to. -/
theorem visits_snoc {P : σ → Prop} (h : Run step ok s₀ es s) (hstep : step s e = some s') :
    Visits step s₀ (es ++ [e]) P ↔ Visits step s₀ es P ∨ P s' := by
  have hrun : Run step (fun _ _ => True) s₀ (es ++ [e]) s' :=
    .snoc (h.mono fun _ _ _ => trivial) trivial hstep
  constructor
  · rintro ⟨es₁, es₂, s₁, hes, hrun₁, hP⟩
    rcases List.eq_nil_or_concat es₂ with rfl | ⟨es₂, e', rfl⟩
    · rw [List.append_nil] at hes
      subst hes
      exact .inr (hrun₁.unique hrun ▸ hP)
    · rw [List.concat_eq_append, ← List.append_assoc] at hes
      obtain ⟨rfl, _⟩ := List.append_inj' hes rfl
      exact .inl ⟨es₁, es₂, s₁, rfl, hrun₁, hP⟩
  · rintro (hvisits | hP)
    · exact hvisits.append [e]
    · exact hrun.visits hP

theorem visits_nil {P : σ → Prop} : Visits step s₀ [] P ↔ P s₀ := by
  constructor
  · rintro ⟨es₁, es₂, s, hes, hrun, hP⟩
    obtain ⟨rfl, _⟩ := List.append_eq_nil_iff.mp hes.symm
    exact hrun.unique (.nil : Run step (fun _ _ => True) s₀ [] s₀) ▸ hP
  · intro hP
    exact ⟨[], [], s₀, rfl, .nil, hP⟩

/-! ## Since the last time -/

theorem Run.trans (h : Run step ok s₀ es s) {es' : List ε} (h' : Run step ok s es' s') :
    Run step ok s₀ (es ++ es') s' := by
  induction h' with
  | nil =>
    rw [List.append_nil]
    exact h
  | snoc _ hok hstep ih =>
    rw [← List.append_assoc]
    exact .snoc ih hok hstep

/-- Some event of the run is as described, in the state it was taken in. -/
def Takes (step : σ → ε → Option σ) (s₀ : σ) (es : List ε) (P : σ → ε → Prop) : Prop :=
  ∃ es₁ e es₂ s₁, es = es₁ ++ e :: es₂ ∧ Run step (fun _ _ => True) s₀ es₁ s₁ ∧ P s₁ e

/-- The run to `s` took an event as described, and none with `Q` since. -/
def Since (step : σ → ε → Option σ) (s₀ : σ) (es : List ε) (s : σ) (P Q : σ → ε → Prop) : Prop :=
  ∃ es₁ e es₂ s₁ s₂, es = es₁ ++ e :: es₂ ∧ Run step (fun _ _ => True) s₀ es₁ s₁ ∧ P s₁ e ∧
    step s₁ e = some s₂ ∧ Run step (fun s e => ¬ Q s e) s₂ es₂ s

theorem Takes.snoc {P : σ → ε → Prop} (h : Takes step s₀ es P) (e : ε) : Takes step s₀ (es ++ [e]) P := by
  obtain ⟨es₁, e₁, es₂, s₁, rfl, hrun, hP⟩ := h
  exact ⟨es₁, e₁, es₂ ++ [e], s₁, List.append_assoc es₁ (e₁ :: es₂) [e], hrun, hP⟩

theorem Run.takes {P : σ → ε → Prop} (h : Run step ok s₀ es s) (hP : P s e) : Takes step s₀ (es ++ [e]) P :=
  ⟨es, e, [], s, rfl, h.mono fun _ _ _ => trivial, hP⟩

theorem since_snoc {P Q : σ → ε → Prop} (h : Run step ok s₀ es s) (hstep : step s e = some s') :
    Since step s₀ (es ++ [e]) s' P Q ↔ P s e ∨ Since step s₀ es s P Q ∧ ¬ Q s e := by
  constructor
  · rintro ⟨es₁, e₁, es₂, s₁, s₂, hes, hrun, hP, hfirst, hsince⟩
    rcases List.eq_nil_or_concat es₂ with rfl | ⟨es₂, e', rfl⟩
    · obtain ⟨rfl, he⟩ := List.append_inj' hes rfl
      cases he
      rw [hrun.unique h] at hP
      exact .inl hP
    · have hsplit : es ++ [e] = es₁ ++ e₁ :: es₂ ++ [e'] := by
        rw [hes, List.concat_eq_append, List.append_assoc, List.cons_append]
      obtain ⟨rfl, he⟩ := List.append_inj' hsplit rfl
      cases he
      rw [List.concat_eq_append] at hsince
      obtain ⟨s₃, hbefore, hQ, _⟩ : ∃ s₃, Run step (fun s e => ¬ Q s e) s₂ es₂ s₃ ∧ ¬ Q s₃ e ∧ step s₃ e = some s' := by
        generalize hes₂ : es₂ ++ [e] = es' at hsince
        cases hsince with
        | nil => exact absurd hes₂ (List.append_ne_nil_of_right_ne_nil _ (List.cons_ne_nil _ _))
        | snoc hbefore hQ hlast =>
          obtain ⟨rfl, he⟩ := List.append_inj' hes₂ rfl
          cases he
          exact ⟨_, hbefore, hQ, hlast⟩
      -- The run is determined by its events, so the state before the last is `s`.
      have hwhole : Run step (fun _ _ => True) s₀ (es₁ ++ e₁ :: es₂) s₃ := by
        have hfirst' := (Run.snoc hrun trivial hfirst).trans (hbefore.mono fun _ _ _ => trivial)
        rwa [List.append_assoc] at hfirst'
      rw [hwhole.unique h] at hbefore hQ
      exact .inr ⟨⟨es₁, e₁, es₂, s₁, s₂, rfl, hrun, hP, hfirst, hbefore⟩, hQ⟩
  · rintro (hP | ⟨⟨es₁, e₁, es₂, s₁, s₂, rfl, hrun, hP, hfirst, hsince⟩, hQ⟩)
    · exact ⟨es, e, [], s, s', rfl, h.mono fun _ _ _ => trivial, hP, hstep, .nil⟩
    · exact ⟨es₁, e₁, es₂ ++ [e], s₁, s₂, List.append_assoc es₁ (e₁ :: es₂) [e], hrun, hP, hfirst,
        .snoc hsince hQ hstep⟩

/-- A flag that some events set and some clear: once it was set, it is up exactly if it was
not cleared since. -/
theorem Run.flag_iff {flag : σ → Bool} {sets clears : σ → ε → Prop} (h : Run step ok s₀ es s)
    (hsets : ∀ {s s' e}, step s e = some s' → sets s e → flag s' = true)
    (hclears : ∀ {s s' e}, step s e = some s' → clears s e → flag s' = false)
    (hother : ∀ {s s' e}, step s e = some s' → ¬ sets s e → ¬ clears s e → flag s' = flag s)
    (htakes : Takes step s₀ es sets) : flag s = true ↔ Since step s₀ es s sets clears := by
  induction h with
  | nil =>
    obtain ⟨es₁, e, es₂, _, hes, _, _⟩ := htakes
    exact absurd hes.symm (List.append_ne_nil_of_right_ne_nil _ (List.cons_ne_nil _ _))
  | @snoc es e s s' hrun _ hstep ih =>
    rw [since_snoc hrun hstep]
    by_cases hset : sets s e
    · exact iff_of_true (hsets hstep hset) (.inl hset)
    · -- The event that set it is an earlier one.
      have htakes' : Takes step s₀ es sets := by
        obtain ⟨es₁, e₁, es₂, s₁, hes, hrun₁, hP⟩ := htakes
        rcases List.eq_nil_or_concat es₂ with rfl | ⟨es₂, e', rfl⟩
        · obtain ⟨rfl, he⟩ := List.append_inj' hes rfl
          cases he
          rw [hrun₁.unique hrun] at hP
          exact absurd hP hset
        · rw [List.concat_eq_append, ← List.cons_append, ← List.append_assoc] at hes
          obtain ⟨rfl, _⟩ := List.append_inj' hes rfl
          exact ⟨es₁, e₁, es₂, s₁, rfl, hrun₁, hP⟩
      by_cases hclear : clears s e
      · rw [hclears hstep hclear]
        exact iff_of_false nofun fun h => h.elim hset fun h => h.2 hclear
      · rw [hother hstep hset hclear, ih htakes']
        exact ⟨fun h => .inr ⟨h, hclear⟩, fun h => (h.resolve_left hset).1⟩

/-- The events one after another, until one is refused. -/
def exec (step : σ → ε → Option σ) (s : σ) (es : List ε) : Option σ := es.foldlM step s

theorem run_of_exec (h : exec step s₀ es = some s) : Run step (fun _ _ => True) s₀ es s := by
  suffices hgoal : ∀ {done s₁}, Run step (fun _ _ => True) s₀ done s₁ →
      exec step s₁ es = some s → Run step (fun _ _ => True) s₀ (done ++ es) s from
    hgoal .nil h
  clear h
  induction es with
  | nil =>
    intro done s₁ hrun hexec
    cases hexec
    rw [List.append_nil]
    exact hrun
  | cons e es ih =>
    intro done s₁ hrun hexec
    obtain ⟨s₂, hs₂, hrest⟩ := Option.bind_eq_some_iff.mp hexec
    have hnext := ih (.snoc hrun trivial hs₂) hrest
    rwa [List.append_assoc] at hnext

theorem exec_of_run (h : Run step ok s₀ es s) : exec step s₀ es = some s := by
  induction h with
  | nil => rfl
  | @snoc es e s s' _ _ hstep ih =>
    have happend : exec step s₀ (es ++ [e]) = (exec step s₀ es).bind fun s => exec step s [e] :=
      List.foldlM_append
    rw [happend, ih]
    have hone : exec step s [e] = (step s e).bind some := rfl
    rw [Option.bind_some, hone, hstep]
    rfl

/-- A list of events that is run, with what is seen of the last state. -/
theorem exists_run_of_exec {β : Type} {f : σ → β} {b : β} (h : (exec step s₀ es).map f = some b) :
    ∃ s, Run step (fun _ _ => True) s₀ es s ∧ f s = b := by
  obtain ⟨s, hexec, hsee⟩ := Option.map_eq_some_iff.mp h
  exact ⟨s, run_of_exec hexec, hsee⟩

/-- A list of events that is run, to a state that is as described. -/
theorem exists_run {P : σ → Prop} [DecidablePred P] (h : (exec step s₀ es).any (fun s => decide (P s)) = true) :
    ∃ s, Run step (fun _ _ => True) s₀ es s ∧ P s := by
  cases hexec : exec step s₀ es with
  | none => rw [hexec] at h; cases h
  | some s =>
    rw [hexec] at h
    exact ⟨s, run_of_exec hexec, of_decide_eq_true h⟩

/-- The machine that refuses an event the condition does not hold of. -/
def guarded (step : σ → ε → Option σ) (ok : σ → ε → Prop) [∀ s e, Decidable (ok s e)] (s : σ) (e : ε) :
    Option σ :=
  if ok s e then step s e else none

theorem run_of_guarded [∀ s e, Decidable (ok s e)] (h : Run (guarded step ok) ok' s₀ es s) :
    Run step ok s₀ es s := by
  induction h with
  | nil => exact .nil
  | snoc _ _ hstep ih =>
    obtain ⟨hok, hnext⟩ := Option.ite_none_right_eq_some.mp hstep
    exact .snoc ih hok hnext

end Runs
