-- SUMMARY: Computations that record the evidence they read, and their replay from the record.
import Mathlib.Logic.Basic

/-!
# Record and replay

A session works on a state and may fail; what it did to the state before it failed
stays. `read s` is the evidence on record in the state `s`.

`Replays read x y` says that `x` loses no evidence, and that `y`, which has nothing
but a record to read, comes to the result of `x` from every record that contains
the one `x` left.
-/

namespace RecordReplay

variable {σ ε κ ν α β : Type}

abbrev Session (σ ε : Type) := ExceptT ε (StateM σ)

def exec (x : Session σ ε α) (s : σ) : Except ε α × σ := x.run.run s

/-- How the session ends, whether it fails or not. -/
def outcome (x : Session σ ε α) : Session σ ε (Except ε α) := ExceptT.lift x.run

section Exec

variable {x : Session σ ε α} {f : α → Session σ ε β} {s s' : σ} {e : ε}

@[simp] theorem exec_pure (a : α) (s : σ) : exec (pure a : Session σ ε α) s = (.ok a, s) := rfl

@[simp] theorem exec_throw (e : ε) (s : σ) : exec (throw e : Session σ ε α) s = (.error e, s) := rfl

@[simp] theorem exec_get (s : σ) : exec (get : Session σ ε σ) s = (.ok s, s) := rfl

@[simp] theorem exec_set (t s : σ) : exec (set t : Session σ ε PUnit) s = (.ok ⟨⟩, t) := rfl

@[simp] theorem exec_modify (g : σ → σ) (s : σ) : exec (modify g : Session σ ε PUnit) s = (.ok ⟨⟩, g s) := rfl

@[simp] theorem exec_ofExcept (y : Except ε α) (s : σ) :
    exec (MonadExcept.ofExcept y : Session σ ε α) s = (y, s) := by
  cases y <;> rfl

theorem exec_outcome (x : Session σ ε α) (s : σ) : exec (outcome x) s = (.ok (exec x s).1, (exec x s).2) := rfl

theorem exec_bind (x : Session σ ε α) (f : α → Session σ ε β) (s : σ) :
    exec (x >>= f) s = match exec x s with
      | (.ok a, t) => exec (f a) t
      | (.error e, t) => (.error e, t) := by
  change (fun p : Except ε α × σ => exec (ExceptT.mk (ExceptT.bindCont f p.1)) p.2) (exec x s) = _
  rcases exec x s with ⟨_ | _, t⟩ <;> rfl

theorem exec_bind_ok {a : α} (h : exec x s = (.ok a, s')) (f : α → Session σ ε β) :
    exec (x >>= f) s = exec (f a) s' := by
  rw [exec_bind, h]

theorem exec_bind_eq_ok {b : β} : exec (x >>= f) s = (.ok b, s') ↔
    ∃ a t, exec x s = (.ok a, t) ∧ exec (f a) t = (.ok b, s') := by
  rw [exec_bind]
  rcases exec x s with ⟨_ | a, t⟩
  · simp
  · constructor
    · intro h
      exact ⟨a, t, rfl, h⟩
    · rintro ⟨_, _, heq, h⟩
      cases heq
      exact h

end Exec

/-! ## What every way to end keeps -/

section Maintains

variable {R : σ → σ → Prop}

/-- The session leaves a state in relation to the one it began in, however it ends. -/
def Maintains (R : σ → σ → Prop) (x : Session σ ε α) : Prop := ∀ s, R s (exec x s).2

theorem Maintains.bind {x : Session σ ε α} {f : α → Session σ ε β} (htrans : ∀ {a b c}, R a b → R b c → R a c)
    (hx : Maintains R x) (hf : ∀ a, Maintains R (f a)) : Maintains R (x >>= f) := by
  intro s
  have hfirst := hx s
  rw [exec_bind]
  rcases h : exec x s with ⟨_ | a, t⟩
  · rw [h] at hfirst
    exact hfirst
  · rw [h] at hfirst
    exact htrans hfirst (hf a t)

end Maintains

/-! ## Records -/

/-- The second record has everything the first has. -/
def Extends (r r' : κ → Option ν) : Prop := ∀ k v, r k = some v → r' k = some v

theorem Extends.refl (r : κ → Option ν) : Extends r r := fun _ _ h => h

theorem Extends.trans {r₁ r₂ r₃ : κ → Option ν} (h : Extends r₁ r₂) (h' : Extends r₂ r₃) : Extends r₁ r₃ :=
  fun k v hk => h' k v (h k v hk)

structure Replays (read : σ → κ → Option ν) (x : Session σ ε α) (y : (κ → Option ν) → Except ε α) : Prop where
  keeps : Maintains (fun s s' => Extends (read s) (read s')) x
  replays : ∀ {s a s'}, exec x s = (.ok a, s') → ∀ r, Extends (read s') r → y r = .ok a

section Replays

variable {read : σ → κ → Option ν}

theorem Replays.pure (a : α) : Replays read (pure a : Session σ ε α) fun _ => pure a where
  keeps s := .refl _
  replays h r _ := by
    cases h
    rfl

theorem Replays.throw (e : ε) (y : (κ → Option ν) → Except ε α) : Replays read (throw e : Session σ ε α) y where
  keeps s := .refl _
  replays h := by cases h

/-- What reads no evidence is its own replay. -/
theorem Replays.ofExcept (y : Except ε α) :
    Replays read (MonadExcept.ofExcept y : Session σ ε α) fun _ => MonadExcept.ofExcept y where
  keeps s := by
    rw [exec_ofExcept]
    exact .refl _
  replays h r _ := by
    rw [exec_ofExcept] at h
    cases h
    rfl

theorem Replays.bind {x : Session σ ε α} {y : (κ → Option ν) → Except ε α} {f : α → Session σ ε β}
    {g : α → (κ → Option ν) → Except ε β} (hx : Replays read x y) (hf : ∀ a, Replays read (f a) (g a)) :
    Replays read (x >>= f) fun r => y r >>= fun a => g a r where
  keeps := hx.keeps.bind .trans fun a => (hf a).keeps
  replays {s b s'} h r hr := by
    obtain ⟨a, t, hfirst, hrest⟩ := exec_bind_eq_ok.mp h
    have hlater : Extends (read t) (read s') := by
      have hkeeps := (hf a).keeps t
      rwa [hrest] at hkeeps
    rw [hx.replays hfirst r (hlater.trans hr)]
    exact (hf a).replays hrest r hr

end Replays

end RecordReplay
