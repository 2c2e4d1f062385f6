-- SUMMARY: Inversion lemmas for computations that may fail.
import Mathlib.Data.List.Forall2

/-!
# Computations that may fail

A computation in `Except` that came out `ok` is taken apart step by step:
`bind_eq_ok` for a sequence, `mapM_eq_ok` for a loop.
-/

namespace Except

universe u v

variable {ε : Type u} {α β : Type v}

theorem bind_eq_ok {x : Except ε α} {f : α → Except ε β} {b : β} :
    (x >>= f) = .ok b ↔ ∃ a, x = .ok a ∧ f a = .ok b := by
  cases x with
  | error e => simp [bind, Except.bind]
  | ok a => simp [bind, Except.bind]

theorem bind_eq_error {x : Except ε α} {f : α → Except ε β} {e : ε} :
    (x >>= f) = .error e ↔ x = .error e ∨ ∃ a, x = .ok a ∧ f a = .error e := by
  cases x with
  | error e => simp [bind, Except.bind]
  | ok a => simp [bind, Except.bind]

theorem pure_eq_ok {a b : α} : (pure a : Except ε α) = .ok b ↔ a = b := by
  simp [pure, Except.pure]

/-- A computation whose result can be read off has come out `ok`. -/
theorem exists_eq_ok {x : Except ε α} {f : α → β} {b : β} (h : x.toOption.map f = some b) :
    ∃ a, x = .ok a ∧ f a = b := by
  cases x with
  | error e => cases h
  | ok a => exact ⟨a, rfl, Option.some.inj h⟩

/-- A loop that fails on no element maps every element to its own result. -/
theorem mapM_eq_ok {f : α → Except ε β} {xs : List α} {ys : List β} :
    xs.mapM f = .ok ys ↔ List.Forall₂ (fun x y => f x = .ok y) xs ys := by
  induction xs generalizing ys with
  | nil =>
    rw [List.mapM_nil, pure_eq_ok, List.forall₂_nil_left_iff, eq_comm]
  | cons x xs ih =>
    rw [List.mapM_cons, bind_eq_ok]
    constructor
    · rintro ⟨y, hy, hrest⟩
      obtain ⟨ys', hys, hpure⟩ := bind_eq_ok.mp hrest
      rw [pure_eq_ok] at hpure
      exact hpure ▸ .cons hy (ih.mp hys)
    · rintro (_ | ⟨hy, hys⟩)
      exact ⟨_, hy, bind_eq_ok.mpr ⟨_, ih.mpr hys, rfl⟩⟩

/-- A loop that fails on no element comes out `ok`. -/
theorem exists_mapM_eq_ok {f : α → Except ε β} {xs : List α} (h : ∀ x ∈ xs, ∃ y, f x = .ok y) :
    ∃ ys, xs.mapM f = .ok ys := by
  induction xs with
  | nil => exact ⟨[], rfl⟩
  | cons x xs ih =>
    obtain ⟨y, hy⟩ := h x List.mem_cons_self
    obtain ⟨ys, hys⟩ := ih fun z hz => h z (List.mem_cons_of_mem _ hz)
    exact ⟨y :: ys, mapM_eq_ok.mpr (.cons hy (mapM_eq_ok.mp hys))⟩

/-- Every result of the loop is the result of some element. -/
theorem exists_of_mem_mapM {f : α → Except ε β} {xs : List α} {ys : List β}
    (h : xs.mapM f = .ok ys) {y : β} (hy : y ∈ ys) : ∃ x ∈ xs, f x = .ok y := by
  have hrel := mapM_eq_ok.mp h
  clear h
  induction hrel with
  | nil => cases hy
  | cons hxy _ ih =>
    rcases List.mem_cons.mp hy with rfl | hy
    · exact ⟨_, List.mem_cons_self, hxy⟩
    · obtain ⟨x, hx, hok⟩ := ih hy
      exact ⟨x, List.mem_cons_of_mem _ hx, hok⟩

/-- Every element has a result in the loop. -/
theorem exists_mem_of_mapM {f : α → Except ε β} {xs : List α} {ys : List β}
    (h : xs.mapM f = .ok ys) {x : α} (hx : x ∈ xs) : ∃ y ∈ ys, f x = .ok y := by
  have hrel := mapM_eq_ok.mp h
  clear h
  induction hrel with
  | nil => cases hx
  | cons hxy _ ih =>
    rcases List.mem_cons.mp hx with rfl | hx
    · exact ⟨_, List.mem_cons_self, hxy⟩
    · obtain ⟨y, hy, hok⟩ := ih hx
      exact ⟨y, List.mem_cons_of_mem _ hy, hok⟩

/-- What the results keep of the elements, read back in order. -/
theorem map_of_mapM {γ : Type*} {f : α → Except ε β} {key : β → γ} {key' : α → γ} {xs : List α}
    {ys : List β} (h : xs.mapM f = .ok ys) (hkey : ∀ x y, f x = .ok y → key y = key' x) :
    ys.map key = xs.map key' := by
  have hrel := mapM_eq_ok.mp h
  clear h
  induction hrel with
  | nil => rfl
  | cons hxy _ ih => rw [List.map_cons, List.map_cons, ih, hkey _ _ hxy]

/-- A loop none of whose steps can fail comes out `ok`. -/
theorem exists_foldlM_eq_ok {f : β → α → Except ε β} {xs : List α}
    (h : ∀ x ∈ xs, ∀ b, ∃ b', f b x = .ok b') (b : β) : ∃ b', xs.foldlM f b = .ok b' := by
  induction xs generalizing b with
  | nil => exact ⟨b, rfl⟩
  | cons x xs ih =>
    obtain ⟨b₁, hb₁⟩ := h x List.mem_cons_self b
    obtain ⟨b', hb'⟩ := ih (fun y hy => h y (List.mem_cons_of_mem _ hy)) b₁
    exact ⟨b', by rw [List.foldlM_cons]; exact bind_eq_ok.mpr ⟨b₁, hb₁, hb'⟩⟩

/-- A loop that came out `ok` had no step that failed. -/
theorem exists_of_foldlM_eq_ok {f : β → α → Except ε β} {xs : List α} {b b' : β}
    (h : xs.foldlM f b = .ok b') : ∀ x ∈ xs, ∃ b₀ b₁, f b₀ x = .ok b₁ := by
  induction xs generalizing b with
  | nil => nofun
  | cons y xs ih =>
    rw [List.foldlM_cons] at h
    obtain ⟨b₁, hb₁, h⟩ := bind_eq_ok.mp h
    intro x hx
    rcases List.mem_cons.mp hx with rfl | hx
    · exact ⟨b, b₁, hb₁⟩
    · exact ih h x hx

/-- Where failing depends on the element only, a loop fails with the first failure. -/
theorem foldlM_eq_error {f : β → α → Except ε β} {err : α → Option ε}
    (hf : ∀ b x e, f b x = .error e ↔ err x = some e) {xs : List α} {b : β} {e : ε} :
    xs.foldlM f b = .error e ↔ xs.findSome? err = some e := by
  induction xs generalizing b with
  | nil => simp [List.foldlM_nil, pure, Except.pure]
  | cons x xs ih =>
    rw [List.foldlM_cons, bind_eq_error, List.findSome?_cons]
    cases hx : err x with
    | some e' =>
      have hfail : f b x = .error e' := (hf b x e').mpr hx
      simp [hfail]
    | none =>
      cases hb : f b x with
      | error e' => rw [(hf b x e').mp hb] at hx; cases hx
      | ok b' => simp [ih]

end Except
