-- SUMMARY: A self-delimiting serialisation of JSON values, and a runtime whose digest is that serialisation.
import Brainzgraphinator.Projections.Json

/-!
# An injective digest

The gates rest on the digest of a payload identifying it. `Json.chars` writes a
value so that where it ends can be read off the text, so that the serialisation of
a payload determines it (`serialize_injective`). `plainRuntime` takes it as the
digest; with it the hypothesis of an injective digest is met.
-/

namespace Brainzgraphinator

/-! ## Serialisation -/

/-- A number in unary. -/
def natChars (n : Nat) : List Char := List.replicate n '1' ++ ['.']

def stringChars (s : String) : List Char := natChars s.length ++ s.toList

namespace Json

mutual
def chars : Json → List Char
  | .null => ['n']
  | .bool b => ['b', if b then '1' else '0']
  | .int (.ofNat n) => 'p' :: natChars n
  | .int (.negSucc n) => 'm' :: natChars n
  | .float repr => 'f' :: stringChars repr
  | .str s => 's' :: stringChars s
  | .arr elems => 'a' :: elemChars elems
  | .obj fields => 'o' :: fieldChars fields

def elemChars : List Json → List Char
  | [] => [']']
  | v :: vs => ',' :: (chars v ++ elemChars vs)

def fieldChars : List (String × Json) → List Char
  | [] => ['}']
  | (k, v) :: fields => ',' :: (stringChars k ++ (chars v ++ fieldChars fields))
end

end Json

def serialize (parts : List Json) : String := String.ofList (Json.elemChars parts)

/-! ## Where a value ends -/

theorem natChars_append_inj {m n : Nat} {s t : List Char}
    (h : natChars m ++ s = natChars n ++ t) : m = n ∧ s = t := by
  induction m generalizing n with
  | zero =>
    cases n with
    | zero => simpa [natChars] using h
    | succ n => simp [natChars, List.replicate_succ] at h
  | succ m ih =>
    cases n with
    | zero => simp [natChars, List.replicate_succ] at h
    | succ n =>
      simp only [natChars, List.replicate_succ, List.cons_append, List.cons.injEq, true_and] at h
      obtain ⟨rfl, rfl⟩ := ih h
      exact ⟨rfl, rfl⟩

theorem stringChars_append_inj {a b : String} {s t : List Char}
    (h : stringChars a ++ s = stringChars b ++ t) : a = b ∧ s = t := by
  rw [stringChars, stringChars, List.append_assoc, List.append_assoc] at h
  obtain ⟨hlen, h⟩ := natChars_append_inj h
  obtain ⟨hchars, hrest⟩ := List.append_inj h hlen
  exact ⟨String.toList_inj.mp hchars, hrest⟩

namespace Json

mutual
theorem chars_append_inj : ∀ {a b : Json} {s t : List Char},
    chars a ++ s = chars b ++ t → a = b ∧ s = t
  | .null, b, s, t, h => by
    cases b with
    | null => simpa [chars] using h
    | int i => cases i <;> simp [chars] at h
    | _ => simp [chars] at h
  | .bool a, b, s, t, h => by
    cases b with
    | bool b =>
      simp only [chars, List.cons_append, List.cons.injEq, true_and, List.nil_append] at h
      refine ⟨?_, h.2⟩
      cases a <;> cases b <;> simp_all
    | int i => cases i <;> simp [chars] at h
    | _ => simp [chars] at h
  | .int (.ofNat m), b, s, t, h => by
    cases b with
    | int i =>
      cases i with
      | ofNat n =>
        simp only [chars, List.cons_append, List.cons.injEq, true_and] at h
        obtain ⟨rfl, rfl⟩ := natChars_append_inj h
        exact ⟨rfl, rfl⟩
      | negSucc n => simp [chars] at h
    | _ => simp [chars] at h
  | .int (.negSucc m), b, s, t, h => by
    cases b with
    | int i =>
      cases i with
      | ofNat n => simp [chars] at h
      | negSucc n =>
        simp only [chars, List.cons_append, List.cons.injEq, true_and] at h
        obtain ⟨rfl, rfl⟩ := natChars_append_inj h
        exact ⟨rfl, rfl⟩
    | _ => simp [chars] at h
  | .float a, b, s, t, h => by
    cases b with
    | float b =>
      simp only [chars, List.cons_append, List.cons.injEq, true_and] at h
      obtain ⟨rfl, rfl⟩ := stringChars_append_inj h
      exact ⟨rfl, rfl⟩
    | int i => cases i <;> simp [chars] at h
    | _ => simp [chars] at h
  | .str a, b, s, t, h => by
    cases b with
    | str b =>
      simp only [chars, List.cons_append, List.cons.injEq, true_and] at h
      obtain ⟨rfl, rfl⟩ := stringChars_append_inj h
      exact ⟨rfl, rfl⟩
    | int i => cases i <;> simp [chars] at h
    | _ => simp [chars] at h
  | .arr as, b, s, t, h => by
    cases b with
    | arr bs =>
      simp only [chars, List.cons_append, List.cons.injEq, true_and] at h
      obtain ⟨rfl, rfl⟩ := elemChars_append_inj h
      exact ⟨rfl, rfl⟩
    | int i => cases i <;> simp [chars] at h
    | _ => simp [chars] at h
  | .obj as, b, s, t, h => by
    cases b with
    | obj bs =>
      simp only [chars, List.cons_append, List.cons.injEq, true_and] at h
      obtain ⟨rfl, rfl⟩ := fieldChars_append_inj h
      exact ⟨rfl, rfl⟩
    | int i => cases i <;> simp [chars] at h
    | _ => simp [chars] at h

theorem elemChars_append_inj : ∀ {as bs : List Json} {s t : List Char},
    elemChars as ++ s = elemChars bs ++ t → as = bs ∧ s = t
  | [], [], s, t, h => by simpa [elemChars] using h
  | [], _ :: _, s, t, h => by simp [elemChars] at h
  | _ :: _, [], s, t, h => by simp [elemChars] at h
  | a :: as, b :: bs, s, t, h => by
    simp only [elemChars, List.cons_append, List.cons.injEq, true_and, List.append_assoc] at h
    obtain ⟨rfl, hrest⟩ := chars_append_inj h
    obtain ⟨rfl, rfl⟩ := elemChars_append_inj hrest
    exact ⟨rfl, rfl⟩

theorem fieldChars_append_inj : ∀ {as bs : List (String × Json)} {s t : List Char},
    fieldChars as ++ s = fieldChars bs ++ t → as = bs ∧ s = t
  | [], [], s, t, h => by simpa [fieldChars] using h
  | [], (_, _) :: _, s, t, h => by simp [fieldChars] at h
  | (_, _) :: _, [], s, t, h => by simp [fieldChars] at h
  | (k, a) :: as, (l, b) :: bs, s, t, h => by
    simp only [fieldChars, List.cons_append, List.cons.injEq, true_and, List.append_assoc] at h
    obtain ⟨rfl, hvalue⟩ := stringChars_append_inj h
    obtain ⟨rfl, hrest⟩ := chars_append_inj hvalue
    obtain ⟨rfl, rfl⟩ := fieldChars_append_inj hrest
    exact ⟨rfl, rfl⟩
end

end Json

theorem serialize_injective : Function.Injective serialize := by
  intro xs ys h
  have hchars : Json.elemChars xs ++ [] = Json.elemChars ys ++ [] := by
    simpa [serialize] using congrArg String.toList h
  exact (Json.elemChars_append_inj hchars).1

/-! ## A concrete runtime -/

/-- Media vocabulary spelled in the items themselves; every value can be stored. -/
def plainRuntime : Runtime where
  hexdigest := serialize
  repr _ := ""
  storable _ := true
  familiesOf media := media.items.filterMap fun item =>
    match item with
    | .obj fields => match Dict.get fields "family" with
      | .str family => some family
      | _ => none
    | _ => none
  mapMusicbrainzRelease _ := ⟨[("items", .arr [])], [], rfl⟩
  mediumLabel id := some id

theorem plainRuntime_injective : Function.Injective plainRuntime.hexdigest := serialize_injective

end Brainzgraphinator
