-- SUMMARY: JSON values as the decoder yields them, the Python operations the projections apply to them, and what lies outside the repository.
import Mathlib.Data.List.Basic

/-!
# JSON values

An event body is a JSON value decoded into Python objects. An object is a
dictionary; it is listed here by key in one fixed order, so that two equal
dictionaries are one value. A float is identified by its shortest text.

`Failure` lists the exceptions a projection can end with besides the driver's
own. `Runtime` collects what the projections call but this repository does not
contain.
-/

namespace Brainzgraphinator

inductive Json where
  | null
  | bool (b : Bool)
  | int (i : Int)
  | float (repr : String)
  | str (s : String)
  | arr (elems : List Json)
  | obj (fields : List (String × Json))

namespace Json

mutual
def decEq : (a b : Json) → Decidable (a = b)
  | .null, b => match b with
    | .null => isTrue rfl
    | .bool _ | .int _ | .float _ | .str _ | .arr _ | .obj _ => isFalse nofun
  | .bool a, b => match b with
    | .bool b => decidable_of_iff (a = b) (by simp)
    | .null | .int _ | .float _ | .str _ | .arr _ | .obj _ => isFalse nofun
  | .int a, b => match b with
    | .int b => decidable_of_iff (a = b) (by simp)
    | .null | .bool _ | .float _ | .str _ | .arr _ | .obj _ => isFalse nofun
  | .float a, b => match b with
    | .float b => decidable_of_iff (a = b) (by simp)
    | .null | .bool _ | .int _ | .str _ | .arr _ | .obj _ => isFalse nofun
  | .str a, b => match b with
    | .str b => decidable_of_iff (a = b) (by simp)
    | .null | .bool _ | .int _ | .float _ | .arr _ | .obj _ => isFalse nofun
  | .arr as, b => match b with
    | .arr bs => @decidable_of_iff _ (as = bs) (by simp) (decEqElems as bs)
    | .null | .bool _ | .int _ | .float _ | .str _ | .obj _ => isFalse nofun
  | .obj as, b => match b with
    | .obj bs => @decidable_of_iff _ (as = bs) (by simp) (decEqFields as bs)
    | .null | .bool _ | .int _ | .float _ | .str _ | .arr _ => isFalse nofun

def decEqElems : (as bs : List Json) → Decidable (as = bs)
  | [], [] => isTrue rfl
  | [], _ :: _ => isFalse nofun
  | _ :: _, [] => isFalse nofun
  | a :: as, b :: bs =>
    match decEq a b, decEqElems as bs with
    | isTrue h, isTrue hs => isTrue (by rw [h, hs])
    | isFalse h, _ => isFalse (by simp [h])
    | _, isFalse hs => isFalse (by simp [hs])

def decEqFields : (as bs : List (String × Json)) → Decidable (as = bs)
  | [], [] => isTrue rfl
  | [], _ :: _ => isFalse nofun
  | _ :: _, [] => isFalse nofun
  | (k, a) :: as, (l, b) :: bs =>
    match decEq a b, decEqFields as bs with
    | isTrue h, isTrue hs =>
      if hk : k = l then isTrue (by rw [h, hs, hk]) else isFalse (by simp [hk])
    | isFalse h, _ => isFalse (by simp [h])
    | _, isFalse hs => isFalse (by simp [hs])
end

instance : DecidableEq Json := decEq

end Json

/-! ## Python operations -/

/-- The exceptions a projection itself can raise. -/
inductive Failure where
  /-- `.get` on something that is not a dictionary. -/
  | attributeError
  /-- Iterating or hashing something that does not support it. -/
  | typeError
  /-- The database rejects a statement. -/
  | clientError
  deriving DecidableEq

abbrev Dict := List (String × Json)

namespace Dict

def get? (d : Dict) (k : String) : Option Json := d.lookup k

/-- `d.get(k)`: absent reads as `None`. -/
def get (d : Dict) (k : String) : Json := (d.get? k).getD .null

end Dict

namespace Json

def truthy : Json → Bool
  | .null => false
  | .bool b => b
  | .int i => i ≠ 0
  | .float r => r ≠ "0.0" && r ≠ "-0.0"
  | .str s => s ≠ ""
  | .arr xs => xs ≠ []
  | .obj fields => fields ≠ []

/-- `a or b`. -/
def or (a b : Json) : Json := if a.truthy then a else b

/-- What `for x in v` runs over. -/
def iter : Json → Except Failure (List Json)
  | .arr xs => .ok xs
  | .str s => .ok (s.toList.map fun c => .str (String.singleton c))
  | .obj fields => .ok (fields.map fun kv => .str kv.1)
  | .null | .bool _ | .int _ | .float _ => .error .typeError

/-- The receiver of a `.get` call. -/
def asDict : Json → Except Failure Dict
  | .obj fields => .ok fields
  | _ => .error .attributeError

def isDict : Json → Bool
  | .obj _ => true
  | _ => false

end Json

/-! ## Outside the repository -/

/-- A release's media block: an object whose `items` is a list. -/
structure MediaBlock where
  fields : Dict
  items : List Json
  items_eq : fields.get "items" = .arr items

/-- What the projections call but this repository does not contain. -/
structure Runtime where
  /-- SHA-256 of the serialisation with sorted keys, in hexadecimal. -/
  hexdigest : List Json → String
  /-- Python's text of a list or a dictionary. -/
  repr : Json → String
  /-- The database accepts the value as a property. -/
  storable : Json → Bool
  /-- `common.media.families_of`. -/
  familiesOf : MediaBlock → List String
  /-- `common.media.map_musicbrainz_release`. -/
  mapMusicbrainzRelease : Dict → MediaBlock
  /-- `common.media.medium_label`; `none` is its `KeyError`. -/
  mediumLabel : String → Option String

/-- `str(v)`. -/
def Json.toStr (rt : Runtime) : Json → String
  | .null => "None"
  | .bool b => if b then "True" else "False"
  | .int i => toString i
  | .float r => r
  | .str s => s
  | .arr xs => rt.repr (.arr xs)
  | .obj fields => rt.repr (.obj fields)

/-- The `str` form of the Discogs id under `key`, unless it is absent or null. -/
def discogsId (rt : Runtime) (key : String) (record : Dict) : Option String :=
  match record.get key with
  | .null => none
  | v => some (v.toStr rt)

end Brainzgraphinator
