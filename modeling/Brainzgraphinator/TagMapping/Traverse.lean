-- SUMMARY: The tag mapping tools' two-level beam search over captured child distributions.
import Mathlib.Data.List.Sort
import Mathlib.Data.String.Basic
import Brainzgraphinator.Base.BeamSearch

/-!
# Traversing the taxonomy

`traverse` classifies a tag in two decisions, the genre and then the style, over
distributions that were captured from the provider. It reads them through `evidence`:
the replay looks them up under their key, the capture run obtains what is missing.

A `Value` is a decoded JSON value whose floats are scores. `Score` is the type of
probabilities, their logarithms and of seconds. `Python` collects the library
functions whose results the tools only store or compare.
-/

namespace Brainzgraphinator.TagMapping

class Score (S : Type) extends LinearOrder S, IntCast S, Add S, Sub S, Mul S, Neg S where
  divNat : S → Nat → S
  log : S → S
  exp : S → S
  sum : List S → S
  isFinite : S → Bool
  /-- `math.isclose(x, y, abs_tol=1e-6)`. -/
  isClose : S → S → Bool

inductive Value (S : Type) where
  | null
  | bool (b : Bool)
  | int (i : Int)
  | float (x : S)
  | str (s : String)
  | list (elems : List (Value S))
  | dict (fields : List (String × Value S))

structure Python (S : Type) where
  /-- `hashlib.sha256(json.dumps(v, sort_keys=True, ensure_ascii=b).encode()).hexdigest()`. -/
  hexdigest : Bool → Value S → String
  repr : Value S → String

inductive FailureKind where
  | rateLimited | transient | error | modelMismatch | invalidDistribution
  deriving DecidableEq

inductive Raised where
  | keyError
  /-- `TypeError` or `AttributeError`: a value is not of the shape the code expects. -/
  | malformed
  | valueError (message : String)
  | captureRefused (message : String)
  | captureFailure (kind : FailureKind)
  | budgetExhausted
  deriving DecidableEq

variable {S : Type} [Score S]

namespace Value

/-- `v[key]`. -/
def item (key : String) : Value S → Except Raised (Value S)
  | .dict fields => match fields.lookup key with
    | some v => .ok v
    | none => .error .keyError
  | _ => .error .malformed

/-- `v.get(key) if isinstance(v, dict) else None`. -/
def get (key : String) : Value S → Value S
  | .dict fields => (fields.lookup key).getD .null
  | _ => .null

/-- A set can hold the value. -/
def hashable : Value S → Bool
  | .list _ | .dict _ => false
  | _ => true

/-- The text of a value that is one. -/
def text : Value S → Option String
  | .str s => some s
  | _ => none

/-- The number a value counts as in arithmetic; a bool counts as 0 or 1. -/
def number : Value S → Option S
  | .bool b => some (((if b then 1 else 0) : Int) : S)
  | .int i => some ((i : Int) : S)
  | .float x => some x
  | _ => none

end Value

def model : String := "jev-1.12"
def noneOption : String := "__NONE__"
def genreOnly : String := "__GENRE_ONLY__"
def instructions : String :=
  "Map the MusicBrainz tag to a direct child; choose NONE for non-genre tags and GENRE_ONLY when no style applies."

/-- The pinned model or a minor release of it. -/
def modelOk (name : String) : Bool := name = model || (model ++ ".").toList.isPrefixOf name.toList

/-! ## The taxonomy -/

abbrev Tree := List (String × List String)

structure Taxonomy (S : Type) where
  genres : Tree
  provenance : Value S
  rest : List (String × Value S) := []

def Taxonomy.toValue (taxonomy : Taxonomy S) : Value S :=
  .dict (("genres", .dict (taxonomy.genres.map fun genre => (genre.1, .list (genre.2.map .str)))) ::
    ("provenance", taxonomy.provenance) :: taxonomy.rest)

def taxonomySha (py : Python S) (taxonomy : Taxonomy S) : String := py.hexdigest true taxonomy.toValue

def children (tree : Tree) : List String → List String
  | [] => (tree.map Prod.fst).insertionSort (· ≤ ·) ++ [noneOption]
  | [genre] =>
    if genre = noneOption then [] else ((tree.lookup genre).getD []).insertionSort (· ≤ ·) ++ [genreOnly]
  | _ => []

/-- Order, prompt, taxonomy and pinned model all participate in cache identity. -/
def requestKey (py : Python S) (tag : String) (options : List String) (sha : String) (parent : List String) :
    String :=
  py.hexdigest false (.dict [("tag", .str tag), ("parent", .list (parent.map .str)),
    ("options", .list (options.map .str)), ("taxonomy_sha", .str sha), ("instructions", .str instructions),
    ("model", .str model)])

/-! ## Captured distributions -/

/-- `set(keys) == set(options)`. -/
def sameLabels (keys options : List String) : Bool :=
  keys.all (· ∈ options) && options.all (· ∈ keys)

def inUnitInterval (p : S) : Bool := Score.isFinite p && ((0 : Int) : S) ≤ p && p ≤ ((1 : Int) : S)

def incompleteDistribution : Raised :=
  .valueError "capture must contain the complete valid child distribution"

/-- The probabilities as numbers, up to the first that is none or out of bounds. -/
def shares : List (String × Value S) → Except Raised (List (String × S))
  | [] => .ok []
  | (option, v) :: fields => match v.number with
    | none => .error .malformed
    | some p =>
      if inUnitInterval p then do return (option, p) :: (← shares fields) else .error incompleteDistribution

/-- What comes of probabilities that have no `values`: a list or a text is compared with the
options first, by `set(probabilities)`, which raises for what cannot be hashed. -/
def notADistribution (options : List String) : Value S → Raised
  | .list elements =>
    if !elements.all Value.hashable then .malformed
    else if elements.all (fun v => v.text.isSome) && sameLabels (elements.filterMap Value.text) options then
      .malformed
    else incompleteDistribution
  | .str text => if sameLabels (text.toList.map String.singleton) options then .malformed else incompleteDistribution
  | _ => .malformed

/-- What `traverse` reads off a capture, if it accepts it. -/
def distribution (options : List String) (capture : Value S) : Except Raised (List (String × S)) := do
  match ← capture.item "model" with
  | .str name =>
    if !modelOk name then throw (.valueError "capture did not use the required Jev 1.12 model")
  | _ => throw .malformed
  match ← capture.item "probabilities" with
  | .dict fields =>
    if !sameLabels (fields.map Prod.fst) options then throw incompleteDistribution
    let probabilities ← shares fields
    if !Score.isClose (Score.sum (probabilities.map Prod.snd)) ((1 : Int) : S) then
      throw (.valueError "probabilities must sum to one")
    return probabilities
  | value => throw (notADistribution options value)

/-! ## The search -/

structure Candidate (S : Type) where
  path : List String
  logProbability : S
  decisions : Nat

namespace Candidate

def start : Candidate S := ⟨[], ((0 : Int) : S), 0⟩

/-- The path goes on without a decision. -/
def follow (c : Candidate S) (option : String) : Candidate S := { c with path := c.path ++ [option] }

def decide (c : Candidate S) (option : String) (p : S) : Candidate S :=
  ⟨c.path ++ [option], c.logProbability + Score.log p, c.decisions + 1⟩

def rankKey (c : Candidate S) : S :=
  -(if c.decisions = 0 then ((0 : Int) : S) else Score.divNat c.logProbability c.decisions)

/-- The order of `sorted`: by the key, then by the path. -/
def precedes (c d : Candidate S) : Prop := c.rankKey < d.rankKey ∨ c.rankKey = d.rankKey ∧ c.path ≤ d.path

instance (c d : Candidate S) : Decidable (c.precedes d) := inferInstanceAs (Decidable (_ ∨ _ ∧ _))

end Candidate

/-- The options of positive probability. -/
def decisions (c : Candidate S) (options : List String) (probabilities : List (String × S)) : List (Candidate S) :=
  options.filterMap fun option =>
    (probabilities.lookup option).bind fun p => if p = ((0 : Int) : S) then none else some (c.decide option p)

/-- The best candidates. -/
def beam (width : Nat) (expanded : List (Candidate S)) : List (Candidate S) :=
  (expanded.insertionSort Candidate.precedes).take width

structure Ranked (S : Type) where
  path : List String
  score : S
  deriving DecidableEq

def Candidate.ranked (c : Candidate S) : Ranked S :=
  ⟨c.path, if c.decisions = 0 then ((1 : Int) : S) else Score.exp (Score.divNat c.logProbability c.decisions)⟩

section Traverse

variable {m : Type → Type} [Monad m] [MonadExcept Raised m]

/-- How the search gets the capture for a tag, the options, the parent path and the key. -/
abbrev Evidence (S : Type) (m : Type → Type) := String → List String → List String → String → m (Value S)

def expand (py : Python S) (tag : String) (tree : Tree) (evidence : Evidence S m) (sha : String)
    (c : Candidate S) : m (List (Candidate S)) :=
  match children tree c.path with
  | [] => pure [c]
  | [option] => pure [c.follow option]
  | options => do
    let capture ← evidence tag options c.path (requestKey py tag options sha c.path)
    let probabilities ← MonadExcept.ofExcept (distribution options capture)
    return decisions c options probabilities

def traverse (py : Python S) (tag : String) (tree : Tree) (evidence : Evidence S m) (sha : String) (width : Nat) :
    m (List (Ranked S)) :=
  if width ≠ 1 ∧ width ≠ 3 then throw (.valueError "only greedy and beam K=3 are prepared")
  else do
    let candidates ← BeamSearch.search (expand py tag tree evidence sha) (beam width) 2 [.start]
    return candidates.map Candidate.ranked

end Traverse

/-- `captures[key]`: missing evidence fails closed. -/
def lookUp (captures : String → Option (Value S)) : Evidence S (Except Raised) := fun _ _ _ key =>
  match captures key with
  | some capture => .ok capture
  | none => .error .keyError

end Brainzgraphinator.TagMapping
