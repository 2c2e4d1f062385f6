-- SUMMARY: The taxonomy export: observed pairs and PART_OF pairs, compared and never merged.
import Brainzgraphinator.Base.Except
import Brainzgraphinator.Base.OrderedDict
import Brainzgraphinator.Base.Sorting
import Brainzgraphinator.TagMapping.Replay

/-!
# The taxonomy export

`build` takes the observed genre and style pairs with their counts and the actual PART_OF
pairs, and reports both, what either has over the other, and the styles observed under
several genres. It invents no pair, and the order of the rows decides nothing.
-/

namespace Brainzgraphinator.TagMapping

open Sorting

variable {S : Type}

/-! ## Rows -/

@[ext]
structure Pair where
  genre : String
  style : String
  deriving DecidableEq

def reserved : List String := [noneOption, genreOnly]

def provenanceFields : List String := ["source", "snapshot_id", "exported_at"]

/-- A nonempty, non-reserved string. -/
def usable (value : String) : Bool := strip value ≠ "" && value ∉ reserved

def pairName (row : Value S) (place field : String) : Except Raised String :=
  let refusal := .error (.valueError (place ++ ": " ++ field ++ " must be a nonempty, non-reserved string"))
  match row.get field with
  | .str value => if usable value then .ok value else refusal
  | _ => refusal

def pair (row : Value S) (place : String) : Except Raised Pair :=
  match row with
  | .dict _ => do
    let genre ← pairName row place "genre"
    let style ← pairName row place "style"
    return ⟨genre, style⟩
  | _ => .error (.valueError (place ++ ": row must be an object"))

/-- A pair and how often it was observed. -/
def observation (row : Value S) (place : String) : Except Raised (Pair × Int) := do
  let key ← pair row place
  match row.get "count" with
  | .int count =>
    if count < 1 then throw (.valueError (place ++ ": count must be a positive integer")) else return (key, count)
  | _ => throw (.valueError (place ++ ": count must be a positive integer"))

section ReadDistinct

variable {β : Type} (reprPair : Pair → String) (label : String) (read : Value S → String → Except Raised β)
  (key : β → Pair)

/-- The entry of a row, if there is none of its pair yet. `reprPair` is how a pair is written in a message. -/
def readRow (entries : List β) (row : Value S × Nat) : Except Raised (List β) := do
  let place := label ++ " row " ++ toString row.2
  let entry ← read row.1 place
  if key entry ∈ entries.map key then throw (.valueError (place ++ ": duplicate pair " ++ reprPair (key entry)))
  else return entries ++ [entry]

def readDistinct (rows : List (Value S)) : Except Raised (List β) :=
  rows.zipIdx.foldlM (readRow reprPair label read key) []

end ReadDistinct

/-! ## What is read -/

section Rows

variable {row : Value S} {place field : String} {key : Pair} {entry : Pair × Int}

/-- A row that names the pair. -/
def Names (row : Value S) (key : Pair) : Prop :=
  (row.get "genre" = .str key.genre ∧ usable key.genre = true) ∧ row.get "style" = .str key.style ∧
    usable key.style = true

/-- A row that says how often the pair was observed. -/
def Observes (row : Value S) (entry : Pair × Int) : Prop :=
  Names row entry.1 ∧ row.get "count" = .int entry.2 ∧ 1 ≤ entry.2

theorem pairName_eq_ok {value : String} :
    pairName row place field = .ok value ↔ row.get field = .str value ∧ usable value = true := by
  unfold pairName
  dsimp only
  split
  · rename_i name hname
    rw [hname]
    split
    · rename_i husable
      constructor
      · rintro ⟨⟩
        exact ⟨rfl, husable⟩
      · rintro ⟨⟨⟩, _⟩
        rfl
    · rename_i hnot
      constructor
      · rintro ⟨⟩
      · rintro ⟨⟨⟩, husable⟩
        exact absurd husable hnot
  · rename_i hnot
    constructor
    · rintro ⟨⟩
    · rintro ⟨hname, _⟩
      exact absurd hname (hnot value)

theorem pair_eq_ok : pair row place = .ok key ↔ Names row key := by
  unfold pair
  split
  · simp only [Except.bind_eq_ok, Except.pure_eq_ok, pairName_eq_ok]
    constructor
    · rintro ⟨genre, hgenre, style, hstyle, rfl⟩
      exact ⟨hgenre, hstyle⟩
    · rintro ⟨hgenre, hstyle⟩
      exact ⟨key.genre, hgenre, key.style, hstyle, rfl⟩
  · rename_i hnot
    constructor
    · rintro ⟨⟩
    · rintro ⟨⟨hgenre, _⟩, _⟩
      unfold Value.get at hgenre
      split at hgenre
      · exact absurd rfl (hnot _)
      · cases hgenre

theorem observation_eq_ok : observation row place = .ok entry ↔ Observes row entry := by
  unfold observation
  rw [Except.bind_eq_ok]
  constructor
  · rintro ⟨key, hkey, h⟩
    split at h
    · rename_i count hcount
      split at h
      · cases h
      · rename_i hpositive
        cases h
        exact ⟨pair_eq_ok.mp hkey, hcount, not_lt.mp hpositive⟩
    · cases h
  · rintro ⟨hnames, hcount, hpositive⟩
    refine ⟨entry.1, pair_eq_ok.mpr hnames, ?_⟩
    rw [hcount]
    dsimp only
    rw [if_neg (not_lt.mpr hpositive)]
    rfl

theorem Names.unique {key' : Pair} (h : Names row key) (h' : Names row key') : key = key' := by
  have hgenre := h.1.1.symm.trans h'.1.1
  have hstyle := h.2.1.symm.trans h'.2.1
  exact Pair.ext (Value.str.inj hgenre) (Value.str.inj hstyle)

theorem Observes.unique {entry' : Pair × Int} (h : Observes row entry) (h' : Observes row entry') : entry = entry' := by
  have hcount := h.2.1.symm.trans h'.2.1
  exact Prod.ext (h.1.unique h'.1) (Value.int.inj hcount)

/-- The entries are what the rows say. -/
theorem mem_iff_of_forall₂ {β : Type} {R : Value S → β → Prop} {rows : List (Value S)} {entries : List β}
    (h : List.Forall₂ R rows entries) (hunique : ∀ row entry entry', R row entry → R row entry' → entry = entry')
    {entry : β} : entry ∈ entries ↔ ∃ row ∈ rows, R row entry := by
  induction h with
  | nil => simp
  | cons hrow _ ih =>
    rw [List.mem_cons, List.exists_mem_cons_iff, ih]
    refine or_congr_left ⟨?_, fun hentry => hunique _ _ _ hentry hrow⟩
    rintro rfl
    exact hrow

end Rows

section ReadDistinct

variable {β : Type} {reprPair : Pair → String} {label : String} {read : Value S → String → Except Raised β}
  {key : β → Pair} {R : Value S → β → Prop} {rows rows' : List (Value S)} {entries entries' : List β}

theorem readRow_eq_ok (hread : ∀ row place entry, read row place = .ok entry ↔ R row entry) {row : Value S × Nat} :
    readRow reprPair label read key entries row = .ok entries' ↔
      ∃ entry, R row.1 entry ∧ key entry ∉ entries.map key ∧ entries' = entries ++ [entry] := by
  simp only [readRow, Except.bind_eq_ok, hread]
  refine exists_congr fun entry => and_congr_right fun _ => ?_
  split
  · rename_i hmem
    constructor
    · intro h
      cases h
    · rintro ⟨hnot, _⟩
      exact absurd hmem hnot
  · rename_i hnot
    rw [Except.pure_eq_ok, and_iff_right hnot]
    exact eq_comm

/-- A loop that reads distinct entries has read the entry of every row. -/
theorem foldlM_readRow_eq_ok (hread : ∀ row place entry, read row place = .ok entry ↔ R row entry) {start : Nat}
    (hbefore : (entries.map key).Nodup) :
    (rows.zipIdx start).foldlM (readRow reprPair label read key) entries = .ok entries' ↔
      ∃ after, List.Forall₂ R rows after ∧ entries' = entries ++ after ∧ (entries'.map key).Nodup := by
  induction rows generalizing start entries with
  | nil =>
    rw [List.zipIdx_nil, List.foldlM_nil, Except.pure_eq_ok]
    constructor
    · rintro rfl
      exact ⟨[], .nil, (List.append_nil _).symm, hbefore⟩
    · rintro ⟨after, hall, rfl, _⟩
      cases hall
      exact (List.append_nil _).symm
  | cons row rows ih =>
    simp only [List.zipIdx_cons, List.foldlM_cons, Except.bind_eq_ok, readRow_eq_ok hread]
    constructor
    · rintro ⟨_, ⟨entry, hentry, hnew, rfl⟩, hrest⟩
      have hnodup : ((entries ++ [entry]).map key).Nodup := by
        rw [List.map_append, List.map_singleton]
        rw [← List.concat_eq_append]
        exact hbefore.concat hnew
      obtain ⟨after, hall, rfl, hlast⟩ := (ih hnodup).mp hrest
      exact ⟨entry :: after, .cons hentry hall, List.append_assoc _ _ _, hlast⟩
    · rintro ⟨after, hall, rfl, hlast⟩
      obtain ⟨entry, after, hentry, hrest, rfl⟩ := List.forall₂_cons_left_iff.mp hall
      rw [List.append_cons] at hlast
      have hfirst : ((entries ++ [entry]).map key).Nodup := by
        rw [List.map_append] at hlast
        exact hlast.of_append_left
      refine ⟨_, ⟨entry, hentry, ?_, rfl⟩, (ih hfirst).mpr ⟨after, hrest, List.append_cons _ _ _, ?_⟩⟩
      · rw [List.map_append, List.map_singleton, List.nodup_append] at hfirst
        exact fun hmem => hfirst.2.2 _ hmem _ (List.mem_singleton_self _) rfl
      · rwa [List.append_cons]

theorem readDistinct_eq_ok (hread : ∀ row place entry, read row place = .ok entry ↔ R row entry) :
    readDistinct reprPair label read key rows = .ok entries ↔
      List.Forall₂ R rows entries ∧ (entries.map key).Nodup := by
  have hloop : rows.zipIdx.foldlM (readRow reprPair label read key) [] = .ok entries ↔ _ :=
    foldlM_readRow_eq_ok hread List.nodup_nil
  rw [readDistinct, hloop]
  constructor
  · rintro ⟨after, hall, rfl, hnodup⟩
    exact ⟨hall, hnodup⟩
  · rintro ⟨hall, hnodup⟩
    exact ⟨entries, hall, rfl, hnodup⟩

end ReadDistinct

/-! ## The order of pairs -/

/-- The order of tuples. -/
def Pair.le (a b : Pair) : Prop := a.genre < b.genre ∨ a.genre = b.genre ∧ a.style ≤ b.style

instance (a b : Pair) : Decidable (a.le b) := inferInstanceAs (Decidable (_ ∨ _ ∧ _))

instance : Std.Total Pair.le where
  total a b := by
    rcases lt_trichotomy a.genre b.genre with hlt | heq | hgt
    · exact .inl (.inl hlt)
    · exact (le_total a.style b.style).imp (fun hle => .inr ⟨heq, hle⟩) fun hle => .inr ⟨heq.symm, hle⟩
    · exact .inr (.inl hgt)

instance : IsTrans Pair Pair.le where
  trans a b c hab hbc := by
    rcases hab with hlt | ⟨heq, hle⟩
    · rcases hbc with hlt' | ⟨heq', _⟩
      · exact .inl (hlt.trans hlt')
      · exact .inl (heq' ▸ hlt)
    · rcases hbc with hlt' | ⟨heq', hle'⟩
      · exact .inl (heq ▸ hlt')
      · exact .inr ⟨heq.trans heq', hle.trans hle'⟩

instance : Std.Antisymm Pair.le where
  antisymm a b hab hba := by
    rcases hab with hlt | ⟨heq, hle⟩
    · rcases hba with hlt' | ⟨heq', _⟩
      · exact absurd hlt' hlt.not_gt
      · exact absurd heq' hlt.ne'
    · rcases hba with hlt' | ⟨_, hle'⟩
      · exact absurd heq hlt'.ne'
      · exact Pair.ext heq (le_antisymm hle hle')

/-! ## The export -/

/-- The genres of every style, in the order of the pairs. -/
def parents (observed : List Pair) : List (String × List String) :=
  OrderedDict.accumulate Pair.style (fun key => [key.genre]) (fun genres key => genres ++ [key.genre]) observed

def sharedStyles (observed : List Pair) : List (String × List String) :=
  ((sortBy (· ≤ ·) Prod.fst (parents observed)).filter fun entry => 1 < entry.2.length).map fun entry =>
    (entry.1, sortBy (· ≤ ·) id entry.2)

structure Export (S : Type) where
  provenance : Value S
  synthetic : Bool
  observedPairs : List (Pair × Int)
  partOfPairs : List Pair
  observedCount : Nat
  partOfCount : Nat
  inBoth : Nat
  observedMissingFromPartOf : List (Pair × Int)
  partOfNotObserved : List Pair
  sharedStyles : List (String × List String)

variable [Score S]

def exportOf (provenance : Value S) (observed : List (Pair × Int)) (partOf : List Pair) : Export S where
  provenance := provenance
  synthetic := (provenance.get "synthetic").truthy
  observedPairs := sortBy Pair.le Prod.fst observed
  partOfPairs := sortBy Pair.le id partOf
  observedCount := observed.length
  partOfCount := partOf.length
  inBoth := (observed.map Prod.fst).countP (· ∈ partOf)
  observedMissingFromPartOf :=
    (sortBy Pair.le id ((observed.map Prod.fst).filter (· ∉ partOf))).map fun key =>
      (key, (observed.lookup key).getD 0)
  partOfNotObserved := sortBy Pair.le id (partOf.filter (· ∉ observed.map Prod.fst))
  sharedStyles := sharedStyles (observed.map Prod.fst)

def build (reprPair : Pair → String) (provenance : Value S) (observedRows partOfRows : List (Value S)) :
    Except Raised (Export S) :=
  if provenanceFields.any fun field => !(provenance.get field).truthy then
    .error (.valueError "provenance requires source, snapshot_id, exported_at")
  else do
    let observed ← readDistinct reprPair "observed" observation Prod.fst observedRows
    let partOf ← readDistinct reprPair "part_of" pair id partOfRows
    return exportOf provenance observed partOf

/-! ## Shared styles -/

section SharedStyles

variable {observed observed' : List Pair} {style : String}

/-- The genres a style was observed under, in the order of the pairs. -/
def genresOf (observed : List Pair) (style : String) : List String :=
  (observed.filter fun key => key.style = style).map Pair.genre

theorem parents_eq (observed : List Pair) :
    parents observed = (observed.map Pair.style).eraseDups.map fun style => (style, genresOf observed style) := by
  have hkeys := OrderedDict.keys_accumulate Pair.style (fun key => [key.genre]) (fun genres key => genres ++ [key.genre])
    observed
  have hnodup : ((parents observed).map Prod.fst).Nodup := hkeys ▸ OrderedDict.nodup_eraseDups _
  have hvalues : ∀ style genres, (parents observed).lookup style = some genres → genres = genresOf observed style := by
    intro style genres hlookup
    rw [parents, OrderedDict.lookup_accumulate] at hlookup
    rw [genresOf]
    cases hfilter : observed.filter fun key => key.style = style with
    | nil =>
      rw [hfilter] at hlookup
      cases hlookup
    | cons key rest =>
      rw [hfilter] at hlookup
      rw [← Option.some.inj hlookup, List.foldl_append_eq_append, ← List.flatMap_def, ← List.map_eq_flatMap,
        List.map_cons, List.singleton_append]
  have heq := OrderedDict.eq_map_keys hnodup hvalues
  rwa [parents, hkeys, ← parents] at heq

/-- The styles in their order, each with its genres in theirs, if there are several. -/
theorem sharedStyles_eq (observed : List Pair) :
    sharedStyles observed = ((sortBy (· ≤ ·) id (observed.map Pair.style).eraseDups).filter fun style =>
      1 < (genresOf observed style).length).map fun style => (style, sortBy (· ≤ ·) id (genresOf observed style)) := by
  rw [sharedStyles, parents_eq, sortBy_map, List.filter_map, List.map_map]
  rfl

theorem genresOf_perm (h : observed.Perm observed') (style : String) :
    (genresOf observed style).Perm (genresOf observed' style) := (h.filter _).map _

theorem nodup_genresOf (hnodup : observed.Nodup) : (genresOf observed style).Nodup := by
  refine (List.Nodup.filter _ hnodup).map_on fun key hkey key' hkey' heq => Pair.ext heq ?_
  have hstyle : key.style = style := by simpa using (List.mem_filter.mp hkey).2
  have hstyle' : key'.style = style := by simpa using (List.mem_filter.mp hkey').2
  rw [hstyle, hstyle']

theorem sharedStyles_perm (h : observed.Perm observed') : sharedStyles observed = sharedStyles observed' := by
  have hstyles : (observed.map Pair.style).eraseDups.Perm (observed'.map Pair.style).eraseDups := by
    rw [List.perm_ext_iff_of_nodup (OrderedDict.nodup_eraseDups _) (OrderedDict.nodup_eraseDups _)]
    intro style
    rw [List.mem_eraseDups, List.mem_eraseDups, (h.map Pair.style).mem_iff]
  have hnodup : ((observed.map Pair.style).eraseDups.map id).Nodup := by
    rw [List.map_id]
    exact OrderedDict.nodup_eraseDups _
  rw [sharedStyles_eq, sharedStyles_eq, sortBy_eq_of_perm hstyles hnodup]
  have hcount : ∀ style, (genresOf observed style).length = (genresOf observed' style).length :=
    fun style => (genresOf_perm h style).length_eq
  have hgenres : ∀ style, sortBy (· ≤ ·) id (genresOf observed style) = sortBy (· ≤ ·) id (genresOf observed' style) := by
    intro style
    have hsorted : (sortBy (· ≤ ·) id (genresOf observed style)).map id =
        (sortBy (· ≤ ·) id (genresOf observed' style)).map id := map_sortBy_eq_of_perm (genresOf_perm h style)
    rwa [List.map_id, List.map_id] at hsorted
  simp only [hcount, hgenres]

/-- The shared styles are the styles observed under several genres, each with all of these. -/
theorem mem_sharedStyles (hnodup : observed.Nodup) {genres : List String} :
    (style, genres) ∈ sharedStyles observed ↔
      1 < genres.length ∧ genres.Pairwise (· < ·) ∧ ∀ genre, genre ∈ genres ↔ ⟨genre, style⟩ ∈ observed := by
  have hmem : ∀ style genre, genre ∈ genresOf observed style ↔ ⟨genre, style⟩ ∈ observed := by
    intro style genre
    rw [genresOf, List.mem_map]
    constructor
    · rintro ⟨key, hkey, rfl⟩
      obtain ⟨hmem, hstyle⟩ := List.mem_filter.mp hkey
      rw [← of_decide_eq_true hstyle]
      exact hmem
    · intro hmem
      exact ⟨_, List.mem_filter.mpr ⟨hmem, decide_eq_true rfl⟩, rfl⟩
  have hsorted : ∀ style, (sortBy (· ≤ ·) id (genresOf observed style)).Pairwise (· < ·) := by
    intro style
    have hdistinct : (sortBy (· ≤ ·) id (genresOf observed style)).Nodup :=
      perm_sortBy.nodup_iff.mpr (nodup_genresOf hnodup)
    exact (pairwise_sortBy.and hdistinct).imp fun h => lt_of_le_of_ne h.1 h.2
  rw [sharedStyles_eq, List.mem_map]
  constructor
  · rintro ⟨style', hstyle', heq⟩
    cases heq
    obtain ⟨_, hlength⟩ := List.mem_filter.mp hstyle'
    refine ⟨?_, hsorted style, fun genre => mem_sortBy.trans (hmem style genre)⟩
    rw [perm_sortBy.length_eq]
    exact of_decide_eq_true hlength
  · rintro ⟨hlength, hpairwise, hgenres⟩
    have hperm : genres.Perm (genresOf observed style) := by
      rw [List.perm_ext_iff_of_nodup (hpairwise.imp ne_of_lt) (nodup_genresOf hnodup)]
      exact fun genre => (hgenres genre).trans (hmem style genre).symm
    have hgenres_eq : sortBy (· ≤ ·) id (genresOf observed style) = genres := by
      have hsort : (sortBy (· ≤ ·) id (genresOf observed style)).Perm (genresOf observed style) := perm_sortBy
      refine (hsort.trans hperm.symm).eq_of_pairwise ?_ (hsorted style) hpairwise
      intro a b _ _ hab hba
      exact absurd hab hba.not_gt
    refine ⟨style, List.mem_filter.mpr ⟨mem_sortBy.mpr (List.mem_eraseDups.mpr ?_), ?_⟩, by rw [hgenres_eq]⟩
    · obtain ⟨genre, hgenre⟩ := List.exists_mem_of_length_pos (Nat.zero_lt_of_lt hlength)
      exact List.mem_map.mpr ⟨⟨genre, style⟩, (hgenres genre).mp hgenre, rfl⟩
    · rw [← hperm.length_eq]
      exact decide_eq_true hlength

end SharedStyles

/-! ## What the export reports -/

section Build

variable {reprPair : Pair → String} {provenance : Value S}
  {observedRows observedRows' partOfRows partOfRows' : List (Value S)} {observed observed' : List (Pair × Int)} {partOf partOf' : List Pair} {e : Export S}

theorem build_eq_ok : build reprPair provenance observedRows partOfRows = .ok e ↔
    (∀ field ∈ provenanceFields, (provenance.get field).truthy = true) ∧
      ∃ observed partOf, (List.Forall₂ Observes observedRows observed ∧ (observed.map Prod.fst).Nodup) ∧
        (List.Forall₂ Names partOfRows partOf ∧ partOf.Nodup) ∧ exportOf provenance observed partOf = e := by
  unfold build
  split
  · rename_i hmissing
    obtain ⟨field, hfield, hfalse⟩ := List.any_eq_true.mp hmissing
    constructor
    · intro h
      cases h
    · rintro ⟨hall, _⟩
      rw [hall field hfield] at hfalse
      cases hfalse
  · rename_i hnone
    have hall : ∀ field ∈ provenanceFields, (provenance.get field).truthy = true := by
      intro field hfield
      by_contra hfalse
      exact hnone (List.any_eq_true.mpr ⟨field, hfield, by simpa using hfalse⟩)
    have hobserved : ∀ observed, readDistinct reprPair "observed" observation Prod.fst observedRows = .ok observed ↔
        List.Forall₂ Observes observedRows observed ∧ (observed.map Prod.fst).Nodup :=
      fun _ => readDistinct_eq_ok fun _ _ _ => observation_eq_ok
    have hpartOf : ∀ partOf, readDistinct reprPair "part_of" pair id partOfRows = .ok partOf ↔
        List.Forall₂ Names partOfRows partOf ∧ (partOf.map id).Nodup :=
      fun _ => readDistinct_eq_ok fun _ _ _ => pair_eq_ok
    simp only [List.map_id] at hpartOf
    simp only [Except.bind_eq_ok, Except.pure_eq_ok, hobserved, hpartOf, and_iff_right hall, exists_and_left]

theorem lookup_eq_of_perm (h : observed.Perm observed') (hnodup : (observed.map Prod.fst).Nodup) (key : Pair) :
    observed.lookup key = observed'.lookup key := by
  refine Option.ext fun count => ?_
  rw [OrderedDict.lookup_eq_some_iff hnodup, OrderedDict.lookup_eq_some_iff ((h.map _).nodup_iff.mp hnodup), h.mem_iff]

theorem exportOf_perm (h : observed.Perm observed') (h' : partOf.Perm partOf') (hnodup : (observed.map Prod.fst).Nodup)
    (hnodup' : partOf.Nodup) : exportOf provenance observed partOf = exportOf provenance observed' partOf' := by
  have hkeys := h.map Prod.fst
  have hboth : (observed.map Prod.fst).countP (· ∈ partOf) = (observed'.map Prod.fst).countP (· ∈ partOf') := by
    rw [hkeys.countP_eq]
    exact List.countP_congr fun key _ => by rw [decide_eq_true_iff, decide_eq_true_iff, h'.mem_iff]
  have hmissing : sortBy Pair.le id ((observed.map Prod.fst).filter (· ∉ partOf)) =
      sortBy Pair.le id ((observed'.map Prod.fst).filter (· ∉ partOf')) := by
    have hfilter : (observed'.map Prod.fst).filter (· ∉ partOf) = (observed'.map Prod.fst).filter (· ∉ partOf') :=
      List.filter_congr fun key _ => by rw [decide_eq_decide, h'.mem_iff]
    rw [← hfilter]
    refine sortBy_eq_of_perm (hkeys.filter _) ?_
    rw [List.map_id]
    exact hnodup.filter _
  have hextra : sortBy Pair.le id (partOf.filter (· ∉ observed.map Prod.fst)) =
      sortBy Pair.le id (partOf'.filter (· ∉ observed'.map Prod.fst)) := by
    have hfilter : partOf'.filter (· ∉ observed.map Prod.fst) = partOf'.filter (· ∉ observed'.map Prod.fst) :=
      List.filter_congr fun key _ => by rw [decide_eq_decide, hkeys.mem_iff]
    rw [← hfilter]
    refine sortBy_eq_of_perm (h'.filter _) ?_
    rw [List.map_id]
    exact hnodup'.filter _
  have hpairs : sortBy Pair.le id partOf = sortBy Pair.le id partOf' :=
    sortBy_eq_of_perm h' (by rwa [List.map_id])
  have hlookup : ∀ key, observed.lookup key = observed'.lookup key := lookup_eq_of_perm h hnodup
  simp only [exportOf, sortBy_eq_of_perm h hnodup, hpairs, h.length_eq, h'.length_eq, hboth, hmissing, hextra,
    sharedStyles_perm hkeys, hlookup]

/-- The order of the rows decides nothing. -/
theorem build_perm (hobserved : observedRows.Perm observedRows') (hpartOf : partOfRows.Perm partOfRows')
    (h : build reprPair provenance observedRows partOfRows = .ok e) :
    build reprPair provenance observedRows' partOfRows' = .ok e := by
  obtain ⟨hprovenance, observed, partOf, ⟨hall, hnodup⟩, ⟨hall', hnodup'⟩, rfl⟩ := build_eq_ok.mp h
  obtain ⟨observed', hread, hperm⟩ := List.perm_comp_forall₂ hobserved.symm hall
  obtain ⟨partOf', hread', hperm'⟩ := List.perm_comp_forall₂ hpartOf.symm hall'
  refine build_eq_ok.mpr ⟨hprovenance, observed', partOf', ⟨hread, (hperm.map _).nodup_iff.mpr hnodup⟩,
    ⟨hread', hperm'.nodup_iff.mpr hnodup'⟩, (exportOf_perm hperm.symm hperm'.symm hnodup hnodup').symm⟩

/-! A style observed under two genres, and PART_OF one of them. -/

def punkProvenance : Value Whole :=
  .dict [("source", .str "fixture"), ("snapshot_id", .str "1"), ("exported_at", .str "today")]

def punkRow (genre : String) (count : Int) : Value Whole :=
  .dict [("genre", .str genre), ("style", .str "Punk"), ("count", .int count)]

theorem build_perm_punk :
    ∃ e, build (fun _ => "") punkProvenance [punkRow "Rock" 3, punkRow "Electronic" 1] [punkRow "Rock" 1] = .ok e ∧
      e.sharedStyles = [("Punk", ["Electronic", "Rock"])] ∧
      build (fun _ => "") punkProvenance [punkRow "Electronic" 1, punkRow "Rock" 3] [punkRow "Rock" 1] = .ok e := by
  obtain ⟨e, he, hshared⟩ := Except.exists_eq_ok
    (x := build (fun _ => "") punkProvenance [punkRow "Rock" 3, punkRow "Electronic" 1] [punkRow "Rock" 1])
    (f := Export.sharedStyles) (b := [("Punk", ["Electronic", "Rock"])]) (by decide +kernel)
  exact ⟨e, he, hshared, build_perm (.swap _ _ _) (.refl _) he⟩

/-- How many there are in both does not depend on which of the two is gone through. -/
theorem countP_mem_comm {keys keys' : List Pair} (hnodup : keys.Nodup) (hnodup' : keys'.Nodup) :
    keys.countP (· ∈ keys') = keys'.countP (· ∈ keys) := by
  rw [List.countP_eq_length_filter, List.countP_eq_length_filter]
  refine List.Perm.length_eq ?_
  rw [List.perm_ext_iff_of_nodup (hnodup.filter _) (hnodup'.filter _)]
  intro key
  rw [List.mem_filter, List.mem_filter, decide_eq_true_iff, decide_eq_true_iff, and_comm]

theorem countP_add_length_filter (keys keys' : List Pair) :
    keys.countP (· ∈ keys') + (keys.filter (· ∉ keys')).length = keys.length := by
  have hparts := List.length_eq_countP_add_countP (fun key => decide (key ∈ keys')) (l := keys)
  rw [hparts, ← List.countP_eq_length_filter]
  refine congrArg (_ + ·) (List.countP_congr fun key _ => ?_)
  simp

/-- The export reports the pairs of the rows and no others, each once and in order; what is in
both, missing and extra add up; and the shared styles are those of several observed genres. -/
theorem build_exact (h : build reprPair provenance observedRows partOfRows = .ok e) :
    ((∀ entry, entry ∈ e.observedPairs ↔ ∃ row ∈ observedRows, Observes row entry) ∧
      (e.observedPairs.map Prod.fst).Pairwise (fun a b => a.le b ∧ a ≠ b)) ∧
    ((∀ key, key ∈ e.partOfPairs ↔ ∃ row ∈ partOfRows, Names row key) ∧
      e.partOfPairs.Pairwise (fun a b => a.le b ∧ a ≠ b)) ∧
    (∀ entry, entry ∈ e.observedMissingFromPartOf ↔ entry ∈ e.observedPairs ∧ entry.1 ∉ e.partOfPairs) ∧
    (∀ key, key ∈ e.partOfNotObserved ↔ key ∈ e.partOfPairs ∧ key ∉ e.observedPairs.map Prod.fst) ∧
    (e.inBoth + e.observedMissingFromPartOf.length = observedRows.length ∧
      e.inBoth + e.partOfNotObserved.length = partOfRows.length) ∧
    ∀ style genres, (style, genres) ∈ e.sharedStyles ↔ 1 < genres.length ∧ genres.Pairwise (· < ·) ∧
      ∀ genre, genre ∈ genres ↔ ⟨genre, style⟩ ∈ e.observedPairs.map Prod.fst := by
  obtain ⟨_, observed, partOf, ⟨hall, hnodup⟩, ⟨hall', hnodup'⟩, rfl⟩ := build_eq_ok.mp h
  have hobserved : ∀ entry, entry ∈ sortBy Pair.le Prod.fst observed ↔ entry ∈ observed := fun _ => mem_sortBy
  have hkeys : ∀ key, key ∈ (sortBy Pair.le Prod.fst observed).map Prod.fst ↔ key ∈ observed.map Prod.fst :=
    fun _ => (perm_sortBy.map _).mem_iff
  have hpartOf : ∀ key, key ∈ sortBy Pair.le id partOf ↔ key ∈ partOf := fun _ => mem_sortBy
  refine ⟨⟨fun entry => ?_, ?_⟩, ⟨fun key => ?_, ?_⟩, fun entry => ?_, fun key => ?_, ⟨?_, ?_⟩, fun style genres => ?_⟩
  · exact (hobserved entry).trans (mem_iff_of_forall₂ hall fun _ _ _ => Observes.unique)
  · have hdistinct : ((sortBy Pair.le Prod.fst observed).map Prod.fst).Nodup := (perm_sortBy.map _).nodup_iff.mpr hnodup
    exact (List.pairwise_map.mpr pairwise_sortBy).and hdistinct
  · exact (hpartOf key).trans (mem_iff_of_forall₂ hall' fun _ _ _ => Names.unique)
  · have hdistinct : (sortBy Pair.le id partOf).Nodup := perm_sortBy.nodup_iff.mpr hnodup'
    exact pairwise_sortBy.and hdistinct
  · simp only [exportOf, hobserved, hpartOf, List.mem_map, mem_sortBy, List.mem_filter, decide_eq_true_eq]
    constructor
    · rintro ⟨key, ⟨⟨⟨key', count⟩, hmem, rfl⟩, hnot⟩, rfl⟩
      have hlookup := (OrderedDict.lookup_eq_some_iff hnodup).mpr hmem
      rw [hlookup]
      exact ⟨hmem, hnot⟩
    · rintro ⟨hmem, hnot⟩
      have hlookup := (OrderedDict.lookup_eq_some_iff hnodup).mpr hmem
      exact ⟨entry.1, ⟨⟨entry, hmem, rfl⟩, hnot⟩, by rw [hlookup, Option.getD_some]⟩
  · simp only [exportOf, hkeys, hpartOf, mem_sortBy, List.mem_filter, decide_eq_true_eq]
  · simp only [exportOf, List.length_map, perm_sortBy.length_eq]
    rw [countP_add_length_filter, List.length_map, hall.length_eq]
  · simp only [exportOf, perm_sortBy.length_eq]
    rw [countP_mem_comm hnodup hnodup', countP_add_length_filter, hall'.length_eq]
  · simp only [exportOf, hkeys]
    exact mem_sharedStyles hnodup

theorem build_exact_punk :
    ∃ e, build (fun _ => "") punkProvenance [punkRow "Rock" 3, punkRow "Electronic" 1] [punkRow "Rock" 1] = .ok e ∧
      e.inBoth = 1 ∧ e.inBoth + e.observedMissingFromPartOf.length = 2 ∧ e.inBoth + e.partOfNotObserved.length = 1 := by
  obtain ⟨e, he, hboth⟩ := Except.exists_eq_ok
    (x := build (fun _ => "") punkProvenance [punkRow "Rock" 3, punkRow "Electronic" 1] [punkRow "Rock" 1])
    (f := Export.inBoth) (b := 1) (by decide +kernel)
  obtain ⟨_, _, _, _, ⟨hmissing, hextra⟩, _⟩ := build_exact he
  exact ⟨e, he, hboth, hmissing, hextra⟩

end Build

end Brainzgraphinator.TagMapping
