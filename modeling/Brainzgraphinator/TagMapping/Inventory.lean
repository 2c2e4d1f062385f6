-- SUMMARY: The tag inventory of a corpus: what a bounded scan counts, whatever the order of the records.
import Brainzgraphinator.Base.Counting
import Brainzgraphinator.Base.Except
import Brainzgraphinator.TagMapping.Replay

/-!
# The tag inventory

`inventory` scans a bounded number of records of a corpus and counts how often each tag
occurs, separately from the votes it has. The report names no tag.
-/

namespace Brainzgraphinator.TagMapping

open Counting OrderedDict

variable {S : Type}

/-! ## Counting -/

structure Tally where
  vocabulary : List (String × Nat) := []
  records : Nat := 0
  fields : Nat := 0
  tagged : Nat := 0
  votes : Nat := 0
  invalid : Nat := 0

/-- A vote count that is a nonnegative integer. -/
def votesOf (tag : Value S) : Nat :=
  match tag.get "count" with
  | .int count => count.toNat
  | _ => 0

/-- The spelling and case of a tag are preserved. -/
def countTag (tally : Tally) (tag : Value S) : Tally :=
  match tag.get "name" with
  | .str name =>
    if strip name = "" then { tally with invalid := tally.invalid + 1 }
    else { tally with vocabulary := bump name 1 tally.vocabulary, votes := tally.votes + votesOf tag }
  | _ => { tally with invalid := tally.invalid + 1 }

variable [Score S]

def countRecord (tally : Tally) (row : Value S) : Except Raised Tally :=
  match row with
  | .dict fields =>
    let present : Bool := "tags" ∈ fields.map Prod.fst
    let tally := { tally with
      records := tally.records + 1
      fields := tally.fields + if present then 1 else 0 }
    let tags := row.get "tags"
    if tags.truthy then
      match tags with
      | .list tags => .ok (tags.foldl countTag { tally with tagged := tally.tagged + 1 })
      | _ => .ok { tally with invalid := tally.invalid + 1 }
    else .ok tally
  | _ => .error .malformed

/-- Read so many lines at most; the flag says whether there were more. -/
def scan (loads : String → Except Raised (Value S)) : Nat → List String → Tally → Except Raised (Tally × Bool)
  | _, [], tally => .ok (tally, false)
  | 0, _ :: _, tally => .ok (tally, true)
  | limit + 1, line :: rest, tally => do
    let row ← loads line
    let tally ← countRecord tally row
    scan loads limit rest tally

structure Inventory (S : Type) where
  records : Nat
  truncated : Bool
  recordsWithTagsField : Nat
  taggedRecords : Nat
  invalidTagEntries : Nat
  distinctTags : Nat
  tagOccurrences : Nat
  nonnegativeVoteSum : Nat
  coverageByTopN : List (Nat × Option S)

def Tally.report (tally : Tally) (truncated : Bool) : Inventory S :=
  let uses := (tally.vocabulary.map Prod.snd).sum
  { records := tally.records
    truncated
    recordsWithTagsField := tally.fields
    taggedRecords := tally.tagged
    invalidTagEntries := tally.invalid
    distinctTags := tally.vocabulary.length
    tagOccurrences := uses
    nonnegativeVoteSum := tally.votes
    coverageByTopN := [10, 100, 1000].map fun n =>
      (n, if uses = 0 then none else some (Score.divNat ((topSum n tally.vocabulary : Int) : S) uses)) }

/-- `loads` is `json.loads`, and the lines are those of the corpus. -/
def inventory (loads : String → Except Raised (Value S)) (lines : List String) (limit : Int) :
    Except Raised (Inventory S) :=
  if limit < 1 then .error (.valueError "a positive bounded record limit is required")
  else do
    let (tally, truncated) ← scan loads limit.toNat lines {}
    return tally.report truncated

/-! ## What is counted -/

section Counted

omit [Score S]

variable {tally : Tally} {tag row : Value S} {tags rows rows' : List (Value S)}

/-- The name of a valid tag entry. -/
def tagName (tag : Value S) : Option String :=
  match tag.get "name" with
  | .str name => if strip name = "" then none else some name
  | _ => none

/-- The tag entries of a record. -/
def entriesOf (row : Value S) : List (Value S) :=
  match row.get "tags" with
  | .list tags => tags
  | _ => []

/-- The names of the valid tag entries of the records. -/
def namesOf (rows : List (Value S)) : List String := (rows.flatMap entriesOf).filterMap tagName

def hasTags : Value S → Bool
  | .dict fields => "tags" ∈ fields.map Prod.fst
  | _ => false

def isRecord : Value S → Bool
  | .dict _ => true
  | _ => false

theorem countTag_eq (tally : Tally) (tag : Value S) : countTag tally tag = { tally with
    vocabulary := (tagName tag).toList.foldl (fun d name => bump name 1 d) tally.vocabulary
    votes := tally.votes + if (tagName tag).isSome then votesOf tag else 0
    invalid := tally.invalid + if (tagName tag).isSome then 0 else 1 } := by
  unfold countTag tagName
  split
  · split
    · rfl
    · rfl
  · rfl

/-- The entries of a record, one after another. -/
theorem foldl_countTag (tags : List (Value S)) (tally : Tally) : tags.foldl countTag tally = { tally with
    vocabulary := (tags.filterMap tagName).foldl (fun d name => bump name 1 d) tally.vocabulary
    votes := tally.votes + ((tags.filter fun tag => (tagName tag).isSome).map votesOf).sum
    invalid := tally.invalid + tags.countP fun tag => !(tagName tag).isSome } := by
  induction tags generalizing tally with
  | nil => rfl
  | cons tag tags ih =>
    rw [List.foldl_cons, ih, countTag_eq]
    cases htag : tagName tag with
    | none => simp [htag, Nat.add_comm, Nat.add_assoc]
    | some name => simp [htag, Nat.add_assoc]

theorem hasTags_of_entriesOf (h : entriesOf row ≠ []) : hasTags row = true := by
  unfold entriesOf at h
  split at h
  · rename_i tags htags
    unfold Value.get at htags
    split at htags
    · rename_i fields
      cases hlookup : fields.lookup "tags" with
      | none =>
        rw [hlookup] at htags
        cases htags
      | some v =>
        have hmem : "tags" ∈ fields.map Prod.fst := by
          by_contra hnot
          cases (lookup_eq_none_iff.mpr hnot).symm.trans hlookup
        exact decide_eq_true hmem
    · cases htags
  · exact absurd rfl h

theorem count_namesOf (rows : List (Value S)) :
    (namesOf rows).length + (rows.flatMap entriesOf).countP (fun tag => !(tagName tag).isSome) =
      (rows.flatMap entriesOf).length := by
  have hnames : (namesOf rows).length = (rows.flatMap entriesOf).countP fun tag => (tagName tag).isSome := by
    rw [namesOf, List.length_filterMap_eq_countP]
  rw [hnames, List.length_eq_countP_add_countP (fun tag => (tagName tag).isSome) (l := rows.flatMap entriesOf)]
  refine congrArg (_ + ·) (List.countP_congr fun tag _ => ?_)
  simp

end Counted

/-- Tags that are there and no list. -/
def oddTags (row : Value S) : Bool :=
  match row.get "tags" with
  | .list _ => false
  | tags => tags.truthy

/-- What there is to count in the records. -/
def Tally.of (rows : List (Value S)) : Tally where
  vocabulary := counter (namesOf rows)
  records := rows.length
  fields := rows.countP hasTags
  tagged := rows.countP fun row => entriesOf row ≠ []
  votes := (((rows.flatMap entriesOf).filter fun tag => (tagName tag).isSome).map votesOf).sum
  invalid := ((rows.flatMap entriesOf).countP fun tag => !(tagName tag).isSome) + rows.countP oddTags

theorem of_concat (rows : List (Value S)) (row : Value S) : Tally.of (rows ++ [row]) =
    { vocabulary := ((entriesOf row).filterMap tagName).foldl (fun d name => bump name 1 d) (Tally.of rows).vocabulary
      records := (Tally.of rows).records + 1
      fields := (Tally.of rows).fields + if hasTags row then 1 else 0
      tagged := (Tally.of rows).tagged + if entriesOf row ≠ [] then 1 else 0
      votes := (Tally.of rows).votes + (((entriesOf row).filter fun tag => (tagName tag).isSome).map votesOf).sum
      invalid := (Tally.of rows).invalid + ((entriesOf row).countP fun tag => !(tagName tag).isSome) +
        if oddTags row then 1 else 0 } := by
  simp only [Tally.of, namesOf, counter, List.flatMap_append, List.flatMap_singleton, List.filterMap_append,
    List.foldl_append, List.length_append, List.length_singleton, List.countP_append, List.countP_singleton,
    List.filter_append, List.map_append, List.sum_append, decide_eq_true_eq]
  refine congrArg (Tally.mk _ _ _ _ _) ?_
  omega

/-- A record adds what there is to count in it. -/
theorem countRecord_of {rows : List (Value S)} {row : Value S} {tally : Tally} :
    countRecord (Tally.of rows) row = .ok tally ↔ isRecord row = true ∧ Tally.of (rows ++ [row]) = tally := by
  rw [of_concat]
  unfold countRecord
  split
  · rename_i fields
    have hrecord : isRecord (.dict fields) = true := rfl
    rw [and_iff_right hrecord]
    cases hvalue : (Value.dict fields).get "tags" with
    | list tags =>
      have hentries : entriesOf (.dict fields) = tags := by rw [entriesOf, hvalue]
      have hodd : oddTags (.dict fields) = false := by rw [oddTags, hvalue]
      rw [hentries, hodd, if_neg Bool.false_ne_true, Nat.add_zero]
      cases tags with
      | nil => exact ⟨fun h => Except.ok.inj h, fun h => congrArg _ h⟩
      | cons tag tags =>
        have htruthy : (Value.list (tag :: tags)).truthy = true := rfl
        dsimp only
        rw [if_pos htruthy, foldl_countTag, if_pos (List.cons_ne_nil _ _)]
        exact ⟨fun h => Except.ok.inj h, fun h => congrArg _ h⟩
    | _ =>
      have hentries : entriesOf (.dict fields) = [] := by rw [entriesOf, hvalue]
      have hodd : oddTags (.dict fields) = ((Value.dict fields).get "tags").truthy := by rw [oddTags, hvalue]
      rw [hentries, hodd, hvalue]
      dsimp only
      split
      · exact ⟨fun h => Except.ok.inj h, fun h => congrArg _ h⟩
      · exact ⟨fun h => Except.ok.inj h, fun h => congrArg _ h⟩
  · rename_i hnot
    constructor
    · intro h
      cases h
    · rintro ⟨hrecord, _⟩
      unfold isRecord at hrecord
      split at hrecord
      · exact absurd rfl (hnot _)
      · cases hrecord

/-! ## What a scan comes to -/

section Scan

variable {loads : String → Except Raised (Value S)} {lines lines' : List String} {limit : Nat} {bound : Int}
  {rows rows' before : List (Value S)} {tally : Tally} {truncated : Bool} {rep : Inventory S}

/-- The line is an object. -/
def Reads (loads : String → Except Raised (Value S)) (line : String) (row : Value S) : Prop :=
  loads line = .ok row ∧ isRecord row = true

/-- A scan has counted what there is to count in the first records. -/
theorem scan_eq_ok : scan loads limit lines (Tally.of before) = .ok (tally, truncated) ↔
    ∃ rows, List.Forall₂ (Reads loads) (lines.take limit) rows ∧ Tally.of (before ++ rows) = tally ∧
      decide (limit < lines.length) = truncated := by
  induction lines generalizing limit before with
  | nil =>
    rw [scan, List.take_nil]
    constructor
    · intro h
      cases h
      exact ⟨[], .nil, by rw [List.append_nil], rfl⟩
    · rintro ⟨rows, hall, rfl, rfl⟩
      cases hall
      rw [List.append_nil]
      rfl
  | cons line lines ih =>
    cases limit with
    | zero =>
      rw [scan, List.take_zero]
      constructor
      · intro h
        cases h
        exact ⟨[], .nil, by rw [List.append_nil], rfl⟩
      · rintro ⟨rows, hall, rfl, rfl⟩
        cases hall
        rw [List.append_nil]
        rfl
    | succ limit =>
      rw [scan, List.take_succ_cons, List.length_cons]
      simp only [Except.bind_eq_ok, countRecord_of, Nat.succ_lt_succ_iff]
      constructor
      · rintro ⟨row, hrow, _, ⟨hrecord, rfl⟩, hrest⟩
        obtain ⟨rows, hall, htally, htruncated⟩ := ih.mp hrest
        refine ⟨row :: rows, .cons ⟨hrow, hrecord⟩ hall, ?_, htruncated⟩
        rwa [List.append_cons]
      · rintro ⟨rows, hall, htally, htruncated⟩
        obtain ⟨row, rows, ⟨hrow, hrecord⟩, hrest, rfl⟩ := List.forall₂_cons_left_iff.mp hall
        refine ⟨row, hrow, _, ⟨hrecord, rfl⟩, ih.mpr ⟨rows, hrest, ?_, htruncated⟩⟩
        rwa [List.append_cons] at htally

theorem inventory_eq_ok : inventory loads lines bound = .ok rep ↔
    1 ≤ bound ∧ ∃ rows, List.Forall₂ (Reads loads) (lines.take bound.toNat) rows ∧
      (Tally.of rows).report (decide (bound.toNat < lines.length)) = rep := by
  unfold inventory
  split
  · rename_i hbound
    constructor
    · intro h
      cases h
    · rintro ⟨hpositive, _⟩
      omega
  · rename_i hbound
    have hscan : ∀ tally truncated, scan loads bound.toNat lines (Tally.of []) = .ok (tally, truncated) ↔ _ :=
      fun _ _ => scan_eq_ok
    rw [and_iff_right (by omega), Except.bind_eq_ok]
    constructor
    · rintro ⟨⟨tally, truncated⟩, h, hrep⟩
      obtain ⟨rows, hall, rfl, rfl⟩ := (hscan _ _).mp h
      exact ⟨rows, hall, Except.pure_eq_ok.mp hrep⟩
    · rintro ⟨rows, hall, rfl⟩
      exact ⟨_, (hscan _ _).mpr ⟨rows, hall, rfl, rfl⟩, rfl⟩

/-- The same records in another order have the same to count, up to the order of the vocabulary. -/
theorem report_of_perm (h : rows.Perm rows') (truncated : Bool) :
    ((Tally.of rows).report truncated : Inventory S) = (Tally.of rows').report truncated := by
  have hentries := h.flatMap_right entriesOf
  have hvocabulary : (Tally.of rows).vocabulary.Perm (Tally.of rows').vocabulary :=
    counter_perm (hentries.filterMap tagName)
  have htop : ∀ n, topSum n (Tally.of rows).vocabulary = topSum n (Tally.of rows').vocabulary :=
    fun n => topSum_perm hvocabulary
  have hvotes := ((hentries.filter fun tag => (tagName tag).isSome).map votesOf).sum_eq
  simp only [Tally.report, hvocabulary.length_eq, (hvocabulary.map Prod.snd).sum_eq, htop]
  simp only [Tally.of, h.length_eq, h.countP_eq, hentries.countP_eq, hvotes]

/-- The order of the records that are scanned decides nothing. -/
theorem inventory_perm (hscanned : (lines.take bound.toNat).Perm (lines'.take bound.toNat))
    (hlength : lines.length = lines'.length) (h : inventory loads lines bound = .ok rep) :
    inventory loads lines' bound = .ok rep := by
  obtain ⟨hbound, rows, hall, rfl⟩ := inventory_eq_ok.mp h
  obtain ⟨rows', hall', hperm⟩ := List.perm_comp_forall₂ hscanned.symm hall
  exact inventory_eq_ok.mpr ⟨hbound, rows', hall', by rw [report_of_perm hperm, hlength]⟩

/-! Three records, the first with a valid and an invalid entry; the last is left unread. -/

def threeRecords : String → Except Raised (Value Whole)
  | "first" => .ok (.dict [("tags", .list [.dict [("name", .str "rock"), ("count", .int 7)], .dict []])])
  | "second" => .ok (.dict [("tags", .list [.dict [("name", .str "jazz")]])])
  | _ => .ok (.dict [])

theorem inventory_perm_threeRecords :
    ∃ rep, inventory threeRecords ["first", "second", "third"] 2 = .ok rep ∧
      (rep.distinctTags, rep.tagOccurrences, rep.invalidTagEntries, rep.truncated) = (2, 2, 1, true) ∧
      inventory threeRecords ["second", "first", "third"] 2 = .ok rep := by
  obtain ⟨rep, hrep, hcounts⟩ := Except.exists_eq_ok
    (x := inventory threeRecords ["first", "second", "third"] 2)
    (f := fun rep => (rep.distinctTags, rep.tagOccurrences, rep.invalidTagEntries, rep.truncated))
    (b := (2, 2, 1, true)) (by decide +kernel)
  have hscanned : (["first", "second", "third"].take (2 : Int).toNat).Perm
      (["second", "first", "third"].take (2 : Int).toNat) := .swap _ _ _
  exact ⟨rep, hrep, hcounts, inventory_perm hscanned rfl hrep⟩

/-- The report accounts for every record that was scanned and for every entry of its tags, and its
coverage is what that many tags can cover at most. -/
theorem inventory_accounts (h : inventory loads lines bound = .ok rep) :
    ∃ rows, List.Forall₂ (Reads loads) (lines.take bound.toNat) rows ∧
      rep.records = min bound.toNat lines.length ∧ (rep.truncated = true ↔ rep.records < lines.length) ∧
      (rep.taggedRecords ≤ rep.recordsWithTagsField ∧ rep.recordsWithTagsField ≤ rep.records) ∧
      rep.tagOccurrences + rep.invalidTagEntries = (rows.flatMap entriesOf).length + rows.countP oddTags ∧
      rep.distinctTags ≤ rep.tagOccurrences ∧ rep.tagOccurrences = (namesOf rows).length ∧
      rep.distinctTags = (namesOf rows).dedup.length ∧
      ∀ n share, (n, share) ∈ rep.coverageByTopN → ∃ top : Nat,
        share = (if rep.tagOccurrences = 0 then none
          else some (Score.divNat (((top : Nat) : Int) : S) rep.tagOccurrences)) ∧
        (∀ names : List String, names.Nodup → names.length ≤ n →
          (names.map fun name => (namesOf rows).count name).sum ≤ top) ∧
        ∃ names : List String, names.Nodup ∧ names.length ≤ n ∧
          (names.map fun name => (namesOf rows).count name).sum = top := by
  obtain ⟨hbound, rows, hall, rfl⟩ := inventory_eq_ok.mp h
  have hrecords : rows.length = min bound.toNat lines.length := by rw [← hall.length_eq, List.length_take]
  have huses : ((Tally.of rows).vocabulary.map Prod.snd).sum = (namesOf rows).length := sum_counter _
  have hcount : ∀ name, ((Tally.of rows).vocabulary.lookup name).getD 0 = (namesOf rows).count name :=
    getD_lookup_counter _
  refine ⟨rows, hall, hrecords, ?_, ⟨?_, List.countP_le_length⟩, ?_, ?_, huses, length_counter _, ?_⟩
  · change decide _ = true ↔ rows.length < _
    rw [decide_eq_true_iff, hrecords]
    omega
  · refine List.countP_mono_left fun row _ hentries => hasTags_of_entriesOf (of_decide_eq_true hentries)
  · change ((Tally.of rows).vocabulary.map Prod.snd).sum + (_ + _) = _
    rw [huses, ← Nat.add_assoc, count_namesOf]
  · change (Tally.of rows).vocabulary.length ≤ ((Tally.of rows).vocabulary.map Prod.snd).sum
    rw [huses]
    exact length_counter_le _
  · intro n share hshare
    simp only [Tally.report, List.mem_map] at hshare
    obtain ⟨n, _, heq⟩ := hshare
    cases heq
    simp only [← hcount]
    exact ⟨topSum n (Tally.of rows).vocabulary, rfl, fun names hnodup hle => sum_le_topSum hnodup hle,
      exists_sum_eq_topSum (nodup_keys_counter _)⟩

theorem inventory_accounts_threeRecords :
    ∃ rep, inventory threeRecords ["first", "second", "third"] 2 = .ok rep ∧
      (rep.taggedRecords, rep.tagOccurrences, rep.invalidTagEntries) = (2, 2, 1) ∧
      rep.records = 2 ∧ (rep.truncated = true ↔ rep.records < 3) ∧ rep.distinctTags ≤ rep.tagOccurrences := by
  obtain ⟨rep, hrep, hcounts⟩ := Except.exists_eq_ok
    (x := inventory threeRecords ["first", "second", "third"] 2)
    (f := fun rep => (rep.taggedRecords, rep.tagOccurrences, rep.invalidTagEntries)) (b := (2, 2, 1)) (by decide +kernel)
  obtain ⟨_, _, hrecords, htruncated, _, _, hdistinct, _⟩ := inventory_accounts hrep
  exact ⟨rep, hrep, hcounts, hrecords, htruncated, hdistinct⟩

end Scan

end Brainzgraphinator.TagMapping
