-- SUMMARY: The counter dictionaries of a write: what the attempts of a transaction leave in them, and their merge into the shared one.
import Brainzgraphinator.Projections.Enrich

/-!
# Counters

A projection counts into a dictionary, and the driver may call a transaction
function again. The three transaction functions start an attempt at zero in their
own ways: `_commit` with a fresh dictionary, `_replay` and `_write_single` by zeroing
the keys the dictionary has got so far. Either way the last attempt decides.
-/

namespace Brainzgraphinator

/-! ## Dictionaries of counters -/

/-- `dict[str, int]`. -/
structure Counters where
  items : List (String × Int)
  nodup : (items.map Prod.fst).Nodup

namespace Counters

def keys (c : Counters) : List String := c.items.map Prod.fst

/-- `counters.get(key, 0)`. -/
def value (c : Counters) (key : String) : Int := (c.items.lookup key).getD 0

def empty : Counters := ⟨[], List.nodup_nil⟩

/-- `dict.fromkeys(keys, 0)`. -/
def fromKeys (keys : List String) (h : keys.Nodup) : Counters :=
  ⟨keys.map fun key => (key, 0), by rwa [List.map_map, show Prod.fst ∘ _ = id from rfl, List.map_id]⟩

/-- `for key in counters: counters[key] = 0`. -/
def zeroed (c : Counters) : Counters :=
  ⟨c.items.map fun e => (e.1, 0), by rw [List.map_map]; exact c.nodup⟩

/-- `counters[key] = counters.get(key, 0) + n`. -/
def add (key : String) (n : Int) (c : Counters) : Counters :=
  ⟨OrderedDict.set key (c.value key + n) c.items, OrderedDict.nodup_keys_set c.nodup⟩

end Counters

def Stats.items (s : Stats) : List (String × Int) :=
  [("entities_enriched", s.entitiesEnriched),
    ("entities_skipped_no_discogs_match", s.entitiesSkippedNoDiscogsMatch),
    ("relationships_created", s.relationshipsCreated),
    ("relationships_updated", s.relationshipsUpdated),
    ("relationships_skipped_missing_side", s.relationshipsSkippedMissingSide),
    ("replays_skipped_unchanged", s.replaysSkippedUnchanged)]

/-- The keys of `enrichment_stats`. -/
def enrichmentKeys : List String :=
  ["entities_enriched", "entities_skipped_no_discogs_match", "relationships_created",
    "relationships_updated", "relationships_skipped_missing_side", "replays_skipped_unchanged"]

theorem Stats.keys_items (s : Stats) : s.items.map Prod.fst = enrichmentKeys := rfl

theorem nodup_enrichmentKeys : enrichmentKeys.Nodup := by decide

/-- What was counted under this name. -/
def Stats.get (s : Stats) (key : String) : Int := (s.items.lookup key).getD 0

namespace Counters

/-- Count what a projection counts. A counter that stays at zero adds no key. -/
def count (c : Counters) (s : Stats) : Counters :=
  s.items.foldl (fun c e => if e.2 = 0 then c else c.add e.1 e.2) c

/-- `dict.fromkeys(enrichment_stats, 0)`. -/
def ofEnrichment : Counters := fromKeys enrichmentKeys nodup_enrichmentKeys

/-- `local_stats` of a delivery. -/
def ofDelivery : Counters :=
  fromKeys ["entities_enriched", "entities_skipped_no_discogs_match", "relationships_created",
    "relationships_updated", "relationships_skipped_missing_side"] (by decide)

end Counters

/-! ## Attempts -/

/-- An attempt of a transaction function: what it counted, and its answer if it ran to
its end. The commit may fail all the same. -/
structure Attempt (α : Type) where
  counted : Stats
  answer : Option α

/-- `outcome` of `_commit`. -/
def commitOutcome (attempts : List (Attempt (List Bool))) : List Bool × Counters :=
  attempts.foldl (fun outcome a =>
    match a.answer with
    | none => outcome
    | some flags => (flags, Counters.ofEnrichment.count a.counted)) ([], Counters.empty)

/-- The dictionary of `_replay` and of `_write_single`. -/
def retried (c : Counters) (attempts : List (Attempt Unit)) : Counters :=
  attempts.foldl (fun c a => c.zeroed.count a.counted) c

/-! ## The merge -/

/-- `key.startswith("entities_")`. -/
def isEntityKey (key : String) : Bool := "entities_".toList.isPrefixOf key.toList

/-- `_merge_global_stats`, under its locks. The flag is false if a key is missing
(`KeyError`). -/
def mergeGlobalStats (entityKeys : Bool) : List (String × Int) → Counters → Counters × Bool
  | [], stats => (stats, true)
  | (key, value) :: rest, stats =>
    if entityKeys || !isEntityKey key then
      if key ∈ stats.keys then mergeGlobalStats entityKeys rest (stats.add key value)
      else (stats, false)
    else mergeGlobalStats entityKeys rest stats

/-! ## Reading a dictionary -/

namespace Counters

variable {c : Counters} {key : String} {n : Int} {s : Stats}

theorem value_add (key key' : String) (n : Int) (c : Counters) :
    (c.add key n).value key' = c.value key' + if key' = key then n else 0 := by
  rw [value, add, OrderedDict.lookup_set]
  split
  · rename_i h
    rw [h]
    rfl
  · rw [Int.add_zero]
    rfl

theorem mem_keys_add {key' : String} : key' ∈ (c.add key n).keys ↔ key' = key ∨ key' ∈ c.keys :=
  OrderedDict.mem_keys_set

theorem keys_add (h : key ∈ c.keys) : (c.add key n).keys = c.keys :=
  OrderedDict.keys_set_of_mem h

theorem keys_zeroed (c : Counters) : c.zeroed.keys = c.keys := by
  rw [keys, zeroed, List.map_map]
  rfl

theorem value_zeros (keys : List String) (key : String) :
    ((keys.map fun key => (key, (0 : Int))).lookup key).getD 0 = 0 := by
  induction keys with
  | nil => rfl
  | cons k keys ih =>
    rw [List.map_cons, OrderedDict.lookup_cons_ite]
    split
    · rfl
    · exact ih

theorem value_fromKeys (keys : List String) (h : keys.Nodup) (key : String) : (fromKeys keys h).value key = 0 :=
  value_zeros keys key

theorem value_zeroed (c : Counters) (key : String) : c.zeroed.value key = 0 := by
  rw [← value_zeros c.keys key, keys, List.map_map]
  rfl

/-- Counting adds what was counted. -/
theorem value_count (c : Counters) (s : Stats) (key : String) :
    (c.count s).value key = c.value key + s.get key := by
  have hnd : (s.items.map Prod.fst).Nodup := nodup_enrichmentKeys
  rw [count, Stats.get]
  generalize s.items = items at hnd
  induction items generalizing c with
  | nil => exact (Int.add_zero _).symm
  | cons e items ih =>
    obtain ⟨k, n⟩ := e
    rw [List.map_cons, List.nodup_cons] at hnd
    have hone : (if n = 0 then c else c.add k n).value key = c.value key + if key = k then n else 0 := by
      split
      · rename_i hn
        rw [hn, ite_self, Int.add_zero]
      · exact value_add k key n c
    rw [List.foldl_cons, ih _ hnd.2, hone, OrderedDict.lookup_cons_ite]
    split
    · rename_i hkey
      rw [hkey, OrderedDict.lookup_eq_none_iff.mpr hnd.1]
      exact Int.add_zero _
    · rw [Int.add_zero]

/-- The known keys. -/
def Known (c : Counters) : Prop := ∀ key ∈ c.keys, key ∈ enrichmentKeys

theorem known_ofEnrichment : ofEnrichment.Known := fun _ hkey => hkey

theorem known_ofDelivery : ofDelivery.Known := by
  have hsub : ofDelivery.keys ⊆ enrichmentKeys := by decide
  exact fun _ hkey => hsub hkey

theorem Known.zeroed (h : c.Known) : c.zeroed.Known := by
  rw [Known, keys_zeroed]
  exact h

theorem Known.add (h : c.Known) (hkey : key ∈ enrichmentKeys) : (c.add key n).Known := by
  intro key' hkey'
  rcases mem_keys_add.mp hkey' with rfl | hold
  · exact hkey
  · exact h key' hold

theorem Known.count (h : c.Known) (s : Stats) : (c.count s).Known := by
  have hsub : ∀ e ∈ s.items, e.1 ∈ enrichmentKeys := by
    intro e he
    rw [← s.keys_items]
    exact List.mem_map_of_mem he
  rw [Counters.count]
  generalize s.items = items at hsub
  induction items generalizing c with
  | nil => exact h
  | cons e items ih =>
    obtain ⟨he, hsub⟩ := List.forall_mem_cons.mp hsub
    refine ih ?_ hsub
    dsimp only
    split
    · exact h
    · exact h.add he

end Counters

/-! ## The last attempt decides -/

variable {c stats : Counters} {s : Stats} {key : String}

/-- What `_commit` has got when its last attempt has run to its end. -/
theorem commitOutcome_concat (earlier : List (Attempt (List Bool))) (s : Stats) (flags : List Bool) :
    commitOutcome (earlier ++ [⟨s, some flags⟩]) = (flags, Counters.ofEnrichment.count s) := by
  rw [commitOutcome, List.foldl_append]
  rfl

theorem value_commitOutcome (earlier : List (Attempt (List Bool))) (s : Stats) (flags : List Bool) (key : String) :
    (commitOutcome (earlier ++ [⟨s, some flags⟩])).2.value key = s.get key := by
  rw [commitOutcome_concat, Counters.value_count, Counters.ofEnrichment, Counters.value_fromKeys, Int.zero_add]

theorem value_retried (c : Counters) (earlier : List (Attempt Unit)) (a : Attempt Unit) (key : String) :
    (retried c (earlier ++ [a])).value key = a.counted.get key := by
  rw [retried, List.foldl_append, List.foldl_cons, List.foldl_nil, Counters.value_count, Counters.value_zeroed,
    Int.zero_add]

theorem known_retried (h : c.Known) (attempts : List (Attempt Unit)) : (retried c attempts).Known := by
  induction attempts generalizing c with
  | nil => exact h
  | cons a attempts ih => exact ih (h.zeroed.count a.counted)

/-! ## What a merge adds -/

/-- A merge of known counters raises nothing, and adds those that are let through. -/
theorem mergeGlobalStats_spec (entityKeys : Bool) (hknown : c.Known) (hkeys : stats.keys = enrichmentKeys) :
    ∃ stats', mergeGlobalStats entityKeys c.items stats = (stats', true) ∧ stats'.keys = enrichmentKeys ∧
      ∀ key, stats'.value key = stats.value key + if entityKeys || !isEntityKey key then c.value key else 0 := by
  obtain ⟨items, hnd⟩ := c
  change ∀ key ∈ items.map Prod.fst, key ∈ enrichmentKeys at hknown
  simp only [Counters.value]
  induction items generalizing stats with
  | nil => exact ⟨stats, rfl, hkeys, fun key => by simp⟩
  | cons e items ih =>
    obtain ⟨k, n⟩ := e
    rw [List.map_cons, List.nodup_cons] at hnd
    rw [List.map_cons, List.forall_mem_cons] at hknown
    have hlookup : ∀ key, ((((k, n) :: items).lookup key).getD 0 : Int) =
        (if key = k then n else 0) + (items.lookup key).getD 0 := by
      intro key
      rw [OrderedDict.lookup_cons_ite]
      split
      · rename_i hkey
        rw [hkey, OrderedDict.lookup_eq_none_iff.mpr hnd.1]
        exact (Int.add_zero n).symm
      · exact (Int.zero_add _).symm
    rw [mergeGlobalStats]
    split
    · rename_i hthrough
      have hmem : k ∈ stats.keys := hkeys ▸ hknown.1
      obtain ⟨stats', hmerge, hkeys', hvalue⟩ := ih ((Counters.keys_add hmem).trans hkeys) hnd.2 hknown.2
      rw [if_pos hmem]
      refine ⟨stats', hmerge, hkeys', fun key => ?_⟩
      have hadd := Counters.value_add k key n stats
      rw [Counters.value, Counters.value] at hadd
      rw [hvalue, hadd, hlookup]
      by_cases hkey : key = k
      · rw [hkey, if_pos hthrough, if_pos rfl, if_pos hthrough, Int.add_assoc]
      · rw [if_neg hkey, Int.add_zero, Int.zero_add]
    · rename_i hkept
      obtain ⟨stats', hmerge, hkeys', hvalue⟩ := ih hkeys hnd.2 hknown.2
      refine ⟨stats', hmerge, hkeys', fun key => ?_⟩
      rw [hvalue, hlookup]
      by_cases hkey : key = k
      · rw [hkey, if_neg hkept, if_neg hkept]
      · rw [if_neg hkey, Int.zero_add]

end Brainzgraphinator
