-- SUMMARY: Counters: what the loop that counts comes to, and the largest counts.
import Mathlib.Data.List.Dedup
import Brainzgraphinator.Base.OrderedDict
import Brainzgraphinator.Base.Sorting

/-!
# Counting

`counter xs` is what the loop comes to that counts the elements of `xs` in a dictionary.
Its entries do not depend on the order of the elements, though theirs does.

`topSum n d` adds up the `n` largest counts. No `n` keys have more between them.
-/

namespace Counting

open OrderedDict Sorting

variable {κ : Type} [DecidableEq κ] {xs ys keys : List κ} {k : κ} {d d' : List (κ × Nat)} {n m : Nat}

/-! ## Counters -/

def counter (xs : List κ) : List (κ × Nat) := xs.foldl (fun d x => bump x 1 d) []

theorem counter_concat (xs : List κ) (x : κ) : counter (xs ++ [x]) = bump x 1 (counter xs) := by
  rw [counter, List.foldl_append]
  rfl

theorem nodup_keys_counter (xs : List κ) : ((counter xs).map Prod.fst).Nodup := by
  induction xs using List.reverseRecOn with
  | nil => exact .nil
  | append_singleton xs x ih =>
    rw [counter_concat]
    exact nodup_keys_bump ih

theorem sum_counter (xs : List κ) : ((counter xs).map Prod.snd).sum = xs.length := by
  induction xs using List.reverseRecOn with
  | nil => rfl
  | append_singleton xs x ih => rw [counter_concat, sum_bump, ih, List.length_append, List.length_singleton]

theorem mem_keys_counter : k ∈ (counter xs).map Prod.fst ↔ k ∈ xs := by
  induction xs using List.reverseRecOn with
  | nil => exact Iff.rfl
  | append_singleton xs x ih =>
    rw [counter_concat, bump, mem_keys_set, ih, List.mem_append, List.mem_singleton, or_comm]

theorem length_counter_le (xs : List κ) : (counter xs).length ≤ xs.length := by
  rw [← List.length_map (f := Prod.fst)]
  exact (List.subperm_of_subset (nodup_keys_counter xs) fun _ hk => mem_keys_counter.mp hk).length_le

/-- One entry for every distinct key. -/
theorem length_counter (xs : List κ) : (counter xs).length = xs.dedup.length := by
  rw [← List.length_map (f := Prod.fst)]
  refine List.Perm.length_eq ((List.perm_ext_iff_of_nodup (nodup_keys_counter xs) (List.nodup_dedup xs)).mpr ?_)
  intro k
  rw [mem_keys_counter, List.mem_dedup]

theorem getD_lookup_counter (xs : List κ) (k : κ) : ((counter xs).lookup k).getD 0 = xs.count k := by
  induction xs using List.reverseRecOn with
  | nil => rfl
  | append_singleton xs x ih =>
    rw [counter_concat, getD_lookup_bump, ih, List.count_append, List.count_singleton]
    by_cases h : k = x
    · simp [h]
    · simp [h, Ne.symm h]

theorem lookup_counter (hk : k ∈ xs) : (counter xs).lookup k = some (xs.count k) := by
  have hcount := getD_lookup_counter xs k
  cases hlookup : (counter xs).lookup k with
  | none => exact absurd (mem_keys_counter.mpr hk) (lookup_eq_none_iff.mp hlookup)
  | some v =>
    rw [hlookup] at hcount
    exact congrArg some hcount

theorem counter_perm (h : xs.Perm ys) : (counter xs).Perm (counter ys) := by
  rw [List.perm_ext_iff_of_nodup (nodup_keys_counter xs).of_map (nodup_keys_counter ys).of_map]
  rintro ⟨k, v⟩
  rw [← lookup_eq_some_iff (nodup_keys_counter xs), ← lookup_eq_some_iff (nodup_keys_counter ys)]
  by_cases hk : k ∈ xs
  · rw [lookup_counter hk, lookup_counter (h.mem_iff.mp hk), h.count_eq]
  · have hk' : k ∉ ys := mt h.mem_iff.mpr hk
    rw [lookup_eq_none_iff.mpr (mt mem_keys_counter.mp hk), lookup_eq_none_iff.mpr (mt mem_keys_counter.mp hk')]

/-! ## The largest counts -/

/-- The `n` keys that were counted most, the first counted first among equals. -/
def mostCommon (n : Nat) (d : List (κ × Nat)) : List (κ × Nat) := (sortBy (· ≥ ·) Prod.snd d).take n

def topSum (n : Nat) (d : List (κ × Nat)) : Nat := ((mostCommon n d).map Prod.snd).sum

omit [DecidableEq κ] in
theorem topSum_perm (h : d.Perm d') : topSum n d = topSum n d' := by
  rw [topSum, topSum, mostCommon, mostCommon, List.map_take, List.map_take, map_sortBy_eq_of_perm h]

/-- Of numbers in descending order the first have the largest sum. -/
theorem sum_le_sum_take {vs ws : List Nat} (h : ws.Sublist vs) (hsorted : vs.Pairwise (· ≥ ·)) (hlength : ws.length ≤ n) :
    ws.sum ≤ (vs.take n).sum := by
  induction h generalizing n with
  | slnil => exact Nat.zero_le _
  | @cons ws vs v _ ih =>
    obtain ⟨hfirst, hrest⟩ := List.pairwise_cons.mp hsorted
    cases n with
    | zero =>
      rw [List.length_eq_zero_iff.mp (Nat.le_zero.mp hlength)]
      exact Nat.zero_le _
    | succ n =>
      have hskipped := ih hrest hlength
      rw [List.take_succ_cons, List.sum_cons]
      rcases Nat.lt_or_ge n vs.length with hlt | hge
      · rw [List.take_succ_eq_append_getElem hlt, List.sum_append, List.sum_singleton] at hskipped
        have hlast := hfirst _ (List.getElem_mem hlt)
        omega
      · rw [List.take_of_length_le (Nat.le_succ_of_le hge)] at hskipped
        rw [List.take_of_length_le hge]
        omega
  | cons_cons v _ ih =>
    cases n with
    | zero => cases hlength
    | succ n =>
      rw [List.take_succ_cons, List.sum_cons, List.sum_cons]
      exact Nat.add_le_add_left (ih (List.pairwise_cons.mp hsorted).2 (Nat.le_of_succ_le_succ hlength)) v

/-- What keys have between them, the entries have that are there for them. -/
theorem exists_entries (d : List (κ × Nat)) (hkeys : keys.Nodup) :
    ∃ entries : List (κ × Nat), entries.Nodup ∧ entries ⊆ d ∧ entries.length ≤ keys.length ∧
      entries.map Prod.fst ⊆ keys ∧ (entries.map Prod.snd).sum = (keys.map fun k => (d.lookup k).getD 0).sum := by
  induction keys with
  | nil => exact ⟨[], .nil, List.nil_subset _, Nat.le_refl _, List.Subset.refl _, rfl⟩
  | cons k keys ih =>
    obtain ⟨hnew, hkeys⟩ := List.nodup_cons.mp hkeys
    obtain ⟨entries, hnodup, hsub, hle, hfst, hsum⟩ := ih hkeys
    rw [List.map_cons, List.sum_cons]
    cases hlookup : d.lookup k with
    | none =>
      refine ⟨entries, hnodup, hsub, Nat.le_succ_of_le hle, List.subset_cons_of_subset k hfst, ?_⟩
      rw [hsum, Option.getD_none, Nat.zero_add]
    | some v =>
      obtain ⟨before, after, hd, _⟩ := List.lookup_eq_some_iff.mp hlookup
      refine ⟨(k, v) :: entries, List.nodup_cons.mpr ⟨fun hmem => ?_, hnodup⟩, List.cons_subset.mpr ⟨?_, hsub⟩,
        Nat.succ_le_succ hle, List.cons_subset_cons k hfst, ?_⟩
      · exact hnew (hfst (List.mem_map.mpr ⟨_, hmem, rfl⟩))
      · rw [hd]
        exact List.mem_append_right _ List.mem_cons_self
      · rw [List.map_cons, List.sum_cons, hsum, Option.getD_some]

/-- No `n` keys have more between them than the most common `n`. -/
theorem sum_le_topSum (hkeys : keys.Nodup) (hlength : keys.length ≤ n) :
    (keys.map fun k => (d.lookup k).getD 0).sum ≤ topSum n d := by
  obtain ⟨entries, hnodup, hsub, hle, _, hsum⟩ := exists_entries d hkeys
  have hsorted : (sortBy (· ≥ ·) Prod.snd d).Perm d := perm_sortBy
  obtain ⟨taken, hperm, htaken⟩ := (List.subperm_of_subset hnodup hsub).trans hsorted.symm.subperm
  rw [← hsum, ← (hperm.map Prod.snd).sum_eq, topSum, mostCommon, List.map_take]
  refine sum_le_sum_take (htaken.map _) (List.pairwise_map.mpr pairwise_sortBy) ?_
  rw [List.length_map, hperm.length_eq]
  exact hle.trans hlength

/-- The most common `n` have that many between them. -/
theorem exists_sum_eq_topSum (hnodup : (d.map Prod.fst).Nodup) :
    ∃ keys : List κ, keys.Nodup ∧ keys.length ≤ n ∧ (keys.map fun k => (d.lookup k).getD 0).sum = topSum n d := by
  have hsorted : (sortBy (· ≥ ·) Prod.snd d).Perm d := perm_sortBy
  refine ⟨(mostCommon n d).map Prod.fst, ?_, ?_, ?_⟩
  · exact ((hsorted.map _).nodup_iff.mpr hnodup).sublist ((List.take_sublist _ _).map _)
  · rw [List.length_map]
    exact List.length_take_le _ _
  · rw [topSum, List.map_map]
    refine congrArg List.sum (List.map_congr_left fun entry hentry => ?_)
    have hmem := hsorted.mem_iff.mp (List.mem_of_mem_take hentry)
    rw [Function.comp_apply, (lookup_eq_some_iff hnodup).mpr hmem, Option.getD_some]

end Counting
