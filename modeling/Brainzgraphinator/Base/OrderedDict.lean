-- SUMMARY: Insertion-ordered dictionaries as association lists, and the last-writer reading of a loop that fills one.
import Mathlib.Algebra.Ring.Nat
import Mathlib.Data.List.Basic
import Mathlib.Data.List.Induction
import Mathlib.Data.List.Nodup

/-!
# Insertion-ordered dictionaries

A dictionary whose iteration order is the order in which its keys were first
assigned. It is an association list that is only ever updated through `set`,
`setDefault` and `bump`, so its keys stay distinct. A loop that assigns one
entry per element (`collect`) keeps, for every key, the last element that had
it.
-/

namespace OrderedDict

variable {κ α β : Type*} [DecidableEq κ]

/-! ## Operations -/

/-- Assign `v` to `k`, in place when `k` is already there. -/
def set (k : κ) (v : α) : List (κ × α) → List (κ × α)
  | [] => [(k, v)]
  | (k', v') :: d => if k' = k then (k, v) :: d else (k', v') :: set k v d

/-- Assign `v` to `k` unless `k` already has a value. -/
def setDefault (k : κ) (v : α) (d : List (κ × α)) : List (κ × α) :=
  if (d.lookup k).isSome then d else d ++ [(k, v)]

/-- Add `n` to the counter at `k`, which starts at zero. -/
def bump (k : κ) (n : Nat) (d : List (κ × Nat)) : List (κ × Nat) :=
  set k ((d.lookup k).getD 0 + n) d

/-- The loop `for x in xs: if key(x) is not None: d[key(x)] = val(x)`. -/
def collect (key : β → Option κ) (val : β → α) (xs : List β) : List (κ × α) :=
  xs.foldl (fun d x => match key x with
    | none => d
    | some k => set k (val x) d) []

/-! ## Lookup after an update -/

theorem lookup_cons_ite (k l : κ) (w : α) (d : List (κ × α)) :
    ((l, w) :: d).lookup k = if k = l then some w else d.lookup k := by
  by_cases h : k = l
  · simp [h]
  · have hb : (k == l) = false := by simpa using h
    simp [List.lookup_cons, hb, h]

theorem lookup_set (k k' : κ) (v : α) (d : List (κ × α)) :
    (set k v d).lookup k' = if k' = k then some v else d.lookup k' := by
  induction d with
  | nil => simp [set, lookup_cons_ite]
  | cons entry d ih =>
    obtain ⟨l, w⟩ := entry
    by_cases hl : l = k
    · subst hl
      by_cases h : k' = l <;> simp [set, lookup_cons_ite, h]
    · by_cases h : k' = l
      · subst h
        simp [set, hl]
      · simp [set, hl, lookup_cons_ite, h, ih]

@[simp] theorem lookup_set_self (k : κ) (v : α) (d : List (κ × α)) :
    (set k v d).lookup k = some v := by
  simp [lookup_set]

theorem lookup_set_ne {k k' : κ} (h : k' ≠ k) (v : α) (d : List (κ × α)) :
    (set k v d).lookup k' = d.lookup k' := by
  simp [lookup_set, h]

theorem lookup_setDefault (k k' : κ) (v : α) (d : List (κ × α)) :
    (setDefault k v d).lookup k' =
      if k' = k then some ((d.lookup k).getD v) else d.lookup k' := by
  unfold setDefault
  cases hd : d.lookup k with
  | some w => by_cases h : k' = k <;> simp [h, hd]
  | none => by_cases h : k' = k <;> simp [h, hd, List.lookup_append, lookup_cons_ite]

theorem getD_lookup_bump (k k' : κ) (n : Nat) (d : List (κ × Nat)) :
    ((bump k n d).lookup k').getD 0 =
      (d.lookup k').getD 0 + if k' = k then n else 0 := by
  by_cases h : k' = k
  · subst h; simp [bump]
  · simp [bump, lookup_set_ne h, h]

/-! ## Keys -/

theorem mem_keys_set {k k' : κ} {v : α} {d : List (κ × α)} :
    k' ∈ (set k v d).map Prod.fst ↔ k' = k ∨ k' ∈ d.map Prod.fst := by
  induction d with
  | nil => simp [set]
  | cons entry d ih =>
    obtain ⟨l, w⟩ := entry
    by_cases hl : l = k
    · simp [set, hl]
    · simp only [set, hl, if_false, List.map_cons, List.mem_cons, ih]
      exact or_left_comm

theorem nodup_keys_set {k : κ} {v : α} {d : List (κ × α)}
    (h : (d.map Prod.fst).Nodup) : ((set k v d).map Prod.fst).Nodup := by
  induction d with
  | nil => simp [set]
  | cons entry d ih =>
    obtain ⟨l, w⟩ := entry
    simp only [List.map_cons, List.nodup_cons] at h
    by_cases hl : l = k
    · subst hl
      simpa [set] using h
    · simp only [set, hl, if_false, List.map_cons, List.nodup_cons]
      refine ⟨?_, ih h.2⟩
      rw [mem_keys_set]
      exact not_or.mpr ⟨hl, h.1⟩

theorem nodup_keys_setDefault {k : κ} {v : α} {d : List (κ × α)}
    (h : (d.map Prod.fst).Nodup) : ((setDefault k v d).map Prod.fst).Nodup := by
  unfold setDefault
  split
  · exact h
  · rename_i hk
    have hk' : k ∉ d.map Prod.fst := by
      simpa [List.mem_map] using hk
    simp only [List.map_append, List.map_cons, List.map_nil, List.nodup_append, h, true_and]
    refine ⟨by simp, ?_⟩
    rintro a ha b hb rfl
    simp only [List.mem_singleton] at hb
    exact hk' (hb ▸ ha)

/-- With distinct keys, looking a key up finds exactly the listed entry. -/
theorem lookup_eq_some_iff {d : List (κ × α)} (h : (d.map Prod.fst).Nodup) {k : κ} {v : α} :
    d.lookup k = some v ↔ (k, v) ∈ d := by
  induction d with
  | nil => simp
  | cons entry d ih =>
    obtain ⟨l, w⟩ := entry
    simp only [List.map_cons, List.nodup_cons] at h
    by_cases hl : k = l
    · subst hl
      have hnot : (k, v) ∉ d := fun hm => h.1 (List.mem_map.mpr ⟨_, hm, rfl⟩)
      simp [hnot, eq_comm]
    · simp [lookup_cons_ite, hl, ih h.2]

/-! ## Loops that fill a dictionary -/

theorem collect_concat (key : β → Option κ) (val : β → α) (xs : List β) (x : β) :
    collect key val (xs ++ [x]) = match key x with
      | none => collect key val xs
      | some k => set k (val x) (collect key val xs) := by
  simp [collect]

theorem nodup_keys_collect (key : β → Option κ) (val : β → α) (xs : List β) :
    ((collect key val xs).map Prod.fst).Nodup := by
  induction xs using List.reverseRecOn with
  | nil => simp [collect]
  | append_singleton xs x ih =>
    rw [collect_concat]
    cases key x with
    | none => exact ih
    | some k => exact nodup_keys_set ih

/-- The loop keeps the last element of every key. -/
theorem lookup_collect (key : β → Option κ) (val : β → α) (xs : List β) (k : κ) :
    (collect key val xs).lookup k =
      (xs.reverse.find? (fun x => key x = some k)).map val := by
  induction xs using List.reverseRecOn with
  | nil => simp [collect]
  | append_singleton xs x ih =>
    rw [collect_concat, List.reverse_append, List.reverse_singleton, List.singleton_append,
      List.find?_cons]
    cases hx : key x with
    | none => simpa using ih
    | some l =>
      by_cases h : l = k
      · subst h; simp
      · simp [lookup_set_ne (Ne.symm h), h, ih]

theorem mem_keys_collect {key : β → Option κ} {val : β → α} {xs : List β} {k : κ} :
    k ∈ (collect key val xs).map Prod.fst ↔ ∃ x ∈ xs, key x = some k := by
  induction xs using List.reverseRecOn with
  | nil => simp [collect]
  | append_singleton xs x ih =>
    rw [collect_concat]
    cases hx : key x with
    | none => simp only [ih]; simp [hx]
    | some l =>
      simp only [mem_keys_set, ih]
      simp only [List.mem_append, List.mem_singleton, or_and_right, exists_or, exists_eq_left, hx,
        Option.some.injEq]
      rw [or_comm, eq_comm]

/-! ## Counters and groups -/

theorem lookup_eq_none_iff {d : List (κ × α)} {k : κ} :
    d.lookup k = none ↔ k ∉ d.map Prod.fst := by
  induction d with
  | nil => simp
  | cons entry d ih =>
    obtain ⟨l, w⟩ := entry
    by_cases h : k = l
    · simp [h]
    · simp [lookup_cons_ite, h, ih]

theorem nodup_keys_bump {k : κ} {n : Nat} {d : List (κ × Nat)} (h : (d.map Prod.fst).Nodup) :
    ((bump k n d).map Prod.fst).Nodup :=
  nodup_keys_set h

theorem sum_bump (k : κ) (n : Nat) (d : List (κ × Nat)) :
    ((bump k n d).map Prod.snd).sum = (d.map Prod.snd).sum + n := by
  unfold bump
  induction d with
  | nil => simp [set]
  | cons entry d ih =>
    obtain ⟨l, w⟩ := entry
    by_cases h : l = k
    · subst h
      simp only [List.lookup_cons_self, Option.getD_some, set, if_true, List.map_cons, List.sum_cons]
      omega
    · have hk : k ≠ l := fun heq => h heq.symm
      simp only [lookup_cons_ite, if_neg hk, set, if_neg h, List.map_cons, List.sum_cons, ih]
      omega

/-- Adding all counters of one dictionary to another. -/
theorem getD_lookup_foldl_bump {d : List (κ × Nat)} (hnd : (d.map Prod.fst).Nodup)
    (acc : List (κ × Nat)) (k : κ) :
    ((d.foldl (fun acc m => bump m.1 m.2 acc) acc).lookup k).getD 0 =
      (acc.lookup k).getD 0 + (d.lookup k).getD 0 := by
  induction d generalizing acc with
  | nil => simp
  | cons entry d ih =>
    obtain ⟨l, w⟩ := entry
    obtain ⟨hl, hnd⟩ := List.nodup_cons.mp hnd
    rw [List.foldl_cons, ih hnd, getD_lookup_bump, lookup_cons_ite]
    by_cases h : k = l
    · subst h
      rw [lookup_eq_none_iff.mpr hl]
      simp
    · simp [h]

/-- The elements of all groups, each with the key of its group. -/
def ungroup (d : List (κ × List α)) : List (κ × α) :=
  d.flatMap fun entry => entry.2.map (Prod.mk entry.1)

/-- Appending to the group of a key adds one element. -/
theorem ungroup_set_append (k : κ) (x : α) (d : List (κ × List α)) :
    (ungroup (set k ((d.lookup k).getD [] ++ [x]) d)).Perm (ungroup d ++ [(k, x)]) := by
  induction d with
  | nil => simp [ungroup, set]
  | cons entry d ih =>
    obtain ⟨l, w⟩ := entry
    by_cases h : l = k
    · subst h
      simp only [List.lookup_cons_self, Option.getD_some, set, if_true, ungroup, List.flatMap_cons,
        List.map_append, List.map_cons, List.map_nil, List.append_assoc]
      exact (List.perm_append_comm).append_left _
    · have hk : k ≠ l := fun heq => h heq.symm
      simp only [set, h, if_false, lookup_cons_ite, hk, ungroup, List.flatMap_cons,
        List.append_assoc] at ih ⊢
      exact ih.append_left _

/-! ## Loops that keep the first entry -/

section First

variable (key : β → κ) (val : β → α)

/-- A loop that assigns defaults keeps what the dictionary had, then the first
element of every key. -/
theorem lookup_foldl_setDefault (xs : List β) (d : List (κ × α)) (k : κ) :
    (xs.foldl (fun d x => setDefault (key x) (val x) d) d).lookup k =
      (d.lookup k).or ((xs.find? fun x => key x = k).map val) := by
  induction xs generalizing d with
  | nil => simp
  | cons x xs ih =>
    rw [List.foldl_cons, ih, lookup_setDefault]
    by_cases h : k = key x
    · subst h
      cases d.lookup (key x) <;> simp
    · rw [if_neg h, List.find?_cons_of_neg (by simpa [eq_comm] using h)]

theorem nodup_keys_foldl_setDefault (xs : List β) {d : List (κ × α)}
    (h : (d.map Prod.fst).Nodup) :
    ((xs.foldl (fun d x => setDefault (key x) (val x) d) d).map Prod.fst).Nodup := by
  induction xs generalizing d with
  | nil => exact h
  | cons x xs ih => exact ih (nodup_keys_setDefault h)

end First

/-! ## Loops that add up -/

theorem keys_set_of_mem {k : κ} {v : α} {d : List (κ × α)} (h : k ∈ d.map Prod.fst) :
    (set k v d).map Prod.fst = d.map Prod.fst := by
  induction d with
  | nil => cases h
  | cons entry d ih =>
    obtain ⟨l, w⟩ := entry
    by_cases hl : l = k
    · simp [set, hl]
    · simp only [set, hl, if_false, List.map_cons, List.cons.injEq, true_and]
      exact ih ((List.mem_cons.mp h).resolve_left (Ne.symm hl))

theorem set_of_not_mem {k : κ} {d : List (κ × α)} (h : k ∉ d.map Prod.fst) (v : α) :
    set k v d = d ++ [(k, v)] := by
  induction d with
  | nil => rfl
  | cons entry d ih =>
    obtain ⟨l, w⟩ := entry
    simp only [List.map_cons, List.mem_cons, not_or] at h
    rw [set, if_neg (Ne.symm h.1), ih h.2, List.cons_append]

/-- A dictionary is its keys, with what is looked up under them. -/
theorem eq_map_keys {d : List (κ × α)} (hnd : (d.map Prod.fst).Nodup) {f : κ → α}
    (hf : ∀ k v, d.lookup k = some v → v = f k) : d = (d.map Prod.fst).map fun k => (k, f k) := by
  rw [List.map_map]
  refine (List.map_id d).symm.trans (List.map_congr_left fun entry hentry => ?_)
  have hlookup := (lookup_eq_some_iff hnd (k := entry.1) (v := entry.2)).mpr hentry
  exact Prod.ext rfl (hf entry.1 entry.2 hlookup)

theorem eraseDups_concat (ks : List κ) (k : κ) :
    (ks ++ [k]).eraseDups = if k ∈ ks then ks.eraseDups else ks.eraseDups ++ [k] := by
  rw [List.eraseDups_append]
  by_cases h : k ∈ ks <;> simp [List.removeAll, List.eraseDups_cons, h]

theorem nodup_eraseDups : (ks : List κ) → ks.eraseDups.Nodup
  | [] => List.nodup_nil
  | k :: ks => by
    rw [List.eraseDups_cons, List.nodup_cons]
    exact ⟨by simp, nodup_eraseDups (ks.filter fun l => !l == k)⟩
termination_by ks => ks.length
decreasing_by exact Nat.lt_succ_of_le (List.length_filter_le _ _)

section Accumulate

variable (key : β → κ) (init : β → α) (add : α → β → α)

/-- The loop that enters an element under its key, or adds it to the entry there. -/
def accumulate (xs : List β) : List (κ × α) :=
  xs.foldl (fun d x => match d.lookup (key x) with
    | none => set (key x) (init x) d
    | some v => set (key x) (add v x) d) []

theorem accumulate_concat (xs : List β) (x : β) :
    accumulate key init add (xs ++ [x]) = match (accumulate key init add xs).lookup (key x) with
      | none => set (key x) (init x) (accumulate key init add xs)
      | some v => set (key x) (add v x) (accumulate key init add xs) := by
  simp [accumulate]

/-- The keys stand in the order in which they first occurred. -/
theorem keys_accumulate (xs : List β) :
    (accumulate key init add xs).map Prod.fst = (xs.map key).eraseDups := by
  induction xs using List.reverseRecOn with
  | nil => rfl
  | append_singleton xs x ih =>
    rw [accumulate_concat, List.map_append, List.map_singleton, eraseDups_concat, ← ih]
    have hmem : key x ∈ xs.map key ↔ key x ∈ (accumulate key init add xs).map Prod.fst := by
      rw [ih, List.mem_eraseDups]
    cases hlookup : (accumulate key init add xs).lookup (key x) with
    | none =>
      have hnot := lookup_eq_none_iff.mp hlookup
      rw [if_neg (mt hmem.mp hnot), set_of_not_mem hnot, List.map_append, List.map_singleton]
    | some v =>
      have hkey : key x ∈ (accumulate key init add xs).map Prod.fst := by
        by_contra hnot
        cases (lookup_eq_none_iff.mpr hnot).symm.trans hlookup
      rw [if_pos (hmem.mpr hkey), keys_set_of_mem hkey]

/-- Under a key stand the elements that had it, added up in their order. -/
theorem lookup_accumulate (xs : List β) (k : κ) :
    (accumulate key init add xs).lookup k = match xs.filter fun x => key x = k with
      | [] => none
      | x :: rest => some (rest.foldl add (init x)) := by
  induction xs using List.reverseRecOn with
  | nil => rfl
  | append_singleton xs x ih =>
    rw [accumulate_concat, List.filter_append]
    by_cases hk : key x = k
    · subst hk
      rw [ih]
      cases hfilter : xs.filter fun y => key y = key x with
      | nil => simp
      | cons y rest => simp
    · have hsingle : [x].filter (fun y => key y = k) = [] := by simp [hk]
      rw [hsingle, List.append_nil, ← ih]
      cases (accumulate key init add xs).lookup (key x) with
      | none => exact lookup_set_ne (Ne.symm hk) _ _
      | some v => exact lookup_set_ne (Ne.symm hk) _ _

end Accumulate

/-- The elements of each key, one key after another, are all elements. -/
theorem perm_flatMap_filter (key : β → κ) (xs : List β) :
    ((xs.map key).eraseDups.flatMap fun k => xs.filter fun x => key x = k).Perm xs := by
  match xs with
  | [] => exact .nil
  | x :: rest =>
    have hlt : (rest.filter fun y => !decide (key y = key x)).length < (x :: rest).length :=
      Nat.lt_succ_of_le (List.length_filter_le _ _)
    have hkeys : ((x :: rest).map key).eraseDups =
        key x :: ((rest.filter fun y => !decide (key y = key x)).map key).eraseDups := by
      rw [List.map_cons, List.eraseDups_cons, List.filter_map]
      rfl
    have hothers : ∀ k ∈ ((rest.filter fun y => !decide (key y = key x)).map key).eraseDups,
        (x :: rest).filter (fun y => key y = k) =
          (rest.filter fun y => !decide (key y = key x)).filter fun y => key y = k := by
      intro k hk
      have hne : k ≠ key x := by
        rw [List.mem_eraseDups, List.mem_map] at hk
        obtain ⟨y, hy, rfl⟩ := hk
        simpa using (List.mem_filter.mp hy).2
      rw [List.filter_cons_of_neg (by simpa using Ne.symm hne), List.filter_filter]
      refine List.filter_congr fun y _ => ?_
      by_cases hy : key y = k
      · simp [hy, hne]
      · simp [hy]
    rw [hkeys, List.flatMap_cons, List.flatMap_congr hothers]
    have hgroups := perm_flatMap_filter key (rest.filter fun y => !decide (key y = key x))
    refine (hgroups.append_left _).trans ?_
    have hsplit := List.filter_append_perm (fun y => decide (key y = key x)) (x :: rest)
    rwa [List.filter_cons_of_neg (p := fun y => !decide (key y = key x)) (by simp)] at hsplit
termination_by xs.length
decreasing_by exact hlt

/-! ## Elements found by their key -/

theorem exists_find?_key (key : β → κ) {xs : List β} {x : β} (hx : x ∈ xs) :
    ∃ y, xs.find? (fun y => key y = key x) = some y ∧ key y = key x := by
  obtain ⟨y, hy⟩ := Option.isSome_iff_exists.mp
    ((List.find?_isSome (p := fun y => decide (key y = key x))).mpr ⟨x, hx, decide_eq_true rfl⟩)
  exact ⟨y, hy, by simpa using List.find?_some hy⟩

/-- With distinct keys, the element found under a key is the one that has it. -/
theorem find?_key_eq_some_iff {key : β → κ} {xs : List β} (hnd : (xs.map key).Nodup) {k : κ} {x : β} :
    xs.find? (fun y => key y = k) = some x ↔ x ∈ xs ∧ key x = k := by
  constructor
  · intro h
    exact ⟨List.mem_of_find?_eq_some h, by simpa using List.find?_some h⟩
  · rintro ⟨hx, rfl⟩
    obtain ⟨y, hfind, hkey⟩ := exists_find?_key key hx
    rw [hfind, List.inj_on_of_nodup_map hnd (List.mem_of_find?_eq_some hfind) hx hkey]

/-! ## The last element with a property -/

/-- Numbering the elements does not change which one is the last with a property. -/
theorem find?_reverse_zipIdx (p : β → Bool) (xs : List β) :
    (xs.zipIdx.reverse.find? (fun x => p x.1)).map Prod.fst = xs.reverse.find? p := by
  induction xs using List.reverseRecOn with
  | nil => simp
  | append_singleton xs x ih =>
    simp only [List.zipIdx_append, List.zipIdx_singleton, List.reverse_append,
      List.reverse_singleton, List.singleton_append, List.find?_cons]
    cases p x with
    | true => rfl
    | false => exact ih

end OrderedDict
