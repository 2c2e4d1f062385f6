-- SUMMARY: Beam search that keeps the best: what a beam leaves out is outranked, and a wider search ends no worse.
import Mathlib.Data.List.Sort
import Mathlib.Data.List.Nodup
import Brainzgraphinator.Base.BeamSearch

/-!
# Beams of the best

`best r width` keeps the first candidates in the order `r`. What is said of every
expansion by itself, round by round, holds of all that a search comes to.
-/

namespace BeamSearch

variable {α β : Type}

/-! ## The best -/

section Best

variable {r : α → α → Prop} [DecidableRel r] {width width' : Nat} {xs : List α} {x y : α}

def best (r : α → α → Prop) [DecidableRel r] (width : Nat) (xs : List α) : List α := (xs.insertionSort r).take width

theorem best_subset : best r width xs ⊆ xs := fun _ hx => (List.mem_insertionSort r).mp (List.mem_of_mem_take hx)

theorem length_best_le : (best r width xs).length ≤ width := List.length_take_le _ _

theorem best_subset_best (h : width ≤ width') : best r width xs ⊆ best r width' xs :=
  List.take_subset_take_left _ h

theorem best_eq_nil_iff : best r (width + 1) xs = [] ↔ xs = [] := by
  rw [best, List.take_eq_nil_iff]
  constructor
  · rintro (hzero | hnil)
    · cases hzero
    · exact List.perm_nil.mp (hnil ▸ (List.perm_insertionSort r xs).symm)
  · rintro rfl
    exact .inr rfl

theorem nodup_map_best {f : α → β} (h : (xs.map f).Nodup) : ((best r width xs).map f).Nodup :=
  (((List.perm_insertionSort r xs).map f).nodup_iff.mpr h).sublist ((List.take_sublist _ _).map f)

variable [Std.Total r] [IsTrans α r]

theorem pairwise_best : (best r width xs).Pairwise r :=
  (List.pairwise_insertionSort r xs).sublist (List.take_sublist _ _)

/-- What is kept comes before what is left out. -/
theorem best_outranks (hx : x ∈ best r width xs) (hy : y ∈ xs) (hout : y ∉ best r width xs) : r x y := by
  have hsorted := List.pairwise_insertionSort r xs
  rw [← List.take_append_drop width (xs.insertionSort r)] at hsorted
  refine (List.pairwise_append.mp hsorted).2.2 x hx y ?_
  rw [← List.mem_insertionSort r, ← List.take_append_drop width (xs.insertionSort r)] at hy
  exact (List.mem_append.mp hy).resolve_left hout

/-- The first of the beam comes before all others. -/
theorem head_best (hx : (best r width xs).head? = some x) (hy : y ∈ xs) : y = x ∨ r x y := by
  obtain ⟨rest, hbest⟩ := List.head?_eq_some_iff.mp hx
  by_cases hmem : y ∈ best r width xs
  · have hpairwise : (best r width xs).Pairwise r := pairwise_best
    rw [hbest] at hmem hpairwise
    exact (List.mem_cons.mp hmem).imp_right fun hrest => List.rel_of_pairwise_cons hpairwise hrest
  · exact .inr (best_outranks (List.mem_of_mem_head? hx) hy hmem)

end Best

/-! ## Rounds -/

section Rounds

variable {ε : Type} {expand : α → Except ε (List α)} {select select' : List α → List α} {cs out : List α} {d : α}

theorem mem_expandAll (h : expandAll expand cs = .ok out) :
    d ∈ out ↔ ∃ c ∈ cs, ∃ first, expand c = .ok first ∧ d ∈ first := by
  induction cs generalizing out with
  | nil =>
    cases h
    simp
  | cons c cs ih =>
    simp only [expandAll, Except.bind_eq_ok, Except.pure_eq_ok] at h
    obtain ⟨first, hfirst, rest, hrest, rfl⟩ := h
    rw [List.mem_append, ih hrest]
    constructor
    · rintro (hd | ⟨c', hc', hd⟩)
      · exact ⟨c, List.mem_cons_self, first, hfirst, hd⟩
      · exact ⟨c', List.mem_cons_of_mem c hc', hd⟩
    · rintro ⟨c', hc', first', hfirst', hd⟩
      rcases List.mem_cons.mp hc' with rfl | hc'
      · rw [hfirst] at hfirst'
        cases hfirst'
        exact .inl hd
      · exact .inr ⟨c', hc', first', hfirst', hd⟩

variable {P : Nat → α → Prop} {level rounds : Nat}

/-- What every expansion takes from one level to the next, the search takes to its last. -/
theorem search_forall (hselect : ∀ xs, select xs ⊆ xs)
    (hexpand : ∀ {level c first}, P level c → expand c = .ok first → ∀ d ∈ first, P (level + 1) d)
    (hcs : ∀ c ∈ cs, P level c) (h : search expand select rounds cs = .ok out) : ∀ d ∈ out, P (level + rounds) d := by
  induction rounds generalizing level cs with
  | zero =>
    cases h
    exact hcs
  | succ rounds ih =>
    obtain ⟨expanded, hexpanded, hrest⟩ := Except.bind_eq_ok.mp h
    have hnext : ∀ d ∈ select expanded, P (level + 1) d := by
      intro d hd
      obtain ⟨c, hc, first, hfirst, hd⟩ := (mem_expandAll hexpanded).mp (hselect _ hd)
      exact hexpand (hcs c hc) hfirst d hd
    have hlast := ih hnext hrest
    rwa [Nat.add_right_comm, Nat.add_assoc] at hlast

/-- A search in which nothing comes to an end comes to something. -/
theorem search_ne_nil (hselect : ∀ {xs}, xs ≠ [] → select xs ≠ [])
    (hexpand : ∀ {c first}, expand c = .ok first → first ≠ []) (hcs : cs ≠ [])
    (h : search expand select rounds cs = .ok out) : out ≠ [] := by
  induction rounds generalizing cs with
  | zero =>
    cases h
    exact hcs
  | succ rounds ih =>
    obtain ⟨expanded, hexpanded, hrest⟩ := Except.bind_eq_ok.mp h
    refine ih (hselect ?_) hrest
    obtain ⟨c, rest, rfl⟩ := List.exists_cons_of_ne_nil hcs
    obtain ⟨first, hfirst, _⟩ := Except.bind_eq_ok.mp hexpanded
    obtain ⟨d, hd⟩ := List.exists_mem_of_ne_nil _ (hexpand hfirst)
    exact List.ne_nil_of_mem ((mem_expandAll hexpanded).mpr ⟨c, List.mem_cons_self, first, hfirst, hd⟩)

theorem nodup_map_expandAll {f : α → β} {Q : α → Prop} (hcs : ∀ c ∈ cs, Q c) (hdistinct : (cs.map f).Nodup)
    (hfirst : ∀ {c first}, Q c → expand c = .ok first → (first.map f).Nodup)
    (happart : ∀ {c c' first first' d d'}, Q c → Q c' → f c ≠ f c' → expand c = .ok first → expand c' = .ok first' →
      d ∈ first → d' ∈ first' → f d ≠ f d')
    (h : expandAll expand cs = .ok out) : (out.map f).Nodup := by
  induction cs generalizing out with
  | nil =>
    cases h
    exact .nil
  | cons c cs ih =>
    simp only [expandAll, Except.bind_eq_ok, Except.pure_eq_ok] at h
    obtain ⟨first, hc, rest, hrest, rfl⟩ := h
    obtain ⟨hQ, hQs⟩ := List.forall_mem_cons.mp hcs
    obtain ⟨hnew, hdistinct⟩ := List.nodup_cons.mp hdistinct
    rw [List.map_append]
    refine (hfirst hQ hc).append (ih hQs hdistinct hrest) fun key hkey hkey' => ?_
    obtain ⟨d, hd, rfl⟩ := List.mem_map.mp hkey
    obtain ⟨d', hd', heq⟩ := List.mem_map.mp hkey'
    obtain ⟨c', hc', first', hfirst', hd'⟩ := (mem_expandAll hrest).mp hd'
    have hne : f c ≠ f c' := fun hsame => hnew (List.mem_map.mpr ⟨c', hc', hsame.symm⟩)
    exact happart hQ (hQs c' hc') hne hc hfirst' hd hd' heq.symm

/-- A search whose expansions keep apart what is told apart by `f` comes to distinct results. -/
theorem nodup_map_search {f : α → β} (hselect : ∀ xs, select xs ⊆ xs)
    (hkeeps : ∀ {xs}, (xs.map f).Nodup → ((select xs).map f).Nodup)
    (hexpand : ∀ {level c first}, P level c → expand c = .ok first → ∀ d ∈ first, P (level + 1) d)
    (hfirst : ∀ {level c first}, P level c → expand c = .ok first → (first.map f).Nodup)
    (happart : ∀ {level c c' first first' d d'}, P level c → P level c' → f c ≠ f c' → expand c = .ok first →
      expand c' = .ok first' → d ∈ first → d' ∈ first' → f d ≠ f d')
    (hcs : ∀ c ∈ cs, P level c) (hdistinct : (cs.map f).Nodup) (h : search expand select rounds cs = .ok out) :
    (out.map f).Nodup := by
  induction rounds generalizing level cs with
  | zero =>
    cases h
    exact hdistinct
  | succ rounds ih =>
    obtain ⟨expanded, hexpanded, hrest⟩ := Except.bind_eq_ok.mp h
    have hnext : ∀ d ∈ select expanded, P (level + 1) d := by
      intro d hd
      obtain ⟨c, hc, first, hfirst, hd⟩ := (mem_expandAll hexpanded).mp (hselect _ hd)
      exact hexpand (hcs c hc) hfirst d hd
    exact ih hnext (hkeeps (nodup_map_expandAll hcs hdistinct hfirst happart hexpanded)) hrest

/-- The search of wider beams selected its results among candidates to which those of the
narrower one belong. -/
theorem search_two_wider {wide narrow : List α} (hsub : ∀ xs, select' xs ⊆ select xs) (hself : ∀ xs, select' xs ⊆ xs)
    (hwide : search expand select 2 cs = .ok wide) (hnarrow : search expand select' 2 cs = .ok narrow) :
    ∃ reached, wide = select reached ∧ narrow ⊆ reached := by
  simp only [search, Except.bind_eq_ok, Except.pure_eq_ok] at hwide hnarrow
  obtain ⟨first, hfirst, reached, hreached, rfl⟩ := hwide
  obtain ⟨first', hfirst', reached', hreached', rfl⟩ := hnarrow
  rw [hfirst] at hfirst'
  cases hfirst'
  refine ⟨reached, rfl, fun d hd => ?_⟩
  obtain ⟨c, hc, out, hout, hd⟩ := (mem_expandAll hreached').mp (hself _ hd)
  exact (mem_expandAll hreached).mpr ⟨c, hsub _ hc, out, hout, hd⟩

end Rounds

end BeamSearch
