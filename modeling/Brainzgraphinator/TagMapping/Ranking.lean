-- SUMMARY: What a traversal returns: paths of the taxonomy, best first, and none better from a narrower beam.
import Mathlib.Algebra.Order.Field.Power
import Mathlib.Data.List.Lex
import Mathlib.Data.Rat.Floor
import Mathlib.Data.String.Basic
import Brainzgraphinator.Base.OrderedDict
import Brainzgraphinator.Base.RankedBeam
import Brainzgraphinator.TagMapping.Replay

/-!
# Ranked paths

A traversal returns at most as many paths as its beam is wide. They are paths of the
taxonomy, each scored no better than the one before it. The wider traversal expands all
that the greedy one expands, so its first path is scored no worse than the greedy one's.
-/

namespace Brainzgraphinator.TagMapping

open BeamSearch

/-- What is assumed of the floats: `-x` turns the order around, and `math.exp` keeps it. -/
class LawfulScore (S : Type) [Score S] : Prop where
  le_of_neg_le_neg : ∀ {x y : S}, -x ≤ -y → y ≤ x
  exp_zero : Score.exp ((0 : Int) : S) = ((1 : Int) : S)
  exp_le_exp : ∀ {x y : S}, x ≤ y → Score.exp x ≤ Score.exp y

variable {S : Type} [Score S]

/-! ## The order of candidates -/

namespace Candidate

variable {c d e : Candidate S}

theorem precedes_total (c d : Candidate S) : c.precedes d ∨ d.precedes c := by
  rcases lt_trichotomy c.rankKey d.rankKey with hlt | heq | hgt
  · exact .inl (.inl hlt)
  · exact (le_total c.path d.path).imp (fun hle => .inr ⟨heq, hle⟩) fun hle => .inr ⟨heq.symm, hle⟩
  · exact .inr (.inl hgt)

theorem precedes_trans (h : c.precedes d) (h' : d.precedes e) : c.precedes e := by
  rcases h with hlt | ⟨heq, hle⟩
  · rcases h' with hlt' | ⟨heq', _⟩
    · exact .inl (hlt.trans hlt')
    · exact .inl (heq' ▸ hlt)
  · rcases h' with hlt' | ⟨heq', hle'⟩
    · exact .inl (heq ▸ hlt')
    · exact .inr ⟨heq.trans heq', hle.trans hle'⟩

instance : Std.Total (precedes : Candidate S → Candidate S → Prop) := ⟨precedes_total⟩

instance : IsTrans (Candidate S) precedes := ⟨fun _ _ _ => precedes_trans⟩

theorem rankKey_le (h : c.precedes d) : c.rankKey ≤ d.rankKey := by
  rcases h with hlt | ⟨heq, _⟩
  · exact hlt.le
  · exact heq.le

variable [LawfulScore S]

/-- The first in the order is scored no worse. -/
theorem score_le (h : c.precedes d) : d.ranked.score ≤ c.ranked.score := by
  have hscore : ∀ x : Candidate S, x.ranked.score =
      Score.exp (if x.decisions = 0 then ((0 : Int) : S) else Score.divNat x.logProbability x.decisions) := by
    intro x
    rw [ranked]
    split
    · exact LawfulScore.exp_zero.symm
    · rfl
  rw [hscore, hscore]
  exact LawfulScore.exp_le_exp (LawfulScore.le_of_neg_le_neg (rankKey_le h))

end Candidate

/-! ## Expansions -/

/-- A path of the taxonomy with nothing below it. -/
def Complete (tree : Tree) (path : List String) : Prop :=
  path = [noneOption] ∨ ∃ genre style, path = [genre, style] ∧ genre ∈ tree.map Prod.fst ∧ genre ≠ noneOption ∧
    (style ∈ (tree.lookup genre).getD [] ∨ style = genreOnly)

/-- A taxonomy in which the options of every decision are distinct. -/
structure Tree.WellFormed (tree : Tree) : Prop where
  genres : (tree.map Prod.fst).Nodup
  none_not_mem : noneOption ∉ tree.map Prod.fst
  styles : ∀ genre ∈ tree, genre.2.Nodup ∧ genreOnly ∉ genre.2

section Children

variable {tree : Tree} {path : List String} {genre option : String}

theorem mem_children_nil : option ∈ children tree [] ↔ option ∈ tree.map Prod.fst ∨ option = noneOption := by
  rw [children, List.mem_append, List.mem_insertionSort, List.mem_singleton]

theorem mem_children_genre (hgenre : genre ≠ noneOption) :
    option ∈ children tree [genre] ↔ option ∈ (tree.lookup genre).getD [] ∨ option = genreOnly := by
  rw [children, if_neg hgenre, List.mem_append, List.mem_insertionSort, List.mem_singleton]

theorem Complete.children_eq (h : Complete tree path) : children tree path = [] := by
  rcases h with rfl | ⟨genre, style, rfl, _⟩
  · rw [children, if_pos rfl]
  · rfl

theorem Tree.WellFormed.nodup_children (h : tree.WellFormed) (path : List String) : (children tree path).Nodup := by
  have hconcat : ∀ {xs : List String} {x}, xs.Nodup → x ∉ xs → (xs.insertionSort (· ≤ ·) ++ [x]).Nodup := by
    intro xs x hxs hx
    refine ((List.perm_insertionSort _ xs).nodup_iff.mpr hxs).append (List.nodup_singleton x) ?_
    rw [List.disjoint_singleton, List.mem_insertionSort]
    exact hx
  unfold children
  split
  · exact hconcat h.genres h.none_not_mem
  · split
    · exact .nil
    · rename_i genre _
      cases hlookup : tree.lookup genre with
      | none => exact hconcat .nil List.not_mem_nil
      | some styles =>
        have hstyles := h.styles _ ((OrderedDict.lookup_eq_some_iff h.genres).mp hlookup)
        exact hconcat hstyles.1 hstyles.2
  · exact .nil

end Children

/-- What a candidate is after so many rounds. -/
def Level (tree : Tree) : Nat → Candidate S → Prop
  | 0, c => c = .start
  | 1, c => ∃ option ∈ children tree [], c.path = [option]
  | _ + 2, c => Complete tree c.path

variable {py : Python S} {tag sha : String} {tree : Tree} {evidence : Evidence S (Except Raised)} {c d : Candidate S}
  {out : List (Candidate S)} {width level : Nat}

theorem path_of_mem_decisions {options : List String} {probabilities : List (String × S)}
    (h : d ∈ decisions c options probabilities) : ∃ option ∈ options, d.path = c.path ++ [option] := by
  obtain ⟨option, hoption, hd⟩ := List.mem_filterMap.mp h
  obtain ⟨p, _, hd⟩ := Option.bind_eq_some_iff.mp hd
  split at hd
  · cases hd
  · cases hd
    exact ⟨option, hoption, rfl⟩

/-- What an expansion comes to. -/
theorem expand_eq_ok (h : expand py tag tree evidence sha c = .ok out) :
    children tree c.path = [] ∧ out = [c] ∨
    (∃ option, children tree c.path = [option] ∧ out = [c.follow option]) ∨
    ∃ key capture probabilities, evidence tag (children tree c.path) c.path key = .ok capture ∧
      distribution (children tree c.path) capture = .ok probabilities ∧
      out = decisions c (children tree c.path) probabilities := by
  unfold expand at h
  split at h
  · rename_i hnil
    exact .inl ⟨hnil, (Except.pure_eq_ok.mp h).symm⟩
  · rename_i option hone
    exact .inr (.inl ⟨option, hone, (Except.pure_eq_ok.mp h).symm⟩)
  · obtain ⟨capture, hcapture, h⟩ := Except.bind_eq_ok.mp h
    obtain ⟨probabilities, hprobabilities, h⟩ := Except.bind_eq_ok.mp h
    refine .inr (.inr ⟨_, capture, probabilities, hcapture, ?_, (Except.pure_eq_ok.mp h).symm⟩)
    cases hdistribution : distribution (children tree c.path) capture with
    | error e =>
      rw [hdistribution] at hprobabilities
      cases hprobabilities
    | ok p =>
      rw [hdistribution] at hprobabilities
      exact hprobabilities

/-- An expansion goes down to the options there are, or has none and stays. -/
theorem path_of_mem_expand (h : expand py tag tree evidence sha c = .ok out) (hd : d ∈ out) :
    children tree c.path = [] ∧ d = c ∨ ∃ option ∈ children tree c.path, d.path = c.path ++ [option] := by
  rcases expand_eq_ok h with ⟨hnil, rfl⟩ | ⟨option, hone, rfl⟩ | ⟨_, _, _, _, _, rfl⟩
  · exact .inl ⟨hnil, List.mem_singleton.mp hd⟩
  · rw [List.mem_singleton.mp hd]
    exact .inr ⟨option, hone ▸ List.mem_singleton_self option, rfl⟩
  · exact .inr (path_of_mem_decisions hd)

theorem level_expand (hc : Level tree level c) (h : expand py tag tree evidence sha c = .ok out) :
    ∀ d ∈ out, Level tree (level + 1) d := by
  intro d hd
  have hpath := path_of_mem_expand h hd
  rcases level with _ | _ | level
  · have hstart : c = .start := hc
    rw [hstart] at hpath
    rcases hpath with ⟨hnil, _⟩ | hpath
    · exact absurd hnil (List.append_ne_nil_of_right_ne_nil _ (List.cons_ne_nil _ _))
    · exact hpath
  · obtain ⟨genre, hgenre, hc⟩ := hc
    rw [hc] at hpath
    by_cases hnone : genre = noneOption
    · rw [hnone] at hpath hc
      rcases hpath with ⟨_, rfl⟩ | ⟨option, hoption, _⟩
      · exact .inl hc
      · rw [Complete.children_eq (.inl rfl)] at hoption
        cases hoption
    · rcases hpath with ⟨hnil, _⟩ | ⟨option, hoption, hd⟩
      · rw [children, if_neg hnone] at hnil
        exact absurd hnil (List.append_ne_nil_of_right_ne_nil _ (List.cons_ne_nil _ _))
      · exact .inr ⟨genre, option, hd, (mem_children_nil.mp hgenre).resolve_right hnone, hnone,
          (mem_children_genre hnone).mp hoption⟩
  · have hcomplete : Complete tree c.path := hc
    rcases hpath with ⟨_, rfl⟩ | ⟨option, hoption, _⟩
    · exact hcomplete
    · rw [hcomplete.children_eq] at hoption
      cases hoption

theorem nodup_map_path_expand (htree : tree.WellFormed) (h : expand py tag tree evidence sha c = .ok out) :
    (out.map Candidate.path).Nodup := by
  rcases expand_eq_ok h with ⟨_, rfl⟩ | ⟨_, _, rfl⟩ | ⟨_, _, probabilities, _, _, rfl⟩
  · exact List.nodup_singleton _
  · exact List.nodup_singleton _
  · rw [decisions, List.map_filterMap]
    refine (htree.nodup_children c.path).filterMap fun option option' path hpath hpath' => ?_
    have hend : ∀ {option}, path ∈ ((probabilities.lookup option).bind fun p =>
        if p = ((0 : Int) : S) then none else some (c.decide option p)).map Candidate.path →
        path = c.path ++ [option] := by
      intro option hmem
      obtain ⟨d, hd, rfl⟩ := Option.map_eq_some_iff.mp hmem
      obtain ⟨p, _, hd⟩ := Option.bind_eq_some_iff.mp hd
      split at hd
      · cases hd
      · cases hd
        rfl
    have hsame := (hend hpath).symm.trans (hend hpath')
    exact List.singleton_inj.mp (List.append_cancel_left hsame)

/-- Below distinct paths the paths are distinct. -/
theorem path_ne_of_expand {c' d' : Candidate S} {out' : List (Candidate S)} (hc : Level tree level c)
    (hc' : Level tree level c') (hne : c.path ≠ c'.path) (h : expand py tag tree evidence sha c = .ok out)
    (h' : expand py tag tree evidence sha c' = .ok out') (hd : d ∈ out) (hd' : d' ∈ out') : d.path ≠ d'.path := by
  have hpath := path_of_mem_expand h hd
  have hpath' := path_of_mem_expand h' hd'
  rcases level with _ | _ | level
  · have hstart : c = .start := hc
    have hstart' : c' = .start := hc'
    rw [hstart, hstart'] at hne
    exact absurd rfl hne
  · obtain ⟨genre, _, hc⟩ := hc
    obtain ⟨genre', _, hc'⟩ := hc'
    have hhead : d.path.head? = some genre := by
      rcases hpath with ⟨_, rfl⟩ | ⟨option, _, hd⟩
      · rw [hc, List.head?_cons]
      · rw [hd, hc, List.singleton_append, List.head?_cons]
    have hhead' : d'.path.head? = some genre' := by
      rcases hpath' with ⟨_, rfl⟩ | ⟨option, _, hd'⟩
      · rw [hc', List.head?_cons]
      · rw [hd', hc', List.singleton_append, List.head?_cons]
    intro heq
    rw [heq, hhead'] at hhead
    rw [hc, hc', Option.some.inj hhead] at hne
    exact hne rfl
  · have hcomplete : Complete tree c.path := hc
    have hcomplete' : Complete tree c'.path := hc'
    rw [hcomplete.children_eq] at hpath
    rw [hcomplete'.children_eq] at hpath'
    simp only [List.not_mem_nil, false_and, exists_false, or_false, true_and] at hpath hpath'
    rwa [hpath, hpath']

/-! ## Traversals -/

variable {ranked wide narrow : List (Ranked S)}

/-- A traversal is a search of two rounds. -/
theorem traverse_eq_ok (h : traverse py tag tree evidence sha width = .ok ranked) :
    ∃ candidates, search (expand py tag tree evidence sha) (beam width) 2 [.start] = .ok candidates ∧
      ranked = candidates.map Candidate.ranked := by
  unfold traverse at h
  split at h
  · cases h
  · obtain ⟨candidates, hsearch, h⟩ := Except.bind_eq_ok.mp h
    exact ⟨candidates, hsearch, (Except.pure_eq_ok.mp h).symm⟩

theorem beam_subset (width : Nat) (expanded : List (Candidate S)) : beam width expanded ⊆ expanded :=
  best_subset

theorem traverse_eq_beam (h : traverse py tag tree evidence sha width = .ok ranked) :
    ∃ reached, ranked = (beam width reached).map Candidate.ranked := by
  obtain ⟨candidates, hsearch, rfl⟩ := traverse_eq_ok h
  obtain ⟨_, _, hsearch⟩ := Except.bind_eq_ok.mp hsearch
  obtain ⟨reached, _, hsearch⟩ := Except.bind_eq_ok.mp hsearch
  exact ⟨reached, congrArg _ (Except.pure_eq_ok.mp hsearch).symm⟩

theorem pairwise_score [LawfulScore S] (h : traverse py tag tree evidence sha width = .ok ranked) :
    ranked.Pairwise fun a b => b.score ≤ a.score := by
  obtain ⟨reached, rfl⟩ := traverse_eq_beam h
  rw [List.pairwise_map]
  exact pairwise_best.imp Candidate.score_le

/-- A traversal returns, best first, paths of the taxonomy, and no more than its beam is wide;
they are distinct when the options of every decision are. -/
theorem traverse_ranked [LawfulScore S] (h : traverse py tag tree evidence sha width = .ok ranked) :
    ranked.length ≤ width ∧ ranked.Pairwise (fun a b => b.score ≤ a.score) ∧
    (∀ r ∈ ranked, Complete tree r.path) ∧ (tree.WellFormed → (ranked.map Ranked.path).Nodup) := by
  have hstart : ∀ c ∈ [(Candidate.start : Candidate S)], Level tree 0 c := fun c hc => List.mem_singleton.mp hc
  refine ⟨?_, pairwise_score h, ?_⟩
  · obtain ⟨reached, rfl⟩ := traverse_eq_beam h
    rw [List.length_map]
    exact length_best_le
  obtain ⟨candidates, hsearch, rfl⟩ := traverse_eq_ok h
  refine ⟨?_, fun htree => ?_⟩
  · rw [List.forall_mem_map]
    exact search_forall (P := Level tree) (beam_subset width) level_expand hstart hsearch
  · rw [List.map_map]
    exact nodup_map_search (P := Level tree) (beam_subset width) nodup_map_best level_expand (fun _ hexpand =>
      nodup_map_path_expand htree hexpand) path_ne_of_expand hstart (List.nodup_singleton _) hsearch

/-! Fractions of powers of two, and a genre whose many styles are each less likely than the one style of the other. -/

def Binary : Type := ℚ

namespace Binary

instance : LinearOrder Binary := inferInstanceAs (LinearOrder ℚ)

-- Exact on the powers of two, the only numbers whose logarithm is taken.
def logTwo (x : ℚ) : ℚ := -(Nat.log2 x.den : ℤ)

def powTwo (x : ℚ) : ℚ := 2 ^ ⌊x⌋

def total (xs : List ℚ) : ℚ := xs.sum

def near (x y : ℚ) : Bool := decide (|x - y| ≤ 1 / 1000000)

def ratio (x : ℚ) (n : Nat) : ℚ := x / n

instance : Score Binary where
  intCast i := (i : ℚ)
  add := Rat.add
  sub := Rat.sub
  mul := Rat.mul
  neg := Rat.neg
  divNat := ratio
  log := logTwo
  exp := powTwo
  sum := total
  isFinite _ := true
  isClose := near

theorem powTwo_mono {x y : ℚ} (h : x ≤ y) : powTwo x ≤ powTwo y :=
  zpow_le_zpow_right₀ one_le_two (Int.floor_mono h)

end Binary

instance : LawfulScore Binary where
  le_of_neg_le_neg h := (neg_le_neg_iff (α := ℚ)).mp h
  exp_zero := by decide +kernel
  exp_le_exp h := Binary.powTwo_mono h

def unevenGenres : Taxonomy Binary where
  genres := [("B", ["1", "2", "3", "4", "5", "6", "7"]), ("A", ["only"])]
  provenance := .str "fixture"

def portion : List String → String → Binary
  | [], option => mkRat 1 (if option = "B" then 2 else 4)
  | ["A"], option => mkRat (if option = "only" then 1 else 0) 1
  | _, _ => mkRat 1 8

def divided (parent options : List String) : Value Binary :=
  .dict [("model", .str "jev-1.12"),
    ("probabilities", .dict (options.map fun option => (option, .float (portion parent option))))]

def dividing : Evidence Binary (Except Raised) := fun _ options parent _ => .ok (divided parent options)

theorem unevenGenres_wellFormed : unevenGenres.genres.WellFormed where
  genres := by decide
  none_not_mem := by decide
  styles := by decide

theorem traverse_ranked_unevenGenres :
    ∃ ranked, traverse plainPython "one" unevenGenres.genres dividing "" 3 = .ok ranked ∧
      ranked.map Ranked.path = [["A", "only"], ["B", "1"], ["B", "2"]] ∧ ranked.length ≤ 3 ∧
      ranked.Pairwise (fun a b => b.score ≤ a.score) ∧ (∀ r ∈ ranked, Complete unevenGenres.genres r.path) ∧
      (ranked.map Ranked.path).Nodup := by
  obtain ⟨ranked, hranked, hpaths⟩ := Except.exists_eq_ok
    (x := traverse plainPython "one" unevenGenres.genres dividing "" 3) (f := List.map Ranked.path)
    (b := [["A", "only"], ["B", "1"], ["B", "2"]]) (by decide +kernel)
  obtain ⟨hlength, hordered, hcomplete, hnodup⟩ := traverse_ranked hranked
  exact ⟨ranked, hranked, hpaths, hlength, hordered, hcomplete, hnodup unevenGenres_wellFormed⟩

/-- The wider traversal's first path is scored no worse than any the greedy one returns. -/
theorem traverse_outranks [LawfulScore S] (hwide : traverse py tag tree evidence sha 3 = .ok wide)
    (hgreedy : traverse py tag tree evidence sha 1 = .ok narrow) :
    ∀ r ∈ narrow, ∃ first, wide.head? = some first ∧ r.score ≤ first.score := by
  obtain ⟨candidates, hsearch, rfl⟩ := traverse_eq_ok hwide
  obtain ⟨candidates', hsearch', rfl⟩ := traverse_eq_ok hgreedy
  have hbeams : ∀ xs : List (Candidate S), beam 1 xs ⊆ beam 3 xs := fun _ => best_subset_best (Nat.le_add_left 1 2)
  obtain ⟨reached, rfl, hreached⟩ := search_two_wider hbeams (beam_subset 1) hsearch hsearch'
  rw [List.forall_mem_map]
  intro c hc
  have hmem := hreached hc
  cases hfirst : (beam 3 reached).head? with
  | none =>
    rw [List.head?_eq_none_iff] at hfirst
    rw [best_eq_nil_iff.mp hfirst] at hmem
    cases hmem
  | some first =>
    refine ⟨first.ranked, by rw [List.head?_map, hfirst, Option.map_some], ?_⟩
    rcases head_best hfirst hmem with rfl | hbefore
    · exact le_refl _
    · exact Candidate.score_le hbefore

/-- The greedy traversal takes the likelier genre, and ends on a path half as good. -/
theorem traverse_outranks_unevenGenres :
    ∃ wide narrow, traverse plainPython "one" unevenGenres.genres dividing "" 3 = .ok wide ∧
      traverse plainPython "one" unevenGenres.genres dividing "" 1 = .ok narrow ∧
      wide.map Ranked.path = [["A", "only"], ["B", "1"], ["B", "2"]] ∧ narrow.map Ranked.path = [["B", "1"]] ∧
      ∀ r ∈ narrow, ∃ first, wide.head? = some first ∧ r.score ≤ first.score := by
  obtain ⟨wide, hwide, hbest⟩ := Except.exists_eq_ok
    (x := traverse plainPython "one" unevenGenres.genres dividing "" 3) (f := List.map Ranked.path)
    (b := [["A", "only"], ["B", "1"], ["B", "2"]]) (by decide +kernel)
  obtain ⟨narrow, hnarrow, hpaths⟩ := Except.exists_eq_ok
    (x := traverse plainPython "one" unevenGenres.genres dividing "" 1) (f := List.map Ranked.path)
    (b := [["B", "1"]]) (by decide +kernel)
  exact ⟨wide, narrow, hwide, hnarrow, hbest, hpaths, traverse_outranks hwide hnarrow⟩

end Brainzgraphinator.TagMapping
