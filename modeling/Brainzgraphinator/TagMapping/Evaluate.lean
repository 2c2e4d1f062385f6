-- SUMMARY: The evaluation of labelled captures: what it accepts, and how the sweep divides the sample.
import Brainzgraphinator.TagMapping.Ranking
import Brainzgraphinator.TagMapping.Replay

/-!
# Evaluating labelled captures

`evaluate` replays every labelled tag at both widths and counts what each method got
right. How far the best path is ahead of the second decides, threshold by threshold,
which tags would be accepted and which would go to review.
-/

namespace Brainzgraphinator.TagMapping

open BeamSearch

/-! ## Evaluation -/

/-- A labelled tag. -/
structure Label (S : Type) where
  tag : String
  acceptedPaths : List (List String)
  reviewedBy : Value S
  reviewedAt : Value S
  source : Value S

/-- What the flat classification predicted for a tag. -/
structure FlatClaude (S : Type) where
  model : String
  captureSource : Value S
  path : List String

/-- What the evaluation raises. -/
inductive Refusal where
  | raised (error : Raised)
  | indexError
  | zeroDivision

structure Labelled (S : Type) where
  taxonomy : Taxonomy S
  labels : List (Label S)
  captures : List (String × Value S)
  flatClaude : List (String × FlatClaude S)

variable {S : Type} [Score S]

def leaf (path : List String) : List String := if path = [noneOption] then [] else path.filter (· ≠ genreOnly)

def checkTaxonomy (taxonomy : Taxonomy S) : Except Raised Unit :=
  if !taxonomy.provenance.truthy then .error (.valueError "taxonomy provenance is required")
  else if noneOption ∈ taxonomy.genres.map Prod.fst ∨ taxonomy.genres.any (fun genre =>
      genreOnly ∈ genre.2 ∨ noneOption ∈ genre.2 ∨ ¬ genre.2.Nodup) then
    .error (.valueError "taxonomy contains reserved or duplicate labels")
  else .ok ()

def checkLabels (labels : List (Label S)) : Except Raised Unit :=
  if labels = [] ∨ ¬ (labels.map Label.tag).Nodup then
    .error (.valueError "nonempty distinct-tag labelled sample required")
  else .ok ()

/-- A target that is not in the taxonomy; the empty path stands for no genre. -/
def outside (tree : Tree) : List String → Bool
  | [] => false
  | genre :: rest => match tree.lookup genre, rest with
    | none, _ => true
    | some _, [] => false
    | some styles, [style] => style ∉ styles
    | some _, _ => true

def checkLabel (tree : Tree) (label : Label S) : Except Raised Unit :=
  if !label.reviewedBy.truthy || !label.reviewedAt.truthy || !label.source.truthy then
    .error (.valueError "human label provenance is required")
  else if label.acceptedPaths = [] then
    .error (.valueError "NONE is an empty path inside accepted_paths, not missing labels")
  else if label.acceptedPaths.any (outside tree) then .error (.valueError "human target outside taxonomy")
  else .ok ()

/-- The path of a string match, if there is exactly one. -/
def stringPath (casefold : String → String) (tree : Tree) (tag : String) : Option (List String) :=
  let styles := tree.flatMap fun genre =>
    (genre.2.filter fun style => casefold style = casefold tag).map fun style => [genre.1, style]
  let genres := (tree.map Prod.fst).filter fun genre => casefold genre = casefold tag
  match styles ++ genres.map fun genre => [genre] with
  | [path] => some path
  | _ => none

def flatPath (flatClaude : List (String × FlatClaude S)) (tag : String) : Except Raised (List String) :=
  match flatClaude.lookup tag with
  | none => .error .keyError
  | some flat =>
    if !"claude".toList.isPrefixOf flat.model.toList || !flat.captureSource.truthy then
      .error (.valueError "actual flat-Claude model and capture provenance required")
    else .ok flat.path

def bestPath (ranked : List (Ranked S)) : Except Refusal (List String) :=
  match ranked.head? with
  | some best => .ok best.path
  | none => .error .indexError

/-- How far the best path is ahead of the second, if there is one. -/
def separation [Div S] : List (Ranked S) → Except Refusal (Option S)
  | best :: second :: _ =>
    if second.score = ((0 : Int) : S) then .error .zeroDivision else .ok (some (best.score / second.score))
  | _ => .ok none

/-- What became of one label. -/
structure Row (S : Type) where
  separation : Option S
  greedy : Bool
  beamCorrect : Bool
  flatClaude : Bool
  stringMatch : Bool

def Row.passes (threshold : S) (row : Row S) : Bool := row.separation.any (threshold ≤ ·)

structure SweepRow (S : Type) where
  threshold : S
  accepted : Nat
  acceptedErrors : Nat
  review : Nat

def sweepRow (rows : List (Row S)) (threshold : S) : SweepRow S where
  threshold := threshold
  accepted := rows.countP (·.passes threshold)
  acceptedErrors := rows.countP fun row => row.passes threshold && !row.beamCorrect
  review := rows.countP fun row => row.separation.all (· < threshold)

structure Accuracy (S : Type) where
  greedy : S
  beamK3 : S
  flatClaude : S
  stringMatch : S

structure Report (S : Type) where
  sampleSize : Nat
  accuracy : Accuracy S
  thresholdSweep : List (SweepRow S)

/-- 1.0, 1.5, 2.0, 3.0, 5.0 and 10.0. -/
def thresholds : List S :=
  [((1 : Int) : S), Score.divNat ((3 : Int) : S) 2, ((2 : Int) : S), ((3 : Int) : S), ((5 : Int) : S), ((10 : Int) : S)]

def report (rows : List (Row S)) : Report S :=
  let share (correct : Row S → Bool) := Score.divNat (((rows.countP correct : Nat) : Int) : S) rows.length
  { sampleSize := rows.length
    accuracy := ⟨share Row.greedy, share Row.beamCorrect, share Row.flatClaude, share Row.stringMatch⟩
    thresholdSweep := thresholds.map (sweepRow rows) }

/-- A tag traversed on the captures. -/
def Labelled.traversed (py : Python S) (bundle : Labelled S) (tag : String) (width : Nat) :
    Except Raised (List (Ranked S)) :=
  traverse py tag bundle.taxonomy.genres (lookUp fun key => bundle.captures.lookup key)
    (taxonomySha py bundle.taxonomy) width

variable [Div S] (py : Python S) (casefold : String → String)

def evaluateLabel (bundle : Labelled S) (label : Label S) : Except Refusal (Row S) := do
  let tree := bundle.taxonomy.genres
  (checkLabel tree label).mapError .raised
  let greedy ← (bundle.traversed py label.tag 1).mapError .raised
  let beam ← (bundle.traversed py label.tag 3).mapError .raised
  let flat ← (flatPath bundle.flatClaude label.tag).mapError .raised
  let correct (path : List String) : Bool := path ∈ label.acceptedPaths
  let greedyPath ← bestPath greedy
  let beamPath ← bestPath beam
  return {
    separation := ← separation beam
    greedy := correct (leaf greedyPath)
    beamCorrect := correct (leaf beamPath)
    flatClaude := correct flat
    stringMatch := (stringPath casefold tree label.tag).any correct }

/-- Replay labelled evidence. -/
def evaluate (bundle : Labelled S) : Except Refusal (Report S) := do
  (checkTaxonomy bundle.taxonomy).mapError .raised
  (checkLabels bundle.labels).mapError .raised
  return report (← bundle.labels.mapM (evaluateLabel py casefold bundle))

/-! ## Distributions -/

section Distributions

omit [Div S]

variable {options : List String} {capture : Value S} {fields : List (String × Value S)}
  {probabilities : List (String × S)}

theorem shares_eq_ok (h : shares fields = .ok probabilities) :
    probabilities.map Prod.fst = fields.map Prod.fst ∧ ∀ share ∈ probabilities, inUnitInterval share.2 = true := by
  induction fields generalizing probabilities with
  | nil =>
    cases h
    exact ⟨rfl, List.forall_mem_nil _⟩
  | cons field fields ih =>
    obtain ⟨option, v⟩ := field
    rw [shares] at h
    split at h
    · cases h
    · split at h
      · rename_i hunit
        obtain ⟨rest, hrest, h⟩ := Except.bind_eq_ok.mp h
        cases h
        obtain ⟨hkeys, hall⟩ := ih hrest
        exact ⟨congrArg (option :: ·) hkeys, List.forall_mem_cons.mpr ⟨hunit, hall⟩⟩
      · cases h

theorem distribution_eq_ok (h : distribution options capture = .ok probabilities) :
    ∃ fields, capture.get "probabilities" = .dict fields ∧ sameLabels (fields.map Prod.fst) options = true ∧
      shares fields = .ok probabilities ∧
      Score.isClose (Score.sum (probabilities.map Prod.snd)) ((1 : Int) : S) = true := by
  unfold distribution at h
  obtain ⟨name, _, h⟩ := Except.bind_eq_ok.mp h
  split at h
  · dsimp only at h
    split at h
    · cases h
    · obtain ⟨value, hvalue, h⟩ := Except.bind_eq_ok.mp h
      split at h
      · rename_i fields
        split at h
        · cases h
        · rename_i hlabels
          obtain ⟨shared, hshares, h⟩ := Except.bind_eq_ok.mp h
          split at h
          · cases h
          · rename_i hclose
            cases h
            refine ⟨fields, ?_, by simpa using hlabels, hshares, by simpa using hclose⟩
            unfold Value.item at hvalue
            split at hvalue
            · split at hvalue
              · rename_i hlookup
                rw [Value.get, hlookup, Option.getD_some]
                exact Except.ok.inj hvalue
              · cases hvalue
            · cases hvalue
      · cases h
  · cases h

/-- The probabilities a traversal reads are at most one each, and under distinct labels not all are zero. -/
theorem unit_of_distribution (h : distribution options capture = .ok probabilities) {option : String} {p : S}
    (hp : probabilities.lookup option = some p) : ((0 : Int) : S) ≤ p ∧ p ≤ ((1 : Int) : S) := by
  obtain ⟨fields, _, _, hshares, _⟩ := distribution_eq_ok h
  obtain ⟨before, after, hmem, _⟩ := List.lookup_eq_some_iff.mp hp
  have hunit := (shares_eq_ok hshares).2 (option, p) (hmem ▸ List.mem_append_right _ List.mem_cons_self)
  rw [inUnitInterval, Bool.and_eq_true, Bool.and_eq_true] at hunit
  exact ⟨of_decide_eq_true hunit.1.2, of_decide_eq_true hunit.2⟩

end Distributions

/-- The probabilities of a response or a capture have distinct labels, as those of a decoded object have. -/
def Value.Distinct (v : Value S) : Prop := ∀ fields, v.get "probabilities" = .dict fields → (fields.map Prod.fst).Nodup

/-- The logarithms of the probabilities on a path, added up. -/
def logSum (ps : List S) : S := ps.foldl (fun total p => total + Score.log p) ((0 : Int) : S)

/-- What else is assumed of the floats. -/
class LawfulEvidence (S : Type) [Score S] [Div S] : Prop extends LawfulScore S where
  zero_lt_one : ((0 : Int) : S) < ((1 : Int) : S)
  not_isClose : ∀ {ps : List S}, (∀ p ∈ ps, p = ((0 : Int) : S)) →
    Score.isClose (Score.sum ps) ((1 : Int) : S) = false
  /-- The geometric mean of at most two positive probabilities neither vanishes nor exceeds one. -/
  mean_unit : ∀ {ps : List S}, ps ≠ [] → ps.length ≤ 2 → (∀ p ∈ ps, ((0 : Int) : S) < p ∧ p ≤ ((1 : Int) : S)) →
    ((0 : Int) : S) < Score.exp (Score.divNat (logSum ps) ps.length) ∧
      Score.exp (Score.divNat (logSum ps) ps.length) ≤ ((1 : Int) : S)
  one_le_div : ∀ {x y : S}, ((0 : Int) : S) < y → y ≤ x → x ≤ ((1 : Int) : S) → ((1 : Int) : S) ≤ x / y

/-! ## Traversals come to something -/

section Traversals

variable {options : List String} {capture : Value S} {probabilities : List (String × S)} {tag sha : String}
  {tree : Tree} {evidence : Evidence S (Except Raised)} {c d : Candidate S} {out : List (Candidate S)} {width : Nat}
  {ranked : List (Ranked S)} {level : Nat}

theorem decisions_ne_nil [LawfulEvidence S] (hdistinct : capture.Distinct)
    (h : distribution options capture = .ok probabilities) : decisions c options probabilities ≠ [] := by
  obtain ⟨fields, hfields, hlabels, hshares, hclose⟩ := distribution_eq_ok h
  have hkeys := (shares_eq_ok hshares).1
  have hpositive : ∃ share ∈ probabilities, share.2 ≠ ((0 : Int) : S) := by
    by_contra hzero
    push Not at hzero
    rw [LawfulEvidence.not_isClose (List.forall_mem_map.mpr hzero)] at hclose
    cases hclose
  obtain ⟨⟨option, p⟩, hshare, hp⟩ := hpositive
  have hnodup : (probabilities.map Prod.fst).Nodup := hkeys ▸ hdistinct fields hfields
  have hlookup : probabilities.lookup option = some p := (OrderedDict.lookup_eq_some_iff hnodup).mpr hshare
  have hoption : option ∈ options := by
    rw [sameLabels, Bool.and_eq_true, List.all_eq_true] at hlabels
    exact of_decide_eq_true (hlabels.1 option (hkeys ▸ List.mem_map.mpr ⟨_, hshare, rfl⟩))
  refine List.ne_nil_of_mem (List.mem_filterMap.mpr ⟨option, hoption, ?_⟩ : c.decide option p ∈ _)
  rw [hlookup, Option.bind_some, if_neg hp]

variable {py}

theorem expand_ne_nil [LawfulEvidence S]
    (hevidence : ∀ {tag options parent key capture}, evidence tag options parent key = .ok capture → capture.Distinct)
    (h : expand py tag tree evidence sha c = .ok out) : out ≠ [] := by
  rcases expand_eq_ok h with ⟨_, rfl⟩ | ⟨_, _, rfl⟩ | ⟨_, capture, probabilities, hcapture, hprobabilities, rfl⟩
  · exact List.cons_ne_nil _ _
  · exact List.cons_ne_nil _ _
  · exact decisions_ne_nil (hevidence hcapture) hprobabilities

theorem traverse_ne_nil [LawfulEvidence S]
    (hevidence : ∀ {tag options parent key capture}, evidence tag options parent key = .ok capture → capture.Distinct)
    (hwidth : width ≠ 0) (h : traverse py tag tree evidence sha width = .ok ranked) : ranked ≠ [] := by
  obtain ⟨candidates, hsearch, rfl⟩ := traverse_eq_ok h
  have hbeam : ∀ {xs : List (Candidate S)}, xs ≠ [] → beam width xs ≠ [] := by
    intro xs hxs hnil
    obtain ⟨width, rfl⟩ := Nat.exists_eq_succ_of_ne_zero hwidth
    exact hxs (best_eq_nil_iff.mp hnil)
  exact List.map_eq_nil_iff.not.mpr
    (search_ne_nil hbeam (expand_ne_nil hevidence) (List.cons_ne_nil _ _) hsearch)

/-! ## Scores lie between zero and one -/

/-- So many decisions were made, each of positive probability. -/
def Scored (level : Nat) (c : Candidate S) : Prop :=
  c.decisions ≤ level ∧ ∃ ps : List S, ps.length = c.decisions ∧
    (∀ p ∈ ps, ((0 : Int) : S) < p ∧ p ≤ ((1 : Int) : S)) ∧ c.logProbability = logSum ps

omit [Div S] in
theorem scored_expand (hc : Scored level c) (h : expand py tag tree evidence sha c = .ok out) :
    ∀ d ∈ out, Scored (level + 1) d := by
  intro d hd
  obtain ⟨hlevel, ps, hlength, hpositive, hlog⟩ := hc
  rcases expand_eq_ok h with ⟨_, rfl⟩ | ⟨_, _, rfl⟩ | ⟨_, capture, probabilities, _, hprobabilities, rfl⟩
  · rw [List.mem_singleton.mp hd]
    exact ⟨Nat.le_succ_of_le hlevel, ps, hlength, hpositive, hlog⟩
  · rw [List.mem_singleton.mp hd]
    exact ⟨Nat.le_succ_of_le hlevel, ps, hlength, hpositive, hlog⟩
  · obtain ⟨option, _, hd⟩ := List.mem_filterMap.mp hd
    obtain ⟨p, hlookup, hd⟩ := Option.bind_eq_some_iff.mp hd
    split at hd
    · cases hd
    · rename_i hzero
      cases hd
      obtain ⟨hnonneg, hle⟩ := unit_of_distribution hprobabilities hlookup
      refine ⟨Nat.succ_le_succ hlevel, ps ++ [p], ?_, ?_, ?_⟩
      · rw [List.length_append, hlength]
        rfl
      · rw [List.forall_mem_append, List.forall_mem_singleton]
        exact ⟨hpositive, lt_of_le_of_ne hnonneg (Ne.symm hzero), hle⟩
      · rw [logSum, List.foldl_append, Candidate.decide, hlog]
        rfl

theorem score_unit [LawfulEvidence S] (h : traverse py tag tree evidence sha width = .ok ranked) :
    ∀ r ∈ ranked, ((0 : Int) : S) < r.score ∧ r.score ≤ ((1 : Int) : S) := by
  obtain ⟨candidates, hsearch, rfl⟩ := traverse_eq_ok h
  rw [List.forall_mem_map]
  intro c hc
  have hstart : ∀ c ∈ [(Candidate.start : Candidate S)], Scored 0 c := by
    intro c hc
    rw [List.mem_singleton.mp hc]
    exact ⟨Nat.le_refl 0, [], rfl, List.forall_mem_nil _, rfl⟩
  obtain ⟨hlevel, ps, hlength, hpositive, hlog⟩ :=
    search_forall (beam_subset width) scored_expand hstart hsearch c hc
  rw [Candidate.ranked]
  split
  · exact ⟨LawfulEvidence.zero_lt_one, le_rfl⟩
  · rename_i hdecided
    rw [hlog, ← hlength]
    rw [← hlength] at hdecided hlevel
    exact LawfulEvidence.mean_unit (List.length_pos_iff.mp (Nat.pos_of_ne_zero hdecided)) hlevel hpositive

end Traversals

/-! ## The sweep -/

section Sweep

variable {py casefold} {bundle : Labelled S} {label : Label S} {row : Row S} {rows : List (Row S)} {rep : Report S}

omit [Score S] [Div S] in
theorem mapError_eq_ok {α : Type} {x : Except Raised α} {a : α} : x.mapError Refusal.raised = .ok a ↔ x = .ok a := by
  cases x with
  | error e =>
    constructor
    · intro h
      cases h
    · intro h
      cases h
  | ok b => exact ⟨fun h => congrArg _ (Except.ok.inj h), fun h => congrArg _ (Except.ok.inj h)⟩

theorem evaluate_eq_ok : evaluate py casefold bundle = .ok rep ↔
    checkTaxonomy bundle.taxonomy = .ok () ∧ checkLabels bundle.labels = .ok () ∧
      ∃ rows, List.Forall₂ (fun label row => evaluateLabel py casefold bundle label = .ok row) bundle.labels rows ∧
        report rows = rep := by
  simp only [evaluate, Except.bind_eq_ok, Except.pure_eq_ok, mapError_eq_ok, Except.mapM_eq_ok, Unique.exists_iff]

theorem evaluateLabel_eq_ok : evaluateLabel py casefold bundle label = .ok row ↔
    checkLabel bundle.taxonomy.genres label = .ok () ∧
      ∃ greedy, bundle.traversed py label.tag 1 = .ok greedy ∧ ∃ beam, bundle.traversed py label.tag 3 = .ok beam ∧
      ∃ flat, flatPath bundle.flatClaude label.tag = .ok flat ∧ ∃ greedyPath, bestPath greedy = .ok greedyPath ∧
      ∃ beamPath, bestPath beam = .ok beamPath ∧ ∃ ahead, separation beam = .ok ahead ∧
      { separation := ahead
        greedy := decide (leaf greedyPath ∈ label.acceptedPaths)
        beamCorrect := decide (leaf beamPath ∈ label.acceptedPaths)
        flatClaude := decide (flat ∈ label.acceptedPaths)
        stringMatch := (stringPath casefold bundle.taxonomy.genres label.tag).any (decide <| · ∈ label.acceptedPaths) :
        Row S } = row := by
  simp only [evaluateLabel, Except.bind_eq_ok, Except.pure_eq_ok, mapError_eq_ok, Unique.exists_iff]

/-- The rows are those of the labels, one by one. -/
theorem countP_rows {p : Label S → Bool} {q : Row S → Bool} {labels : List (Label S)}
    (hrows : List.Forall₂ (fun label row => evaluateLabel py casefold bundle label = .ok row) labels rows)
    (h : ∀ label row, evaluateLabel py casefold bundle label = .ok row → q row = p label) :
    rows.countP q = labels.countP p := by
  induction hrows with
  | nil => rfl
  | cons hrow _ ih => rw [List.countP_cons, List.countP_cons, ih, h _ _ hrow]

omit [Div S] in
theorem review_eq (threshold : S) (row : Row S) :
    row.separation.all (· < threshold) = !row.passes threshold := by
  unfold Row.passes
  cases row.separation with
  | none => rfl
  | some ahead =>
    rw [Option.all_some, Option.any_some, ← decide_not]
    exact decide_eq_decide.mpr not_le.symm

omit [Div S] in
theorem passes_of_le {threshold threshold' : S} (h : threshold ≤ threshold') (hpasses : row.passes threshold' = true) :
    row.passes threshold = true := by
  unfold Row.passes at hpasses ⊢
  cases hahead : row.separation with
  | none =>
    rw [hahead] at hpasses
    cases hpasses
  | some ahead =>
    rw [hahead] at hpasses
    exact decide_eq_true (h.trans (of_decide_eq_true hpasses))

/-- At the threshold of one a tag passes when there is a second path. -/
theorem passes_one [LawfulEvidence S] (h : evaluateLabel py casefold bundle label = .ok row) :
    (!row.passes ((1 : Int) : S)) = (bundle.traversed py label.tag 3).toOption.any (·.length = 1) := by
  obtain ⟨_, _, _, beam, hbeam, _, _, _, _, beamPath, hbest, ahead, hahead, rfl⟩ := evaluateLabel_eq_ok.mp h
  have hordered := pairwise_score hbeam
  have hunit := score_unit hbeam
  rw [hbeam]
  unfold Row.passes
  rcases beam with _ | ⟨best, _ | ⟨second, rest⟩⟩
  · cases hbest
  · cases hahead
    rfl
  · rw [separation] at hahead
    split at hahead
    · cases hahead
    · cases hahead
      have hsecond := (hunit second (List.mem_cons_of_mem _ List.mem_cons_self)).1
      have hbest := (hunit best List.mem_cons_self).2
      have hle : second.score ≤ best.score := List.rel_of_pairwise_cons hordered List.mem_cons_self
      have hone : ((1 : Int) : S) ≤ best.score / second.score := LawfulEvidence.one_le_div hsecond hle hbest
      simp [Except.toOption, hone]

/-- In a report every tag is accepted or reviewed, at every threshold; the higher the threshold the
fewer are accepted; and at one only those are reviewed whose traversal came to a single path. -/
theorem evaluate_sweep [LawfulEvidence S] (h : evaluate py casefold bundle = .ok rep) :
    rep.sampleSize = bundle.labels.length ∧
    (∀ a ∈ rep.thresholdSweep, a.accepted + a.review = rep.sampleSize ∧ a.acceptedErrors ≤ a.accepted) ∧
    (∀ a ∈ rep.thresholdSweep, ∀ b ∈ rep.thresholdSweep, a.threshold ≤ b.threshold →
      b.accepted ≤ a.accepted ∧ b.acceptedErrors ≤ a.acceptedErrors ∧ a.review ≤ b.review) ∧
    ∀ a ∈ rep.thresholdSweep, a.threshold = ((1 : Int) : S) →
      a.review = bundle.labels.countP fun label => (bundle.traversed py label.tag 3).toOption.any (·.length = 1) := by
  obtain ⟨_, _, rows, hrows, rfl⟩ := evaluate_eq_ok.mp h
  have hreview : ∀ threshold, (sweepRow rows threshold).review = rows.countP fun row => !row.passes threshold :=
    fun threshold => List.countP_congr fun row _ => by rw [review_eq]
  have hparts : ∀ threshold, (sweepRow rows threshold).accepted + (sweepRow rows threshold).review = rows.length := by
    intro threshold
    rw [hreview, List.length_eq_countP_add_countP (·.passes threshold)]
    refine congrArg (_ + ·) (List.countP_congr fun row _ => ?_)
    simp
  refine ⟨hrows.length_eq.symm, ?_, ?_, ?_⟩
  · simp only [report, List.forall_mem_map]
    intro threshold _
    exact ⟨hparts threshold, List.countP_mono_left fun row _ herror => (Bool.and_eq_true_iff.mp herror).1⟩
  · simp only [report, List.forall_mem_map]
    intro threshold _ threshold' _ hle
    have haccepted : (sweepRow rows threshold').accepted ≤ (sweepRow rows threshold).accepted :=
      List.countP_mono_left fun row _ hpasses => passes_of_le hle hpasses
    have herrors : (sweepRow rows threshold').acceptedErrors ≤ (sweepRow rows threshold).acceptedErrors := by
      refine List.countP_mono_left fun row _ herror => ?_
      obtain ⟨hpasses, hwrong⟩ := Bool.and_eq_true_iff.mp herror
      exact Bool.and_eq_true_iff.mpr ⟨passes_of_le hle hpasses, hwrong⟩
    have hall := hparts threshold
    have hall' := hparts threshold'
    exact ⟨haccepted, herrors, by omega⟩
  · simp only [report, List.forall_mem_map]
    intro threshold _ hone
    have hone : threshold = ((1 : Int) : S) := hone
    rw [hreview, hone]
    exact countP_rows hrows fun label row hrow => passes_one hrow

end Sweep

/-! A sample of one tag, whose best path is twice as good as the second. -/

instance : Div Binary := inferInstanceAs (Div ℚ)

namespace Binary

theorem logTwo_nonpos (x : ℚ) : logTwo x ≤ 0 := by
  rw [logTwo, neg_nonpos]
  exact Int.cast_nonneg (Int.natCast_nonneg _)

theorem foldl_logTwo_nonpos (ps : List ℚ) {start : ℚ} (h : start ≤ 0) :
    ps.foldl (fun sum p => sum + logTwo p) start ≤ 0 := by
  induction ps generalizing start with
  | nil => exact h
  | cons p ps ih => exact ih (add_nonpos h (logTwo_nonpos p))

theorem powTwo_unit {x : ℚ} (h : x ≤ 0) : 0 < powTwo x ∧ powTwo x ≤ 1 :=
  ⟨zpow_pos two_pos _, zpow_le_one_of_nonpos₀ one_le_two (Int.floor_nonpos h)⟩

theorem near_total {ps : List ℚ} (hzero : ∀ p ∈ ps, p = 0) : near (total ps) 1 = false := by
  rw [total, List.sum_eq_zero hzero]
  decide +kernel

theorem one_le_quotient {x y : ℚ} (hpos : ((0 : Int) : ℚ) < y) (hle : y ≤ x) : 1 ≤ x / y := by
  rw [Int.cast_zero] at hpos
  exact (one_le_div₀ hpos).mpr hle

end Binary

instance : LawfulEvidence Binary where
  zero_lt_one := by decide +kernel
  not_isClose hzero := Binary.near_total hzero
  mean_unit {ps} _ _ _ :=
    Binary.powTwo_unit (div_nonpos_of_nonpos_of_nonneg (Binary.foldl_logTwo_nonpos ps le_rfl) (Nat.cast_nonneg _))
  one_le_div hpos hle _ := Binary.one_le_quotient hpos hle

def oneLabel : Label Binary := ⟨"one", [["A", "only"]], .str "reviewer", .str "today", .str "sample"⟩

def oneFlat : List (String × FlatClaude Binary) := [("one", ⟨"claude-fixture", .str "fixture", ["B"]⟩)]

def oneTag : Labelled Binary :=
  ⟨unevenGenres, [oneLabel], [("one", divided [] ["A", "B", noneOption]), ("one/A", divided ["A"] ["only", genreOnly]),
    ("one/B", divided ["B"] ["1", "2", "3", "4", "5", "6", "7", genreOnly])], oneFlat⟩

theorem evaluate_sweep_oneTag :
    ∃ rep, evaluate plainPython id oneTag = .ok rep ∧
      (rep.sampleSize, rep.thresholdSweep.map fun a => (a.accepted, a.review)) =
        (1, [(1, 0), (1, 0), (1, 0), (0, 1), (0, 1), (0, 1)]) ∧
      ∀ a ∈ rep.thresholdSweep, a.accepted + a.review = rep.sampleSize ∧ a.acceptedErrors ≤ a.accepted := by
  obtain ⟨rep, hrep, hcounts⟩ := Except.exists_eq_ok (x := evaluate plainPython id oneTag)
    (f := fun rep => (rep.sampleSize, rep.thresholdSweep.map fun a => (a.accepted, a.review)))
    (b := (1, [(1, 0), (1, 0), (1, 0), (0, 1), (0, 1), (0, 1)])) (by decide +kernel)
  exact ⟨rep, hrep, hcounts, (evaluate_sweep hrep).2.1⟩

end Brainzgraphinator.TagMapping
