-- SUMMARY: The captures of a run, once its completed tags are labelled, are evaluated.
import Brainzgraphinator.Base.SessionTriples
import Brainzgraphinator.TagMapping.Evaluate

/-!
# Evaluating what was captured

A run returns what the evaluation needs once labels are added. Its captures replay, the
responses they came from were decoded objects, so every replay comes to a path, and no
score that is divided by vanishes.
-/

namespace Brainzgraphinator.TagMapping

open RecordReplay

variable {S : Type} [Score S]

/-! ## What is in the cache -/

section Cache

variable {py : Python S} {setup : Setup S} {c c' : Capturer setup} {tags options parent : List String} {tag key : String}

/-- Every cached capture has distinct labels. -/
def Clean (c : Capturer setup) : Prop := ∀ key capture, c.cache.lookup key = some capture → capture.Distinct

/-- The responses of the transport are decoded objects. -/
def Setup.Decodes (setup : Setup S) : Prop :=
  ∀ calls body, setup.transport.classify calls = .response body → body.Distinct

omit [Score S] in
theorem clean_of_sameCache (h : SameCache c c') (hclean : Clean c) : Clean c' := by
  rwa [Clean, h]

omit [Score S] in
theorem clean_modify {g : Capturer setup → Capturer setup} {E : Raised → Capturer setup → Prop}
    (hg : ∀ c, (g c).cache = c.cache) : Triple Clean (modify g : Capture setup PUnit) (fun _ => Clean) E :=
  .modify g fun c hclean => clean_of_sameCache (hg c) hclean

omit [Score S] in
theorem clean_fail {α : Type} {Q : α → Capturer setup → Prop} (request : Request) (key : String) (kind : FailureKind)
    (message : String) (attempts : Nat) :
    Triple Clean (fail request key kind message attempts : Capture setup α) Q fun _ => Clean := by
  refine Triple.bind (clean_modify ?_) fun _ => .throw _ fun _ h => h
  exact fun _ => rfl

theorem exchange_distinct_of_retry (hsetup : setup.Decodes) (request : Request) (key : String) {left : Nat}
    (hretry : ∀ n, left = n + 1 → Triple (fun _ => True) (exchange py request key n : Capture setup (Value S × S × Nat))
      (fun answer _ => answer.1.Distinct) fun _ _ => True) :
    Triple (fun _ => True) (exchange py request key left : Capture setup (Value S × S × Nat))
      (fun answer _ => answer.1.Distinct) fun _ _ => True := by
  have hfail : ∀ kind message attempts, Triple (fun _ => True)
      (fail request key kind message attempts : Capture setup (Value S × S × Nat))
      (fun answer _ => answer.1.Distinct) fun _ _ => True := by
    intro kind message attempts
    exact (Triple.trivial _).bind fun _ => .throw _ fun _ _ => trivial
  rw [exchange.eq_def]
  refine (Triple.trivial _).bind fun _ => (Triple.trivial _).bind fun began => (Triple.trivial _).bind fun c => ?_
  split
  · refine (Triple.trivial _).bind fun _ => ?_
    dsimp only
    split
    · exact hfail _ _ _
    · split
      · exact hfail _ _ _
      · exact (Triple.trivial _).bind fun _ => hretry _ rfl
  · split
    · exact hfail _ _ _
    · exact (Triple.trivial _).bind fun _ => hretry _ rfl
  · exact hfail _ _ _
  · rename_i body hbody
    exact (Triple.trivial _).bind fun _ => .pure _ fun _ _ => hsetup _ body hbody

theorem exchange_distinct (hsetup : setup.Decodes) (request : Request) (key : String) (left : Nat) :
    Triple (fun _ => True) (exchange py request key left : Capture setup (Value S × S × Nat))
      (fun answer _ => answer.1.Distinct) fun _ _ => True := by
  induction left with
  | zero =>
    refine exchange_distinct_of_retry hsetup request key ?_
    intro n hn
    cases hn
  | succ left ih =>
    refine exchange_distinct_of_retry hsetup request key ?_
    rintro n hn
    cases hn
    exact ih

theorem Clean.store (h : Clean c) {capture : Value S} (hcapture : capture.Distinct) (measurement : Measurement S) :
    Clean (c.store key capture measurement) := by
  intro k v hk
  by_cases heq : k = key
  · rw [heq, Capturer.store, OrderedDict.lookup_set_self] at hk
    rwa [← Option.some.inj hk]
  · rw [Capturer.store, OrderedDict.lookup_set_ne heq] at hk
    exact h k v hk

theorem clean_ask (hsetup : setup.Decodes) (tag : String) (options parent : List String) (key : String) :
    Triple Clean (ask py tag options parent key : Capture setup (Value S)) (fun _ => Clean) fun _ => Clean := by
  have hdistinct : Triple (fun _ => True) (exchange py ⟨model, tag, options, parent, instructions⟩ key
      (setup.maxAttempts - 1) : Capture setup (Value S × S × Nat)) (fun answer _ => answer.1.Distinct) fun _ _ => True :=
    exchange_distinct hsetup _ key _
  have hexchange := hdistinct.frame (I := Clean) (sameCache_exchange py _ key _) fun _ _ => clean_of_sameCache
  unfold ask
  refine (hexchange.mono (fun _ h => ⟨trivial, h⟩) (fun _ _ h => h) fun _ _ h => h.2).bind ?_
  rintro ⟨response, latency, attempts⟩
  dsimp only
  refine Triple.assuming fun hresponse => ?_
  split
  · refine Triple.bind (clean_modify ?_) fun _ => .throw _ fun _ h => h
    exact fun _ => rfl
  · split
    · exact clean_fail _ _ _ _ _
    · have hcapture : (Value.dict [("model", response.get "model"),
          ("probabilities", response.get "probabilities")]).Distinct := hresponse
      exact (Triple.modify (P := Clean) (Q := fun _ => Clean) _ fun c h => h.store hcapture _).bind fun _ =>
        .pure _ fun _ h => h

theorem clean_resolve (hsetup : setup.Decodes) (tag : String) (options parent : List String) (key : String) :
    Triple Clean (resolve py tag options parent key : Capture setup (Value S)) (fun _ => Clean) fun _ => Clean := by
  have hclock : Triple Clean (clock : Capture setup S) (fun _ => Clean) fun _ => Clean :=
    ((Triple.trivial _).frame (I := Clean) sameCache_clock fun _ _ => clean_of_sameCache).mono
      (fun _ h => ⟨trivial, h⟩) (fun _ _ h => h.2) fun _ _ h => h.2
  unfold resolve
  refine hclock.bind fun start => (Triple.get (Q := fun _ => Clean) fun _ h => h).bind fun c => ?_
  split
  · refine Triple.bind (clean_modify ?_) fun _ => hclock.bind fun now => Triple.bind (clean_modify ?_) fun _ =>
      .pure _ fun _ h => h
    · exact fun _ => rfl
    · exact fun _ => rfl
  · exact clean_ask hsetup tag options parent key

theorem clean_classifyTag (hsetup : setup.Decodes) (tag : String) :
    Triple Clean (classifyTag py tag : Capture setup (List (Ranked S))) (fun _ => Clean) fun _ => Clean := by
  unfold classifyTag traverse
  split
  · exact .throw _ fun _ h => h
  · refine (Triple.search (fun candidate => ?_) 2 _).bind fun _ => .pure _ fun _ h => h
    unfold expand
    rcases children setup.taxonomy.genres candidate.path with _ | ⟨option, _ | ⟨option', options⟩⟩
    · exact .pure _ fun _ h => h
    · exact .pure _ fun _ h => h
    · refine (clean_resolve hsetup tag _ _ _).bind fun capture => ?_
      exact (Triple.ofExcept _ (fun _ _ h => h) fun _ _ _ h => h).bind fun p => .pure _ fun _ h => h

theorem clean_classifyTags (hsetup : setup.Decodes) {p p' : Progress} (hclean : Clean c)
    (h : exec (classifyTags py tags p) c = (.ok p', c')) : Clean c' := by
  induction tags generalizing p c with
  | nil =>
    cases h
    exact hclean
  | cons tag rest ih =>
    have htag : Triple Clean (classifyTag py tag : Capture setup _) (fun _ => Clean) fun _ => Clean :=
      clean_classifyTag hsetup tag
    rw [exec_classifyTags_cons] at h
    rcases hturn : exec (classifyTag py tag) c with ⟨e | ranked, c₁⟩
    · rw [hturn] at h
      have hclean' := htag.error hclean hturn
      cases e with
      | captureFailure kind => exact ih hclean' h
      | budgetExhausted =>
        cases h
        exact hclean'
      | _ => cases h
    · rw [hturn] at h
      exact ih (htag.ok hclean hturn) h

end Cache

/-! ## Labelled captures -/

section Labelled

variable [Div S] {py : Python S} {casefold : String → String} {setup : Setup S} {c c' : Capturer setup}
  {tags : List String} {bundle : Bundle S} {labels : List (Label S)} {flatClaude : List (String × FlatClaude S)}

/-- The best path of a completed tag is that of the run, and is replayed. -/
def BestOfRun (py : Python S) (c : Capturer setup) (tags : List String) (tag : String) (path : List String) : Prop :=
  ∃ c₁ c₂ best rest, TurnOf py {} c tags.eraseDups tag c₁ ∧
    exec (classifyTag py tag) c₁ = (.ok (best :: rest), c₂) ∧ best.path = path

/-- A completed tag that is labelled has a row, whose best path is that of the run. -/
theorem exists_row [LawfulEvidence S] {label : Label S} (hsetup : setup.Decodes) (hclean : Clean c)
    (hrun : exec (run py tags) c = (.ok bundle, c')) (htag : label.tag ∈ bundle.tagsCompleted)
    (hlabel : checkLabel bundle.taxonomy.genres label = .ok ())
    (hflat : ∃ path, flatPath flatClaude label.tag = .ok path) :
    ∃ best row, BestOfRun py c tags label.tag best ∧
      evaluateLabel py casefold ⟨bundle.taxonomy, labels, bundle.captures, flatClaude⟩ label = .ok row ∧
      row.beamCorrect = decide (leaf best ∈ label.acceptedPaths) := by
  obtain ⟨progress, c₀, hloop, hbundle⟩ := exec_bind_eq_ok.mp hrun
  cases hbundle
  have hevidence : ∀ {tag options parent key capture}, lookUp c'.captures tag options parent key = .ok capture →
      capture.Distinct := by
    intro tag options parent key capture hcapture
    unfold lookUp at hcapture
    split at hcapture
    · rename_i hlookup
      cases hcapture
      exact clean_classifyTags hsetup hclean hloop key capture hlookup
    · cases hcapture
  obtain hold | ⟨c₁, c₂, ranked, hturn, hcomes, hlater⟩ := (classifyTags_classified rfl hloop).computed label.tag htag
  · cases hold
  have hbeam := (replays_traverse py label.tag setup.taxonomy.genres (taxonomySha py setup.taxonomy) 3).replays hcomes
    _ hlater
  obtain ⟨greedy, hgreedy⟩ := exists_traverse_one ⟨ranked, hbeam⟩
  obtain ⟨best, rest, rfl⟩ := List.exists_cons_of_ne_nil (traverse_ne_nil hevidence (Nat.succ_ne_zero 2) hbeam)
  obtain ⟨greedyBest, greedyRest, rfl⟩ :=
    List.exists_cons_of_ne_nil (traverse_ne_nil hevidence (Nat.succ_ne_zero 0) hgreedy)
  obtain ⟨path, hpath⟩ := hflat
  have hahead : ∃ ahead, separation (best :: rest) = .ok ahead := by
    rcases rest with _ | ⟨second, rest⟩
    · exact ⟨none, rfl⟩
    · have hsecond := (score_unit hbeam second (List.mem_cons_of_mem _ List.mem_cons_self)).1
      exact ⟨_, if_neg hsecond.ne'⟩
  obtain ⟨ahead, hahead⟩ := hahead
  refine ⟨best.path, _, ⟨c₁, c₂, best, rest, hturn, hcomes, rfl⟩, evaluateLabel_eq_ok.mpr ⟨hlabel, _, hgreedy, _, hbeam,
    path, hpath, greedyBest.path, rfl, best.path, rfl, ahead, hahead, rfl⟩, rfl⟩

/-- What a run captured, once its completed tags are labelled, is evaluated, and what the
evaluation counts as correct for the beam are the best paths of the run itself. -/
theorem captured_evaluates [LawfulEvidence S] (hsetup : setup.Decodes) (hclean : Clean c)
    (hrun : exec (run py tags) c = (.ok bundle, c')) (htaxonomy : checkTaxonomy bundle.taxonomy = .ok ())
    (hlabels : checkLabels labels = .ok ())
    (heach : ∀ label ∈ labels, label.tag ∈ bundle.tagsCompleted ∧ checkLabel bundle.taxonomy.genres label = .ok () ∧
      ∃ path, flatPath flatClaude label.tag = .ok path) :
    ∃ (rep : Report S) (best : Label S → List String),
      evaluate py casefold ⟨bundle.taxonomy, labels, bundle.captures, flatClaude⟩ = .ok rep ∧
      rep.sampleSize = labels.length ∧ (∀ label ∈ labels, BestOfRun py c tags label.tag (best label)) ∧
      rep.accuracy.beamK3 = Score.divNat
        (((labels.countP fun label => leaf (best label) ∈ label.acceptedPaths : Nat) : Int) : S) labels.length := by
  have hrow : ∀ label ∈ labels, ∃ best row, BestOfRun py c tags label.tag best ∧
      evaluateLabel py casefold ⟨bundle.taxonomy, labels, bundle.captures, flatClaude⟩ label = .ok row ∧
      row.beamCorrect = decide (leaf best ∈ label.acceptedPaths) := fun label hlabel =>
    exists_row hsetup hclean hrun (heach label hlabel).1 (heach label hlabel).2.1 (heach label hlabel).2.2
  have : Nonempty (Row S) := ⟨⟨none, false, false, false, false⟩⟩
  choose! best row hbest heval hcorrect using hrow
  have hrows : List.Forall₂ (fun label row =>
      evaluateLabel py casefold ⟨bundle.taxonomy, labels, bundle.captures, flatClaude⟩ label = .ok row) labels
      (labels.map row) := by
    rw [List.forall₂_map_right_iff, List.forall₂_same]
    exact heval
  refine ⟨report (labels.map row), best, evaluate_eq_ok.mpr ⟨htaxonomy, hlabels, _, hrows, rfl⟩, List.length_map _, hbest,
    ?_⟩
  have hcount : (labels.map row).countP Row.beamCorrect =
      labels.countP fun label => leaf (best label) ∈ label.acceptedPaths := by
    rw [List.countP_map]
    exact List.countP_congr fun label hlabel => by rw [Function.comp_apply, hcorrect label hlabel]
  simp only [report, hcount, List.length_map]

end Labelled

/-- The transport divides what it is asked about. -/
def decoding : Transport Binary where
  verifyModel name := .ok (.str name)
  classify
    | [] => .transient ""
    | request :: _ => .response (divided request.parent request.options.eraseDups)

theorem decodes_decoding {setup : Setup Binary} (h : setup.transport = decoding) : setup.Decodes := by
  intro calls body hbody fields hfields
  rw [h] at hbody
  rcases calls with _ | ⟨request, calls⟩
  · cases hbody
  · cases hbody
    cases hfields
    simpa [Function.comp_def] using OrderedDict.nodup_eraseDups request.options

theorem captured_evaluates_oneTag :
    ∃ (setup : Setup Binary) (c c' : Capturer setup) (bundle : Bundle Binary) (rep : Report Binary)
      (best : List String),
      Capturer.new plainPython decoding unevenGenres (some "secret") 4 4 ((60 : Int) : Binary) ((1 : Int) : Binary)
        (fun n => ((n : Int) : Binary)) [] [] = .ok ⟨setup, c⟩ ∧
      exec (run plainPython ["one"]) c = (.ok bundle, c') ∧
      (bundle.tagsCompleted, bundle.captures.map Prod.fst) = (["one"], ["one", "one/B", "one/A"]) ∧
      evaluate plainPython id ⟨bundle.taxonomy, [oneLabel], bundle.captures, oneFlat⟩ = .ok rep ∧
      rep.sampleSize = 1 ∧ BestOfRun plainPython c ["one"] "one" best := by
  obtain ⟨⟨setup, c⟩, hnew, hrun⟩ := Except.exists_eq_ok
    (x := Capturer.new plainPython decoding unevenGenres (some "secret") 4 4 ((60 : Int) : Binary)
      ((1 : Int) : Binary) (fun n => ((n : Int) : Binary)) [] [])
    (f := fun p => (exec (run plainPython ["one"]) p.2).1.toOption.map fun bundle =>
      (bundle.tagsCompleted, bundle.captures.map Prod.fst))
    (b := some (["one"], ["one", "one/B", "one/A"])) (by decide +kernel)
  obtain ⟨bundle, hbundle, hcaptured⟩ := Except.exists_eq_ok hrun
  have hcompleted : bundle.tagsCompleted = ["one"] := (Prod.ext_iff.mp hcaptured).1
  have hexec : exec (run plainPython ["one"]) c = (.ok bundle, (exec (run plainPython ["one"]) c).2) := by
    rw [← hbundle]
  have hfresh := Capturer.new_fresh hnew
  have hclean : Clean c := by
    intro key capture hlookup
    rw [hfresh.cache] at hlookup
    cases hlookup
  have htaxonomy : bundle.taxonomy = unevenGenres := by
    obtain ⟨_, _, _, hresult⟩ := exec_bind_eq_ok.mp hexec
    cases hresult
    exact hfresh.taxonomy
  have heach : ∀ label ∈ [oneLabel], label.tag ∈ bundle.tagsCompleted ∧
      checkLabel bundle.taxonomy.genres label = .ok () ∧ ∃ path, flatPath oneFlat label.tag = .ok path := by
    rw [List.forall_mem_singleton, hcompleted, htaxonomy]
    exact ⟨List.mem_cons_self, rfl, ["B"], rfl⟩
  have hlabels : checkLabels [oneLabel] = .ok () := rfl
  obtain ⟨rep, best, hrep, hsize, hbest, _⟩ :=
    captured_evaluates (decodes_decoding hfresh.transport) hclean hexec (htaxonomy ▸ rfl) hlabels heach
  exact ⟨setup, c, _, bundle, rep, best oneLabel, hnew, hexec, hcaptured, hrep, hsize,
    hbest oneLabel List.mem_cons_self⟩

end Brainzgraphinator.TagMapping
