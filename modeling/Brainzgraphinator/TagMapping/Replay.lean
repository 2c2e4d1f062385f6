-- SUMMARY: Every tag a capture run reports completed replays from its captures, at both widths.
import Brainzgraphinator.TagMapping.Capturer

/-!
# Captured tags replay

An answer that went into the cache is never replaced, so what a traversal read during
the capture run is still there when the run returns. The traversal of width three
replays from it with the same result. The greedy one expands, in either round, only
candidates that the wider one expanded, and reads the same captures for them.
-/

namespace Brainzgraphinator.TagMapping

open RecordReplay

variable {S : Type} {py : Python S} {setup : Setup S} {c c' : Capturer setup}

/-! ## What is in the cache stays -/

/-- The captures on record. -/
def Capturer.captures (c : Capturer setup) (key : String) : Option (Value S) := c.cache.lookup key

def SameCache (c c' : Capturer setup) : Prop := c'.cache = c.cache

theorem SameCache.trans {c₁ c₂ c₃ : Capturer setup} (h : SameCache c₁ c₂) (h' : SameCache c₂ c₃) : SameCache c₁ c₃ :=
  Eq.trans h' h

theorem sameCache_pure {α : Type} (a : α) : Maintains SameCache (pure a : Capture setup α) := fun _ => rfl

theorem sameCache_modify {g : Capturer setup → Capturer setup} (hg : ∀ c, (g c).cache = c.cache) :
    Maintains SameCache (modify g : Capture setup PUnit) := hg

theorem sameCache_get : Maintains SameCache (get : Capture setup (Capturer setup)) := fun _ => rfl

theorem sameCache_clock : Maintains SameCache (clock : Capture setup S) := fun _ => rfl

theorem sameCache_sleep (seconds : S) : Maintains SameCache (sleep seconds : Capture setup PUnit) := fun _ => rfl

theorem sameCache_fail {α : Type} (request : Request) (key : String) (kind : FailureKind) (message : String)
    (attempts : Nat) : Maintains SameCache (fail request key kind message attempts : Capture setup α) := fun _ => rfl

theorem sameCache_spend (request : Request) : Maintains SameCache (spend request : Capture setup PUnit) := by
  intro c
  rw [spend, exec_bind, exec_get]
  dsimp only
  split
  · rfl
  · rfl

/-! ## What a question leaves in the cache -/

/-- An answer is kept under its key; without one the cache is the same. -/
inductive Asked (c : Capturer setup) (key : String) : Except Raised (Value S) × Capturer setup → Prop
  | failed {e : Raised} {c' : Capturer setup} : SameCache c c' → Asked c key (.error e, c')
  | answered {capture : Value S} {c' : Capturer setup} : c'.cache = OrderedDict.set key capture c.cache →
      Asked c key (.ok capture, c')

/-- The cache answers, or it has nothing under the key and the transport is asked. -/
inductive Resolved (c : Capturer setup) (key : String) : Except Raised (Value S) × Capturer setup → Prop
  | cached {capture : Value S} {c' : Capturer setup} : c.captures key = some capture → SameCache c c' →
      Resolved c key (.ok capture, c')
  | asked {p : Except Raised (Value S) × Capturer setup} {c₁ : Capturer setup} : c.captures key = none →
      SameCache c c₁ → Asked c₁ key p → Resolved c key p

theorem Resolved.extends {key : String} {p : Except Raised (Value S) × Capturer setup} (h : Resolved c key p) :
    Extends c.captures p.2.captures := by
  intro k v hk
  cases h with
  | cached _ hsame => rwa [Capturer.captures, hsame]
  | asked hnone hsame hasked =>
    cases hasked with
    | failed hsame' => rwa [Capturer.captures, hsame', hsame]
    | answered hset =>
      have hne : k ≠ key := by
        rintro rfl
        rw [hnone] at hk
        cases hk
      rwa [Capturer.captures, hset, OrderedDict.lookup_set_ne hne, hsame]

theorem Resolved.recorded {key : String} {capture : Value S} (h : Resolved c key (.ok capture, c')) :
    c'.captures key = some capture := by
  cases h with
  | cached hcached hsame => rwa [Capturer.captures, hsame]
  | asked hnone hsame hasked =>
    cases hasked with
    | answered hset => rw [Capturer.captures, hset, OrderedDict.lookup_set_self]

theorem exec_clock (c : Capturer setup) :
    exec clock c = (.ok (setup.clock c.ticks), { c with ticks := c.ticks + 1 }) := rfl

/-! ## What a traversal reads is in the cache -/

variable [Score S]

theorem sameCache_exchange_of_retry (py : Python S) (request : Request) (key : String) {left : Nat}
    (hretry : ∀ n, left = n + 1 → Maintains SameCache (exchange py request key n : Capture setup (Value S × S × Nat))) :
    Maintains SameCache (exchange py request key left : Capture setup (Value S × S × Nat)) := by
  rw [exchange.eq_def]
  refine (sameCache_spend request).bind .trans fun _ => sameCache_clock.bind .trans fun began =>
    sameCache_get.bind .trans fun c => ?_
  split
  · refine (sameCache_modify fun _ => rfl).bind .trans fun _ => ?_
    dsimp only
    split
    · exact sameCache_fail _ _ _ _ _
    · split
      · exact sameCache_fail _ _ _ _ _
      · exact (sameCache_sleep _).bind .trans fun _ => hretry _ rfl
  · split
    · exact sameCache_fail _ _ _ _ _
    · exact (sameCache_sleep _).bind .trans fun _ => hretry _ rfl
  · exact sameCache_fail _ _ _ _ _
  · exact sameCache_clock.bind .trans fun _ => sameCache_pure _

theorem sameCache_exchange (py : Python S) (request : Request) (key : String) (left : Nat) :
    Maintains SameCache (exchange py request key left : Capture setup (Value S × S × Nat)) := by
  induction left with
  | zero => exact sameCache_exchange_of_retry py request key nofun
  | succ left ih =>
    refine sameCache_exchange_of_retry py request key fun n hn => ?_
    rw [← Nat.succ.inj hn]
    exact ih

theorem asked (py : Python S) (tag : String) (options parent : List String) (key : String) (c : Capturer setup) :
    Asked c key (exec (ask py tag options parent key) c) := by
  have hexchange := sameCache_exchange py ⟨model, tag, options, parent, instructions⟩ key
    (setup.maxAttempts - 1) c
  unfold ask
  rw [exec_bind]
  rcases h : exec (exchange py ⟨model, tag, options, parent, instructions⟩ key (setup.maxAttempts - 1)) c with
    ⟨e | ⟨response, latency, attempts⟩, c₁⟩
  · rw [h] at hexchange
    exact .failed hexchange
  · rw [h] at hexchange
    dsimp only
    split
    · exact .failed hexchange
    · split
      · exact .failed hexchange
      · exact .answered (congrArg (OrderedDict.set key _) hexchange)

theorem resolved (py : Python S) (tag : String) (options parent : List String) (key : String)
    (c : Capturer setup) : Resolved c key (exec (resolve py tag options parent key) c) := by
  unfold resolve
  rw [exec_bind_ok (exec_clock c), exec_bind_ok (exec_get _)]
  split
  · rename_i capture h
    rw [exec_bind_ok (exec_modify _ _), exec_bind_ok (exec_clock _), exec_bind_ok (exec_modify _ _), exec_pure]
    exact .cached h rfl
  · rename_i h
    exact .asked h (rfl : SameCache c { c with ticks := c.ticks + 1 }) (asked py tag options parent key _)

theorem replays_resolve (py : Python S) (tag : String) (options parent : List String) (key : String) :
    Replays Capturer.captures (resolve py tag options parent key : Capture setup (Value S))
      fun r => lookUp r tag options parent key where
  keeps c := (resolved py tag options parent key c).extends
  replays {c capture c'} h r hr := by
    have hresolved := resolved py tag options parent key c
    rw [h] at hresolved
    rw [lookUp, hr key capture hresolved.recorded]

theorem replays_expand (py : Python S) (tag : String) (tree : Tree) (sha : String) (c : Candidate S) :
    Replays Capturer.captures (expand py tag tree (resolve py) sha c : Capture setup (List (Candidate S)))
      fun r => expand py tag tree (lookUp r) sha c := by
  unfold expand
  rcases children tree c.path with _ | ⟨option, _ | ⟨option', options⟩⟩
  · exact .pure _
  · exact .pure _
  · exact (replays_resolve py tag _ _ _).bind fun capture => (Replays.ofExcept _).bind fun p => .pure _

/-- What a traversal of the capture run came to, every record that keeps its captures gives again. -/
theorem replays_traverse (py : Python S) (tag : String) (tree : Tree) (sha : String) (width : Nat) :
    Replays Capturer.captures (traverse py tag tree (resolve py) sha width : Capture setup (List (Ranked S)))
      fun r => traverse py tag tree (lookUp r) sha width := by
  unfold traverse
  split
  · exact .throw _ _
  · exact (BeamSearch.replays_search (fun c => replays_expand py tag tree sha c) _ _ _).bind fun _ => .pure _

/-! ## A narrower search reads no more -/

theorem beam_one_subset (expanded : List (Candidate S)) : beam 1 expanded ⊆ beam 3 expanded :=
  List.take_subset_take_left _ (by decide)

/-- The greedy traversal succeeds on every record on which the wider one does. -/
theorem exists_traverse_one {tag : String} {tree : Tree} {sha : String} {r : String → Option (Value S)}
    (h : ∃ ranked, traverse py tag tree (lookUp r) sha 3 = .ok ranked) :
    ∃ ranked, traverse py tag tree (lookUp r) sha 1 = .ok ranked := by
  obtain ⟨ranked, hranked⟩ := h
  rw [traverse, if_neg (by decide)] at hranked
  obtain ⟨candidates, hwide, _⟩ := Except.bind_eq_ok.mp hranked
  obtain ⟨first, hgreedy⟩ := BeamSearch.exists_search_two_of_subset beam_one_subset ⟨candidates, hwide⟩
  rw [traverse, if_neg (by decide)]
  exact ⟨_, Except.bind_eq_ok.mpr ⟨first, hgreedy, rfl⟩⟩

/-! ## Runs -/

section Run

variable {tag : String} {rest tags : List String} {p p' : Progress} {c₁ c₂ : Capturer setup}
  {ranked : List (Ranked S)}

theorem classifyTag_keeps (py : Python S) (tag : String) (c : Capturer setup) :
    Extends c.captures (exec (classifyTag py tag) c).2.captures :=
  (replays_traverse py tag setup.taxonomy.genres _ 3).keeps c

theorem exec_classifyTags_cons :
    exec (classifyTags py (tag :: rest) p) c =
      match exec (classifyTag py tag) c with
      | (.ok _, c₁) => exec (classifyTags py rest { p with completed := p.completed ++ [tag] }) c₁
      | (.error (.captureFailure _), c₁) => exec (classifyTags py rest { p with failed := p.failed ++ [tag] }) c₁
      | (.error .budgetExhausted, c₁) => (.ok { p with skipped := tag :: rest }, c₁)
      | (.error e, c₁) => (.error e, c₁) := by
  rw [classifyTags, exec_bind_ok (exec_outcome _ c)]
  rcases exec (classifyTag py tag) c with ⟨e | ranked, c₁⟩
  · cases e <;> rfl
  · rfl

/-- The loop comes to the tag in the state `c₁`. -/
def TurnOf (py : Python S) (p : Progress) (c : Capturer setup) (tags : List String) (tag : String)
    (c₁ : Capturer setup) : Prop :=
  ∃ before after q, tags = before ++ tag :: after ∧ exec (classifyTags py before p) c = (.ok q, c₁) ∧ q.skipped = []

theorem turnOf_self (hskipped : p.skipped = []) : TurnOf py p c (tag :: rest) tag c :=
  ⟨[], rest, p, rfl, rfl, hskipped⟩

/-- What the loop over the tags does when it is not aborted. -/
structure Classified (py : Python S) (tags : List String) (p : Progress) (c : Capturer setup) (p' : Progress)
    (c' : Capturer setup) : Prop where
  keeps : Extends c.captures c'.captures
  parts : (p'.completed ++ p'.failed ++ p'.skipped).Perm (p.completed ++ p.failed ++ tags)
  computed : ∀ tag ∈ p'.completed, tag ∈ p.completed ∨ ∃ c₁ c₂ ranked, TurnOf py p c tags tag c₁ ∧
    exec (classifyTag py tag) c₁ = (.ok ranked, c₂) ∧ Extends c₂.captures c'.captures

theorem Classified.nil (hskipped : p.skipped = []) : Classified py [] p c p c where
  keeps := .refl _
  parts := by rw [hskipped]
  computed tag htag := .inl htag

theorem Classified.completed (hskipped : p.skipped = []) (hturn : exec (classifyTag py tag) c = (.ok ranked, c₁))
    (h : Classified py rest { p with completed := p.completed ++ [tag] } c₁ p' c') :
    Classified py (tag :: rest) p c p' c' where
  keeps := by
    have hkeeps := classifyTag_keeps py tag c
    rw [hturn] at hkeeps
    exact hkeeps.trans h.keeps
  parts := by
    refine h.parts.trans ?_
    simp only [List.append_assoc, List.singleton_append]
    exact .append_left _ List.perm_middle.symm
  computed t ht := by
    rcases h.computed t ht with hold | ⟨c₂, c₃, ranked', ⟨before, after, q, rfl, hbefore, hq⟩, hcomes, hlater⟩
    · rcases List.mem_append.mp hold with hold | hself
      · exact .inl hold
      · rw [List.mem_singleton.mp hself]
        exact .inr ⟨c, c₁, ranked, turnOf_self hskipped, hturn, h.keeps⟩
    · refine .inr ⟨c₂, c₃, ranked', ⟨tag :: before, after, q, rfl, ?_, hq⟩, hcomes, hlater⟩
      rw [exec_classifyTags_cons, hturn]
      exact hbefore

theorem Classified.failed {kind : FailureKind}
    (hturn : exec (classifyTag py tag) c = (.error (.captureFailure kind), c₁))
    (h : Classified py rest { p with failed := p.failed ++ [tag] } c₁ p' c') :
    Classified py (tag :: rest) p c p' c' where
  keeps := by
    have hkeeps := classifyTag_keeps py tag c
    rw [hturn] at hkeeps
    exact hkeeps.trans h.keeps
  parts := by
    refine h.parts.trans ?_
    simp only [List.append_assoc, List.singleton_append]
    exact .refl _
  computed t ht := by
    rcases h.computed t ht with hold | ⟨c₂, c₃, ranked', ⟨before, after, q, rfl, hbefore, hq⟩, hcomes, hlater⟩
    · exact .inl hold
    · refine .inr ⟨c₂, c₃, ranked', ⟨tag :: before, after, q, rfl, ?_, hq⟩, hcomes, hlater⟩
      rw [exec_classifyTags_cons, hturn]
      exact hbefore

theorem Classified.exhausted (hturn : exec (classifyTag py tag) c = (.error .budgetExhausted, c₁)) :
    Classified py (tag :: rest) p c { p with skipped := tag :: rest } c₁ where
  keeps := by
    have hkeeps := classifyTag_keeps py tag c
    rwa [hturn] at hkeeps
  parts := .refl _
  computed t ht := .inl ht

theorem classifyTags_classified (hskipped : p.skipped = [])
    (h : exec (classifyTags py tags p) c = (.ok p', c')) : Classified py tags p c p' c' := by
  induction tags generalizing p c with
  | nil =>
    cases h
    exact .nil hskipped
  | cons tag rest ih =>
    rw [exec_classifyTags_cons] at h
    rcases hturn : exec (classifyTag py tag) c with ⟨e | ranked, c₁⟩
    · rw [hturn] at h
      cases e with
      | captureFailure kind => exact .failed hturn (ih hskipped h)
      | budgetExhausted =>
        cases h
        exact .exhausted hturn
      | _ => cases h
    · rw [hturn] at h
      exact .completed hskipped hturn (ih hskipped h)

/-- Every tag a run reports completed replays from the returned captures alone, greedily
and with the ranked paths the run computed; the reports partition the distinct tags; and
the budget of requests is kept. -/
theorem captured_tags_replay {bundle : Bundle S} (h : exec (run py tags) c = (.ok bundle, c')) :
    (∀ tag ∈ bundle.tagsCompleted, ∃ c₁ c₂ ranked, TurnOf py {} c tags.eraseDups tag c₁ ∧
      exec (classifyTag py tag) c₁ = (.ok ranked, c₂) ∧
      replay py bundle tag 3 = .ok ranked ∧ ∃ greedy, replay py bundle tag 1 = .ok greedy) ∧
    ((bundle.tagsCompleted ++ bundle.tagsFailed ++ bundle.tagsSkipped).Nodup ∧
      ∀ tag, tag ∈ bundle.tagsCompleted ++ bundle.tagsFailed ++ bundle.tagsSkipped ↔ tag ∈ tags) ∧
    c'.calls.length ≤ setup.maxRequests := by
  obtain ⟨progress, c₀, hloop, hbundle⟩ := exec_bind_eq_ok.mp h
  cases hbundle
  have hclassified := classifyTags_classified rfl hloop
  refine ⟨fun tag htag => ?_, ⟨?_, fun tag => ?_⟩, ?_⟩
  · obtain hold | ⟨c₁, c₂, ranked, hturn, hcomes, hlater⟩ := hclassified.computed tag htag
    · cases hold
    · have hreplay := (replays_traverse py tag setup.taxonomy.genres _ 3).replays hcomes _ hlater
      exact ⟨c₁, c₂, ranked, hturn, hcomes, hreplay, exists_traverse_one ⟨ranked, hreplay⟩⟩
  · exact hclassified.parts.nodup_iff.mpr (OrderedDict.nodup_eraseDups _)
  · rw [hclassified.parts.mem_iff]
    exact List.mem_eraseDups
  · rw [c'.counted]
    exact c'.within

end Run

/-! A run over three tags with four requests: a certain answer after a rate limit, an error, and no budget. -/

def Whole : Type := Int

instance : LinearOrder Whole := inferInstanceAs (LinearOrder Int)

instance : Score Whole where
  intCast i := i
  add := Int.add
  sub := Int.sub
  mul := Int.mul
  neg := Int.neg
  divNat x n := Int.fdiv x n
  -- Only the logarithm of one is taken, and the exponential of that.
  log _ := Int.ofNat 0
  exp _ := Int.ofNat 1
  sum := List.foldl Int.add (Int.ofNat 0)
  isFinite _ := true
  isClose x y := decide (x = y)

def plainPython {S : Type} : Python S where
  hexdigest
    | _, .dict [("tag", .str tag), ("parent", .list [.str genre]), _, _, _, _] => tag ++ "/" ++ genre
    | _, .dict [("tag", .str tag), _, _, _, _, _] => tag
    | _, _ => ""
  repr _ := ""

def certainty (first : String) (others : List String) : Reply Whole :=
  .response (.dict [("model", .str "jev-1.12.3"),
    ("probabilities", .dict ((first, .int 1) :: others.map fun option => (option, .int 0)))])

def unreliable : Transport Whole where
  verifyModel name := .ok (.str name)
  classify
    | [_, _] => .rateLimited (.int 7)
    | ⟨_, "two", _, _, _⟩ :: _ => .error "connection reset"
    | ⟨_, _, option :: options, _, _⟩ :: _ => certainty option options
    | _ => .transient ""

def twoGenres : Taxonomy Whole where
  genres := [("B", ["shared"]), ("A", ["shared", "other"])]
  provenance := .str "fixture"

theorem captured_tags_replay_unreliable :
    ∃ (setup : Setup Whole) (c c' : Capturer setup) (bundle : Bundle Whole),
      Capturer.new plainPython unreliable twoGenres (some "secret") 4 4 (Int.ofNat 60) (Int.ofNat 1) Int.ofNat [] [] =
        .ok ⟨setup, c⟩ ∧
      exec (run plainPython ["one", "two", "one", "three"]) c = (.ok bundle, c') ∧
      (bundle.tagsCompleted, bundle.tagsFailed, bundle.tagsSkipped) = (["one"], ["two"], ["three"]) ∧
      (∃ greedy, replay plainPython bundle "one" 1 = .ok greedy) ∧ c'.calls.length ≤ setup.maxRequests := by
  obtain ⟨⟨setup, c⟩, hnew, hrun⟩ := Except.exists_eq_ok
    (x := Capturer.new plainPython unreliable twoGenres (some "secret") 4 4 (Int.ofNat 60) (Int.ofNat 1) Int.ofNat [] [])
    (f := fun p => (exec (run plainPython ["one", "two", "one", "three"]) p.2).1.toOption.map
      fun b => (b.tagsCompleted, b.tagsFailed, b.tagsSkipped))
    (b := some (["one"], ["two"], ["three"])) (by decide +kernel)
  obtain ⟨bundle, hbundle, htags⟩ := Except.exists_eq_ok hrun
  have hexec : exec (run plainPython ["one", "two", "one", "three"]) c =
      (.ok bundle, (exec (run plainPython ["one", "two", "one", "three"]) c).2) := by
    rw [← hbundle]
  obtain ⟨hreplays, _, hcalls⟩ := captured_tags_replay hexec
  have hcompleted : bundle.tagsCompleted = ["one"] := (Prod.ext_iff.mp htags).1
  have hone : "one" ∈ bundle.tagsCompleted := by
    rw [hcompleted]
    exact List.mem_cons_self
  obtain ⟨_, _, _, _, _, _, hgreedy⟩ := hreplays "one" hone
  exact ⟨setup, c, _, bundle, hnew, hexec, htags, hgreedy, hcalls⟩

end Brainzgraphinator.TagMapping
