-- SUMMARY: The books of a capture run: every request it spent is on record, or was lost to the budget.
import Mathlib.Algebra.Order.Monoid.Defs
import Brainzgraphinator.Base.SessionTriples
import Brainzgraphinator.TagMapping.Replay

/-!
# The books of a capture run

Every attempt spends budget. What a run reports accounts for all of it: the attempts of the
requests that were answered and measured, those of the requests that failed, and those of
the one request that was under way when the budget ran out.
-/

namespace Brainzgraphinator.TagMapping

open RecordReplay

variable {S : Type}

/-- The attempts of the measured requests. -/
def measuredAttempts (measurements : List (String × Measurement S)) : Nat :=
  (measurements.map fun entry => entry.2.attempts).sum

def failedAttempts (failures : List Failure) : Nat := (failures.map Failure.attempts).sum

variable [Score S] {setup : Setup S}

/-- The books, when the run began with so many captures and measured attempts, the tags that
failed are these, and `n` attempts of a request are under way. -/
structure Books (captured measured : Nat) (failed : List String) (n : Nat) (c : Capturer setup) : Prop where
  spent : c.requests + measured = measuredAttempts c.measurements + failedAttempts c.failures + n
  cold : captured + c.coldCalls = c.cache.length
  known : ∀ key, c.cache.lookup key = none → c.measurements.lookup key = none
  failed : c.failures.map Failure.tag = failed
  attempts : ∀ f ∈ c.failures, 1 ≤ f.attempts ∧ f.attempts ≤ setup.maxAttempts
  limited : c.rateLimitResponses ≤ c.requests
  slept : ∀ wait ∈ c.slept, wait ≤ setup.maxWait

/-- What is on the books when the traversal of a tag raises, and the run goes on: the failure is
that of the tag, or the budget is spent and a request that was under way is lost. -/
def Aborts (captured measured : Nat) (failed : List String) (tag : String) : Raised → Capturer setup → Prop
  | .captureFailure _, c => Books captured measured (failed ++ [tag]) 0 c
  | .budgetExhausted, c =>
    c.requests = setup.maxRequests ∧ ∃ n < setup.maxAttempts, Books captured measured failed n c
  | _, _ => True

variable {py : Python S} {captured measured n : Nat} {failed options parent : List String} {tag key : String}
  {c c' : Capturer setup}

/-! ## Requests -/

theorem Books.tick (h : Books captured measured failed n c) :
    Books captured measured failed n { c with ticks := c.ticks + 1 } :=
  ⟨h.spent, h.cold, h.known, h.failed, h.attempts, h.limited, h.slept⟩

omit [Score S] in
theorem triple_clock {P : Capturer setup → Prop} {E : Raised → Capturer setup → Prop}
    (h : ∀ c, P c → P { c with ticks := c.ticks + 1 }) : Triple P clock (fun _ => P) E where
  ok hP hexec := by
    cases hexec
    exact h _ hP
  error _ hexec := by cases hexec

/-- One attempt more is under way, and no rate limit has come of it. -/
def Sent (captured measured : Nat) (failed : List String) (n : Nat) (c : Capturer setup) : Prop :=
  Books captured measured failed (n + 1) c ∧ c.rateLimitResponses < c.requests

theorem triple_spend (request : Request) (hn : n < setup.maxAttempts) :
    Triple (Books captured measured failed n) (spend request : Capture setup PUnit)
      (fun _ => Sent captured measured failed n) (Aborts captured measured failed tag) where
  ok {c a c'} hbooks hexec := by
    rw [spend, exec_bind_ok (exec_get c)] at hexec
    split at hexec
    · cases hexec
      refine ⟨⟨?_, hbooks.cold, hbooks.known, hbooks.failed, hbooks.attempts, ?_, hbooks.slept⟩, ?_⟩
      · have hspent := hbooks.spent
        dsimp only
        omega
      · exact Nat.le_succ_of_le hbooks.limited
      · exact Nat.lt_succ_of_le hbooks.limited
    · cases hexec
  error {c e c'} hbooks hexec := by
    rw [spend, exec_bind_ok (exec_get c)] at hexec
    split at hexec
    · cases hexec
    · rename_i hspent
      cases hexec
      exact ⟨Nat.le_antisymm c.within (Nat.le_of_not_lt hspent), n, hn, hbooks⟩

/-- A failure takes the attempts under way. -/
theorem Books.fail (h : Books captured measured failed n c) (hpos : 1 ≤ n) (hmax : n ≤ setup.maxAttempts)
    (parent : List String) (key message : String) (kind : FailureKind) :
    Books captured measured (failed ++ [tag]) 0
      { c with failures := c.failures ++ [⟨tag, parent, key, kind, message, n⟩] } where
  spent := by
    have hspent := h.spent
    simp only [failedAttempts, List.map_append, List.sum_append, List.map_cons, List.map_nil, List.sum_cons,
      List.sum_nil] at hspent ⊢
    omega
  cold := h.cold
  known := h.known
  failed := by rw [List.map_append, h.failed, List.map_singleton]
  attempts f hf := by
    rcases List.mem_append.mp hf with hf | hf
    · exact h.attempts f hf
    · rw [List.mem_singleton.mp hf]
      exact ⟨hpos, hmax⟩
  limited := h.limited
  slept := h.slept

theorem triple_fail {α : Type} {Q : α → Capturer setup → Prop} (request : Request) (key message : String)
    (kind : FailureKind) (hpos : 1 ≤ n) (hmax : n ≤ setup.maxAttempts) :
    Triple (Books captured measured failed n) (fail request key kind message n : Capture setup α) Q
      (Aborts captured measured failed request.tag) where
  ok _ hexec := by cases hexec
  error hbooks hexec := by
    cases hexec
    exact hbooks.fail hpos hmax _ _ _ _

theorem triple_sleep {E : Raised → Capturer setup → Prop} {seconds : S} (hmax : seconds ≤ setup.maxWait) :
    Triple (Books captured measured failed n) (sleep seconds : Capture setup PUnit)
      (fun _ => Books captured measured failed n) E :=
  .modify _ fun c h => {
    spent := h.spent
    cold := h.cold
    known := h.known
    failed := h.failed
    attempts := h.attempts
    limited := h.limited
    slept := fun wait hwait => by
      rcases List.mem_append.mp hwait with hwait | hwait
      · exact h.slept wait hwait
      · rw [List.mem_singleton.mp hwait]
        exact hmax }

theorem Sent.limit (h : Sent captured measured failed n c) :
    Books captured measured failed (n + 1) { c with rateLimitResponses := c.rateLimitResponses + 1 } :=
  ⟨h.1.spent, h.1.cold, h.1.known, h.1.failed, h.1.attempts, h.2, h.1.slept⟩

/-- The attempts under way came to an answer. -/
def Answered (captured measured : Nat) (failed : List String) (answer : Value S × S × Nat) (c : Capturer setup) :
    Prop :=
  (1 ≤ answer.2.2 ∧ answer.2.2 ≤ setup.maxAttempts) ∧ Books captured measured failed answer.2.2 c

theorem triple_exchange_of_retry (request : Request) (key : String) {left : Nat}
    (hleft : n + left + 1 = setup.maxAttempts)
    (hretry : ∀ left', left = left' + 1 → Triple (Books captured measured failed (n + 1))
      (exchange py request key left' : Capture setup _) (Answered captured measured failed)
      (Aborts captured measured failed request.tag)) :
    Triple (Books captured measured failed n) (exchange py request key left : Capture setup (Value S × S × Nat))
      (Answered captured measured failed) (Aborts captured measured failed request.tag) := by
  have hattempts : setup.maxAttempts - left = n + 1 := by omega
  have hmax : n + 1 ≤ setup.maxAttempts := by omega
  rw [exchange.eq_def, hattempts]
  refine (triple_spend request hmax).bind fun _ => (triple_clock fun c h => ⟨h.1.tick, h.2⟩).bind fun began =>
    (Triple.get (Q := fun _ => Sent captured measured failed n) fun _ h => h).bind fun c => ?_
  have hfail : ∀ kind message, Triple (Books captured measured failed (n + 1))
      (fail request key kind message (n + 1) : Capture setup (Value S × S × Nat)) (Answered captured measured failed)
      (Aborts captured measured failed request.tag) := fun kind message =>
    triple_fail request key message kind (Nat.succ_pos n) hmax
  split
  · refine (Triple.modify (Q := fun _ => Books captured measured failed (n + 1)) _ fun c h => h.limit).bind fun _ => ?_
    dsimp only
    split
    · exact hfail _ _
    · rename_i hwait
      split
      · exact hfail _ _
      · exact (triple_sleep (not_lt.mp hwait)).bind fun _ => hretry _ rfl
  · split
    · exact (hfail _ _).mono (fun _ h => h.1) (fun _ _ h => h) fun _ _ h => h
    · refine Triple.bind ((triple_sleep (min_le_right _ _)).mono (fun _ h => h.1) (fun _ _ h => h) fun _ _ h => h)
        fun _ => hretry _ rfl
  · exact (hfail _ _).mono (fun _ h => h.1) (fun _ _ h => h) fun _ _ h => h
  · exact (triple_clock fun c h => ⟨h.1.tick, h.2⟩).bind fun ended =>
      .pure _ fun c h => ⟨⟨Nat.succ_pos n, hmax⟩, h.1⟩

theorem triple_exchange (request : Request) (key : String) {left : Nat} (hleft : n + left + 1 = setup.maxAttempts) :
    Triple (Books captured measured failed n) (exchange py request key left : Capture setup (Value S × S × Nat))
      (Answered captured measured failed) (Aborts captured measured failed request.tag) := by
  induction left generalizing n with
  | zero =>
    refine triple_exchange_of_retry request key hleft ?_
    intro left' hcontra
    cases hcontra
  | succ left ih =>
    refine triple_exchange_of_retry request key hleft ?_
    rintro left' hleft'
    cases hleft'
    exact ih (by omega)

/-! ## Questions -/

theorem Books.hit (h : Books captured measured failed n c) : Books captured measured failed n (c.hit key) :=
  ⟨h.spent, h.cold, h.known, h.failed, h.attempts, h.limited, h.slept⟩

/-- The measurement takes the attempts under way, and the key is new. -/
theorem Books.store (h : Books captured measured failed n c) (hnew : c.cache.lookup key = none) (capture : Value S)
    (latency : S) (usage : Option Usage) :
    Books captured measured failed 0 (c.store key capture ⟨latency, usage, n⟩) where
  spent := by
    have hspent := h.spent
    have hset := OrderedDict.set_of_not_mem (OrderedDict.lookup_eq_none_iff.mp (h.known key hnew))
      (⟨latency, usage, n⟩ : Measurement S)
    simp only [Capturer.store, measuredAttempts, hset, List.map_append, List.map_cons, List.map_nil,
      List.sum_append, List.sum_cons, List.sum_nil] at hspent ⊢
    omega
  cold := by
    have hcold := h.cold
    have hset := OrderedDict.set_of_not_mem (OrderedDict.lookup_eq_none_iff.mp hnew) capture
    simp only [Capturer.store, hset, List.length_append, List.length_singleton]
    omega
  known k hk := by
    by_cases heq : k = key
    · rw [heq, Capturer.store, OrderedDict.lookup_set_self] at hk
      cases hk
    · rw [Capturer.store, OrderedDict.lookup_set_ne heq] at hk ⊢
      exact h.known k hk
  failed := h.failed
  attempts := h.attempts
  limited := h.limited
  slept := h.slept

theorem triple_ask (py : Python S) (tag : String) (options parent : List String) (key : String) :
    Triple (fun c => Books captured measured failed 0 c ∧ c.cache.lookup key = none)
      (ask py tag options parent key : Capture setup (Value S)) (fun _ => Books captured measured failed 0)
      (Aborts captured measured failed tag) := by
  have hleft : 0 + (setup.maxAttempts - 1) + 1 = setup.maxAttempts := by
    have hpos := setup.attempts_pos
    omega
  have hexchange : Triple (Books captured measured failed 0)
      (exchange py ⟨model, tag, options, parent, instructions⟩ key (setup.maxAttempts - 1) : Capture setup _)
      (Answered captured measured failed) (Aborts captured measured failed tag) :=
    triple_exchange _ key hleft
  have hnew := hexchange.frame (I := fun c => c.cache.lookup key = none) (sameCache_exchange py _ key _)
    fun c c' hsame hnone => by rwa [hsame]
  unfold ask
  refine (hnew.mono (fun _ h => h) (fun _ _ h => h) fun _ _ h => h.1).bind ?_
  rintro ⟨response, latency, attempts⟩
  dsimp only
  refine Triple.mono (Triple.assuming (P := fun c => Books captured measured failed attempts c ∧
    c.cache.lookup key = none) fun hbounds => ?_) (fun _ h => and_assoc.mp h) (fun _ _ h => h) fun _ _ h => h
  split
  · exact (Triple.modify (Q := fun _ _ => True) _ fun _ _ => trivial).bind fun _ => .throw _ fun _ _ => trivial
  · split
    · exact (triple_fail _ key _ _ hbounds.1 hbounds.2).mono (fun _ h => h.1) (fun _ _ h => h) fun _ _ h => h
    · exact (Triple.modify _ fun c h => h.1.store h.2 _ _ _).bind fun _ => .pure _ fun _ h => h

theorem triple_resolve (py : Python S) (tag : String) (options parent : List String) (key : String) :
    Triple (Books captured measured failed 0) (resolve py tag options parent key : Capture setup (Value S))
      (fun _ => Books captured measured failed 0) (Aborts captured measured failed tag) := by
  unfold resolve
  refine (triple_clock fun c h => h.tick).bind fun start =>
    (Triple.get (Q := fun c c' => c = c' ∧ Books captured measured failed 0 c') fun c h => ⟨rfl, h⟩).bind fun c => ?_
  split
  · refine (Triple.modify (Q := fun _ => Books captured measured failed 0) _ fun c h => h.2.hit).bind fun _ =>
      (triple_clock fun c h => h.tick).bind fun now =>
      (Triple.modify (Q := fun _ => Books captured measured failed 0) _ fun c h =>
        ⟨h.spent, h.cold, h.known, h.failed, h.attempts, h.limited, h.slept⟩).bind fun _ => .pure _ fun _ h => h
  · rename_i hnone
    refine (triple_ask py tag options parent key).mono ?_ (fun _ _ h => h) fun _ _ h => h
    rintro c' ⟨rfl, hbooks⟩
    exact ⟨hbooks, hnone⟩

/-! ## Tags -/

/-- An error that neither fails a tag nor ends the run early. -/
def Raised.plain : Raised → Prop
  | .captureFailure _ | .budgetExhausted => False
  | _ => True

omit [Score S] in
theorem item_plain {v : Value S} {e : Raised} (h : v.item key = .error e) : e.plain := by
  unfold Value.item at h
  split at h
  · split at h
    · cases h
    · cases h
      trivial
  · cases h
    trivial

theorem shares_plain {fields : List (String × Value S)} {e : Raised} (h : shares fields = .error e) : e.plain := by
  fun_induction shares fields with
  | case1 => cases h
  | case2 =>
    cases h
    trivial
  | case3 option v fields p hp hunit ih =>
    rcases Except.bind_eq_error.mp h with h | ⟨rest, hrest, h⟩
    · exact ih h
    · cases h
  | case4 =>
    cases h
    trivial

omit [Score S] in
theorem notADistribution_plain (value : Value S) : (notADistribution options value).plain := by
  unfold notADistribution
  split
  · split
    · trivial
    · split <;> trivial
  · split <;> trivial
  · trivial

theorem distribution_plain {capture : Value S} {e : Raised} (h : distribution options capture = .error e) :
    e.plain := by
  unfold distribution at h
  rcases Except.bind_eq_error.mp h with h | ⟨name, _, h⟩
  · exact item_plain h
  · split at h
    · dsimp only at h
      split at h
      · cases h
        trivial
      · rcases Except.bind_eq_error.mp h with h | ⟨probabilities, _, h⟩
        · exact item_plain h
        · split at h
          · split at h
            · cases h
              trivial
            · rcases Except.bind_eq_error.mp h with h | ⟨probabilities, _, h⟩
              · exact shares_plain h
              · split at h
                · cases h
                  trivial
                · cases h
          · cases h
            exact notADistribution_plain _
    · cases h
      trivial

theorem Aborts.of_plain {e : Raised} (h : e.plain) : Aborts captured measured failed tag e c := by
  cases e with
  | captureFailure | budgetExhausted => cases h
  | _ => trivial

theorem triple_expand (py : Python S) (tag : String) (tree : Tree) (sha : String) (candidate : Candidate S) :
    Triple (Books captured measured failed 0) (expand py tag tree (resolve py) sha candidate : Capture setup _)
      (fun _ => Books captured measured failed 0) (Aborts captured measured failed tag) := by
  unfold expand
  rcases children tree candidate.path with _ | ⟨option, _ | ⟨option', options⟩⟩
  · exact .pure _ fun _ h => h
  · exact .pure _ fun _ h => h
  · exact (triple_resolve py tag _ _ _).bind fun capture =>
      (Triple.ofExcept _ (fun _ _ h => h) fun e c h _ => Aborts.of_plain (distribution_plain h)).bind fun p =>
      .pure _ fun _ h => h

theorem triple_classifyTag (py : Python S) (tag : String) :
    Triple (Books captured measured failed 0) (classifyTag py tag : Capture setup (List (Ranked S)))
      (fun _ => Books captured measured failed 0) (Aborts captured measured failed tag) := by
  unfold classifyTag traverse
  split
  · exact .throw _ fun _ _ => trivial
  · exact (Triple.search (fun candidate => triple_expand py tag _ _ candidate) 2 _).bind fun _ => .pure _ fun _ h => h

/-! ## Runs -/

/-- The books of a run that has come through its tags, or has spent its budget. -/
def Closed (captured measured : Nat) (p : Progress) (c : Capturer setup) : Prop :=
  p.skipped = [] ∧ Books captured measured p.failed 0 c ∨
    p.skipped ≠ [] ∧ c.requests = setup.maxRequests ∧
      ∃ n < setup.maxAttempts, Books captured measured p.failed n c

theorem classifyTags_closed {tags : List String} {p p' : Progress} (hskipped : p.skipped = [])
    (hbooks : Books captured measured p.failed 0 c) (h : exec (classifyTags py tags p) c = (.ok p', c')) :
    Closed captured measured p' c' := by
  induction tags generalizing p c with
  | nil =>
    cases h
    exact .inl ⟨hskipped, hbooks⟩
  | cons tag rest ih =>
    have htag : Triple (Books captured measured p.failed 0) (classifyTag py tag : Capture setup _)
        (fun _ => Books captured measured p.failed 0) (Aborts captured measured p.failed tag) :=
      triple_classifyTag py tag
    rw [exec_classifyTags_cons] at h
    rcases hturn : exec (classifyTag py tag) c with ⟨e | ranked, c₁⟩
    · rw [hturn] at h
      cases e with
      | captureFailure kind => exact ih (p := { p with failed := p.failed ++ [tag] }) hskipped (htag.error hbooks hturn) h
      | budgetExhausted =>
        have haborts := htag.error hbooks hturn
        cases h
        exact .inr ⟨List.cons_ne_nil _ _, haborts⟩
      | _ => cases h
    · rw [hturn] at h
      exact ih (p := { p with completed := p.completed ++ [tag] }) hskipped (htag.ok hbooks hturn) h

section Run

variable {transport : Transport S} {taxonomy : Taxonomy S} {env : Option String} {maxRequests maxAttempts : Int}
  {maxWait baseBackoff : S} {ticking : Nat → S} {cache : List (String × Value S)}
  {measurements : List (String × Measurement S)} {tags : List String} {bundle : Bundle S}

theorem books_new (hknown : ∀ key, cache.lookup key = none → measurements.lookup key = none)
    (hnew : Capturer.new py transport taxonomy env maxRequests maxAttempts maxWait baseBackoff ticking cache
      measurements = .ok ⟨setup, c⟩) :
    Books cache.length (measuredAttempts measurements) [] 0 c := by
  have hfresh := Capturer.new_fresh hnew
  constructor
  · rw [hfresh.requests, hfresh.measurements, hfresh.failures]
    exact Nat.zero_add _
  · rw [hfresh.coldCalls, hfresh.cache]
    exact Nat.add_zero _
  · rw [hfresh.cache, hfresh.measurements]
    exact hknown
  · rw [hfresh.failures, List.map_nil]
  · rw [hfresh.failures]
    exact List.forall_mem_nil _
  · rw [hfresh.rateLimitResponses]
    exact Nat.zero_le _
  · rw [hfresh.slept]
    exact List.forall_mem_nil _

/-- A run accounts for every request it spent. -/
theorem capture_accounts (hknown : ∀ key, cache.lookup key = none → measurements.lookup key = none)
    (hnew : Capturer.new py transport taxonomy env maxRequests maxAttempts maxWait baseBackoff ticking cache
      measurements = .ok ⟨setup, c⟩)
    (hrun : exec (run py tags) c = (.ok bundle, c')) :
    (∃ lost < setup.maxAttempts, (bundle.tagsSkipped = [] → lost = 0) ∧
      bundle.stats.requestsSpent + measuredAttempts measurements =
        measuredAttempts bundle.measurements + failedAttempts bundle.failures + lost) ∧
    (bundle.tagsSkipped ≠ [] → bundle.stats.requestsSpent = setup.maxRequests) ∧
    bundle.failures.map Failure.tag = bundle.tagsFailed ∧
    (∀ f ∈ bundle.failures, 1 ≤ f.attempts ∧ f.attempts ≤ setup.maxAttempts) ∧
    cache.length + bundle.stats.coldRequests = bundle.captures.length ∧
    bundle.stats.rateLimitResponses ≤ bundle.stats.requestsSpent ∧
    ∀ wait ∈ c'.slept, wait ≤ setup.maxWait := by
  obtain ⟨progress, c₀, hloop, hbundle⟩ := exec_bind_eq_ok.mp hrun
  cases hbundle
  have hclosed := classifyTags_closed rfl (books_new hknown hnew) hloop
  have hbooks : ∃ n < setup.maxAttempts, (progress.skipped = [] → n = 0) ∧
      Books cache.length (measuredAttempts measurements) progress.failed n c' := by
    rcases hclosed with ⟨_, hbooks⟩ | ⟨hskipped, _, n, hn, hbooks⟩
    · exact ⟨0, setup.attempts_pos, fun _ => rfl, hbooks⟩
    · exact ⟨n, hn, fun hnil => absurd hnil hskipped, hbooks⟩
  obtain ⟨lost, hlost, hnone, hbooks⟩ := hbooks
  refine ⟨⟨lost, hlost, hnone, hbooks.spent⟩, fun hskipped => ?_, hbooks.failed, hbooks.attempts, hbooks.cold,
    hbooks.limited, hbooks.slept⟩
  rcases hclosed with ⟨hnil, _⟩ | ⟨_, hspent, _⟩
  · exact absurd hnil hskipped
  · exact hspent

end Run

/-- With two requests the run is left with one measured answer and a lost attempt. -/
theorem capture_accounts_unreliable :
    ∃ (setup : Setup Whole) (c c' : Capturer setup) (bundle : Bundle Whole),
      Capturer.new plainPython unreliable twoGenres (some "secret") 2 4 (Int.ofNat 60) (Int.ofNat 1) Int.ofNat [] [] =
        .ok ⟨setup, c⟩ ∧
      exec (run plainPython ["one", "two"]) c = (.ok bundle, c') ∧
      (bundle.stats.requestsSpent, measuredAttempts bundle.measurements, bundle.tagsSkipped) = (2, 1, ["one", "two"]) ∧
      (∃ lost < setup.maxAttempts, bundle.stats.requestsSpent =
        measuredAttempts bundle.measurements + failedAttempts bundle.failures + lost) ∧
      ∀ wait ∈ c'.slept, wait ≤ setup.maxWait := by
  obtain ⟨⟨setup, c⟩, hnew, hrun⟩ := Except.exists_eq_ok
    (x := Capturer.new plainPython unreliable twoGenres (some "secret") 2 4 (Int.ofNat 60) (Int.ofNat 1) Int.ofNat [] [])
    (f := fun p => (exec (run plainPython ["one", "two"]) p.2).1.toOption.map
      fun b => (b.stats.requestsSpent, measuredAttempts b.measurements, b.tagsSkipped))
    (b := some (2, 1, ["one", "two"])) (by decide +kernel)
  obtain ⟨bundle, hbundle, hbooks⟩ := Except.exists_eq_ok hrun
  have hexec : exec (run plainPython ["one", "two"]) c =
      (.ok bundle, (exec (run plainPython ["one", "two"]) c).2) := by
    rw [← hbundle]
  obtain ⟨⟨lost, hlost, _, hspent⟩, _, _, _, _, _, hslept⟩ := capture_accounts (fun _ _ => rfl) hnew hexec
  exact ⟨setup, c, _, bundle, hnew, hexec, hbooks, ⟨lost, hlost, hspent⟩, hslept⟩

end Brainzgraphinator.TagMapping
