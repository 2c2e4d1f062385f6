-- SUMMARY: The capture run: a bounded, cached, rate-limit-aware requester handed to the tag traversal.
import Mathlib.Algebra.Ring.Int.Defs
import Brainzgraphinator.Base.OrderedDict
import Brainzgraphinator.TagMapping.Traverse

/-!
# The capturer

`Capturer.resolve` answers a question of the traversal from the cache, or asks the
transport and caches the answer. `run` traverses every distinct tag with it and
reports what became of each.

What a transport does may depend on all requests it got so far. A capturer carries
the proofs that it counts its requests and stays within its budget.
-/

namespace Brainzgraphinator.TagMapping

open RecordReplay

variable {S : Type} [Score S]

/-! ## The transport -/

structure Request where
  model : String
  tag : String
  options : List String
  parent : List String
  instructions : String

inductive Reply (S : Type) where
  | rateLimited (retryAfter : Value S)
  | transient (error : String)
  | error (error : String)
  | response (body : Value S)

structure Transport (S : Type) where
  /-- The model the account resolves for a name, or the text of an error. -/
  verifyModel : String → Except String (Value S)
  /-- The reply to the first of the requests; the others came before it, the last one first. -/
  classify : List Request → Reply S

/-! ## The state -/

structure Usage where
  inputTokens : Nat
  outputTokens : Nat

structure Measurement (S : Type) where
  latencySeconds : S
  usage : Option Usage
  attempts : Nat

structure Failure where
  tag : String
  parent : List String
  key : String
  kind : FailureKind
  message : String
  attempts : Nat

/-- What a capturer is constructed with and never changes. -/
structure Setup (S : Type) where
  transport : Transport S
  taxonomy : Taxonomy S
  key : String
  maxRequests : Nat
  maxAttempts : Nat
  maxWait : S
  baseBackoff : S
  /-- The readings of the clock. -/
  clock : Nat → S
  attempts_pos : 0 < maxAttempts

structure Capturer (setup : Setup S) where
  cache : List (String × Value S)
  measurements : List (String × Measurement S)
  failures : List Failure
  /-- The requests handed to the transport, the last one first. -/
  calls : List Request
  requests : Nat
  rateLimitResponses : Nat
  coldLatency : S
  replayLatency : S
  coldCalls : Nat
  replayHits : Nat
  tokensAvoidedIn : Nat
  tokensAvoidedOut : Nat
  /-- How often the clock was read. -/
  ticks : Nat
  /-- The waits so far. -/
  slept : List S
  counted : calls.length = requests
  within : requests ≤ setup.maxRequests

def keyEnv : String := "TYPESAFE_API_KEY"

/-- `str.isspace`. -/
def isSpace (c : Char) : Bool :=
  c.toNat ∈ [0x20, 0x85, 0xa0, 0x1680, 0x2028, 0x2029, 0x202f, 0x205f, 0x3000] ||
    0x09 ≤ c.toNat && c.toNat ≤ 0x0d || 0x1c ≤ c.toNat && c.toNat ≤ 0x1f ||
    0x2000 ≤ c.toNat && c.toNat ≤ 0x200a

def strip (s : String) : String :=
  .ofList ((s.toList.dropWhile isSpace).reverse.dropWhile isSpace).reverse

/-- `_redact`. -/
def redact (key message : String) : String := message.replace key "[redacted]"

/-- `model_ok`. -/
def Value.modelOk : Value S → Bool
  | .str name => TagMapping.modelOk name
  | _ => false

/-- Whether a value is true in a condition. -/
def Value.truthy : Value S → Bool
  | .null => false
  | .bool b => b
  | .int i => i ≠ 0
  | .float x => x ≠ ((0 : Int) : S)
  | .str s => s ≠ ""
  | .list elems => !elems.isEmpty
  | .dict fields => !fields.isEmpty

/-- The constructor, with the value of `TYPESAFE_API_KEY` in the environment. -/
def Capturer.new (py : Python S) (transport : Transport S) (taxonomy : Taxonomy S) (env : Option String)
    (maxRequests maxAttempts : Int) (maxWait baseBackoff : S) (clock : Nat → S)
    (cache : List (String × Value S)) (measurements : List (String × Measurement S)) :
    Except Raised ((setup : Setup S) × Capturer setup) :=
  if maxRequests < 1 then .error (.valueError "positive request and attempt bounds are required")
  else if hattempts : maxAttempts < 1 then
    .error (.valueError "positive request and attempt bounds are required")
  else
    let key := strip (env.getD "")
    if key = "" then .error (.captureRefused (keyEnv ++ " is not set; refusing to run"))
    else if taxonomy.genres = [] ∨ taxonomy.provenance.truthy = false then
      .error (.valueError "taxonomy with genres and provenance is required")
    else match transport.verifyModel model with
      | .error error => .error (.captureRefused ("cannot verify " ++ model ++ ": " ++ redact key error))
      | .ok resolved =>
        if resolved.modelOk then
          .ok ⟨{ transport, taxonomy, key, maxWait, baseBackoff, clock
                 maxRequests := maxRequests.toNat
                 maxAttempts := maxAttempts.toNat
                 attempts_pos := by omega },
            { cache, measurements
              failures := [], calls := [], requests := 0, rateLimitResponses := 0
              coldLatency := ((0 : Int) : S), replayLatency := ((0 : Int) : S)
              coldCalls := 0, replayHits := 0, tokensAvoidedIn := 0, tokensAvoidedOut := 0
              ticks := 0, slept := []
              counted := rfl
              within := Nat.zero_le _ }⟩
        else .error (.captureRefused
          (model ++ " resolved to " ++ py.repr resolved ++ "; never substituting an alias or newer model"))

/-! ## Requests -/

abbrev Capture (setup : Setup S) := Session (Capturer setup) Raised

variable (py : Python S) {setup : Setup S}

def clock : Capture setup S := do
  let c ← get
  set { c with ticks := c.ticks + 1 }
  return setup.clock c.ticks

/-- `_fail`. -/
def fail {α : Type} (request : Request) (key : String) (kind : FailureKind) (message : String) (attempts : Nat) :
    Capture setup α := do
  modify fun c => { c with
    failures := c.failures ++ [⟨request.tag, request.parent, key, kind, redact setup.key message, attempts⟩] }
  throw (.captureFailure kind)

/-- Every attempt spends budget. -/
def spend (request : Request) : Capture setup PUnit := do
  let c ← get
  if h : c.requests < setup.maxRequests then
    set { c with
      calls := request :: c.calls
      requests := c.requests + 1
      counted := by rw [List.length_cons, c.counted]
      within := h }
  else throw .budgetExhausted

def sleep (seconds : S) : Capture setup PUnit :=
  modify fun c => { c with slept := c.slept ++ [seconds] }

def backoff (setup : Setup S) (attempts : Nat) : S :=
  min (setup.baseBackoff * ((2 ^ (attempts - 1) : Int) : S)) setup.maxWait

/-- The provider's own signal if it is a number of seconds, and the backoff otherwise. -/
def retryWait (setup : Setup S) (attempts : Nat) (retryAfter : Value S) : Value S × S :=
  let own := (Value.float (backoff setup attempts), backoff setup attempts)
  match retryAfter with
  | .int i => if ((i : Int) : S) < ((0 : Int) : S) then own else (.int i, ((i : Int) : S))
  | .float x => if x < ((0 : Int) : S) then own else (.float x, x)
  | _ => own

/-- Ask until there is a response, with `left` attempts to go after this one. -/
def exchange (request : Request) (key : String) (left : Nat) : Capture setup (Value S × S × Nat) := do
  spend request
  let attempts := setup.maxAttempts - left
  let began ← clock
  match setup.transport.classify (← get).calls with
  | .rateLimited retryAfter =>
    modify fun c => { c with rateLimitResponses := c.rateLimitResponses + 1 }
    let wait := retryWait setup attempts retryAfter
    let message := "retry-after " ++ py.repr wait.1 ++ "s exceeds bounds"
    if setup.maxWait < wait.2 then fail request key .rateLimited message attempts
    else match left with
      | 0 => fail request key .rateLimited message attempts
      | left + 1 => do
        sleep wait.2
        exchange request key left
  | .transient error =>
    match left with
    | 0 => fail request key .transient error attempts
    | left + 1 => do
      sleep (backoff setup attempts)
      exchange request key left
  | .error error => fail request key .error error attempts
  | .response body =>
    let ended ← clock
    return (body, ended - began, attempts)

/-! ## Resolving -/

/-- The probability a value stands for; a bool stands for none here. -/
def probability : Value S → Option S
  | .bool _ => none
  | v => v.number

def validDistribution (options : List String) : Value S → Bool
  | .dict fields =>
    sameLabels (fields.map Prod.fst) options &&
      fields.all (fun field => (probability field.2).any inUnitInterval) &&
      Score.isClose (Score.sum (fields.filterMap fun field => probability field.2)) ((1 : Int) : S)
  | _ => false

def validUsage (usage : Value S) : Option Usage :=
  match usage.get "input_tokens", usage.get "output_tokens" with
  | .int input, .int output => if input < 0 ∨ output < 0 then none else some ⟨input.toNat, output.toNat⟩
  | _, _ => none

/-- The cache answers. -/
def Capturer.hit (c : Capturer setup) (key : String) : Capturer setup :=
  let usage := ((c.measurements.lookup key).bind Measurement.usage).getD ⟨0, 0⟩
  { c with
    replayHits := c.replayHits + 1
    tokensAvoidedIn := c.tokensAvoidedIn + usage.inputTokens
    tokensAvoidedOut := c.tokensAvoidedOut + usage.outputTokens }

/-- The answer is kept. -/
def Capturer.store (c : Capturer setup) (key : String) (capture : Value S) (measurement : Measurement S) :
    Capturer setup :=
  { c with
    coldCalls := c.coldCalls + 1
    coldLatency := c.coldLatency + measurement.latencySeconds
    cache := OrderedDict.set key capture c.cache
    measurements := OrderedDict.set key measurement c.measurements }

/-- The transport answers, or the request is recorded as a failure. -/
def ask (tag : String) (options parent : List String) (key : String) : Capture setup (Value S) := do
  let request : Request := ⟨model, tag, options, parent, instructions⟩
  let (response, latency, attempts) ← exchange py request key (setup.maxAttempts - 1)
  let name := response.get "model"
  if !name.modelOk then
    modify fun c => { c with failures :=
      c.failures ++ [⟨tag, parent, key, .modelMismatch, "returned " ++ py.repr name, attempts⟩] }
    throw (.captureRefused
      ("provider returned " ++ py.repr name ++ ", not " ++ model ++ "; aborting rather than substituting"))
  else
    let probabilities := response.get "probabilities"
    if !validDistribution options probabilities then
      fail request key .invalidDistribution "incomplete or invalid child distribution" attempts
    else
      let capture := Value.dict [("model", name), ("probabilities", probabilities)]
      modify fun c => c.store key capture ⟨latency, validUsage (response.get "usage"), attempts⟩
      return capture

def resolve (tag : String) (options parent : List String) (key : String) : Capture setup (Value S) := do
  let start ← clock
  match (← get).cache.lookup key with
  | some capture =>
    modify fun c => c.hit key
    let now ← clock
    modify fun c => { c with replayLatency := c.replayLatency + (now - start) }
    return capture
  | none => ask py tag options parent key

/-! ## The run -/

structure Progress where
  completed : List String := []
  failed : List String := []
  skipped : List String := []

/-- The traversal of one tag in the capture run. -/
def classifyTag (tag : String) : Capture setup (List (Ranked S)) :=
  traverse py tag setup.taxonomy.genres (resolve py) (taxonomySha py setup.taxonomy) 3

def classifyTags : List String → Progress → Capture setup Progress
  | [], progress => pure progress
  | tag :: rest, progress => do
    match ← outcome (classifyTag py tag) with
    | .ok _ => classifyTags rest { progress with completed := progress.completed ++ [tag] }
    | .error (.captureFailure _) => classifyTags rest { progress with failed := progress.failed ++ [tag] }
    | .error .budgetExhausted => return { progress with skipped := tag :: rest }
    | .error error => throw error

structure RunStats (S : Type) where
  requestsSpent : Nat
  rateLimitResponses : Nat
  coldRequests : Nat
  coldLatencySeconds : S
  replayHits : Nat
  replayLatencySeconds : S
  inputTokensAvoided : Nat
  outputTokensAvoided : Nat

def Capturer.stats (c : Capturer setup) : RunStats S :=
  ⟨c.requests, c.rateLimitResponses, c.coldCalls, c.coldLatency, c.replayHits, c.replayLatency,
    c.tokensAvoidedIn, c.tokensAvoidedOut⟩

/-- What `run` returns and the replay consumes. -/
structure Bundle (S : Type) where
  taxonomy : Taxonomy S
  captures : List (String × Value S)
  measurements : List (String × Measurement S)
  failures : List Failure
  tagsCompleted : List String
  tagsFailed : List String
  tagsSkipped : List String
  stats : RunStats S
  modelRequired : String

def run (tags : List String) : Capture setup (Bundle S) := do
  let progress ← classifyTags py tags.eraseDups {}
  let c ← get
  return {
    taxonomy := setup.taxonomy
    captures := c.cache
    measurements := c.measurements
    failures := c.failures
    tagsCompleted := progress.completed
    tagsFailed := progress.failed
    tagsSkipped := progress.skipped
    stats := c.stats
    modelRequired := model }

/-- A tag traversed on the captures of a bundle alone. -/
def replay (bundle : Bundle S) (tag : String) (width : Nat) : Except Raised (List (Ranked S)) :=
  traverse py tag bundle.taxonomy.genres (lookUp fun key => bundle.captures.lookup key)
    (taxonomySha py bundle.taxonomy) width

/-! ## A new capturer -/

/-- What the constructor was given and has not used. -/
structure Capturer.Fresh (transport : Transport S) (taxonomy : Taxonomy S) (cache : List (String × Value S))
    (measurements : List (String × Measurement S)) (c : Capturer setup) : Prop where
  transport : setup.transport = transport
  taxonomy : setup.taxonomy = taxonomy
  cache : c.cache = cache
  measurements : c.measurements = measurements
  failures : c.failures = []
  requests : c.requests = 0
  rateLimitResponses : c.rateLimitResponses = 0
  coldCalls : c.coldCalls = 0
  slept : c.slept = []

variable {py} in
theorem Capturer.new_fresh {transport : Transport S} {taxonomy : Taxonomy S} {env : Option String}
    {maxRequests maxAttempts : Int} {maxWait baseBackoff : S} {ticking : Nat → S} {cache : List (String × Value S)}
    {measurements : List (String × Measurement S)} {c : Capturer setup}
    (hnew : Capturer.new py transport taxonomy env maxRequests maxAttempts maxWait baseBackoff ticking cache
      measurements = .ok ⟨setup, c⟩) :
    c.Fresh transport taxonomy cache measurements := by
  unfold Capturer.new at hnew
  dsimp only at hnew
  split at hnew
  · cases hnew
  · split at hnew
    · cases hnew
    · split at hnew
      · cases hnew
      · split at hnew
        · cases hnew
        · split at hnew
          · cases hnew
          · split at hnew
            · cases hnew
              exact ⟨rfl, rfl, rfl, rfl, rfl, rfl, rfl, rfl, rfl⟩
            · cases hnew

end Brainzgraphinator.TagMapping
