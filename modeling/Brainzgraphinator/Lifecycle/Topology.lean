-- SUMMARY: The queues the service declares: no stream queue is ever without its dead-letter path, whoever declares.
import Mathlib.Data.String.Basic
import Mathlib.Logic.Function.Basic
import Brainzgraphinator.Base.Runs

/-!
# The topology

`declare_stream_queue` declares a source exchange, a dead-letter exchange with its queue, and
last the stream queue that refers to it. Several consumers declare theirs on one broker, one
call after another, and any of them may be lost between two calls.

What the broker does with a call is given by `LawfulBroker`: it accepts a declaration that
repeats what is there, and refuses one that differs.
-/

namespace Brainzgraphinator.Topology

open Runs

/-! ## Names -/

def entityTypes : List String := ["artists", "labels", "release-groups", "releases"]
def consumers : List String := ["brainzgraphinator", "brainztableinator"]

def exchangeName (exchangePrefix entity : String) : Except String String :=
  if entity ∉ entityTypes then .error ("Unknown MusicBrainz entity: " ++ entity)
  else .ok (exchangePrefix ++ ("-" ++ entity))

def queueName (exchangePrefix consumer entity : String) : Except String String :=
  if consumer ∉ consumers then .error ("Unknown MusicBrainz consumer: " ++ consumer)
  else if entity ∉ entityTypes then .error ("Unknown MusicBrainz entity: " ++ entity)
  else .ok (exchangePrefix ++ ("-" ++ consumer ++ "-" ++ entity))

def deadLetterExchangeName (exchangePrefix consumer entity : String) : Except String String := do
  return (← queueName exchangePrefix consumer entity) ++ ".dlx"

def deadLetterQueueName (exchangePrefix consumer entity : String) : Except String String := do
  return (← queueName exchangePrefix consumer entity) ++ ".dlq"

/-! ## Declarations -/

structure ExchangeSpec where
  type : String
  durable : Bool
  autoDelete : Bool
  deriving DecidableEq

structure QueueSpec where
  durable : Bool
  autoDelete : Bool
  queueType : String
  deadLetterExchange : Option String := none
  deliveryLimit : Option Nat := none
  deriving DecidableEq

inductive Call where
  | declareExchange (name : String) (spec : ExchangeSpec)
  | declareQueue (name : String) (spec : QueueSpec)
  | bind (queue exchange : String)
  /-- The coroutine raises. -/
  | raise (message : String)

def fanout : ExchangeSpec := ⟨"fanout", true, false⟩

def classic : QueueSpec where
  durable := true
  autoDelete := false
  queueType := "classic"

def quorum (dlxName : String) : QueueSpec where
  durable := true
  autoDelete := false
  queueType := "quorum"
  deadLetterExchange := some dlxName
  deliveryLimit := some 20

/-- What the coroutine awaits, one call after another. -/
def declareStreamQueue (exchangePrefix consumerName dataType : String) : List Call :=
  match exchangeName exchangePrefix dataType with
  | .error message => [.raise message]
  | .ok exchange => .declareExchange exchange fanout ::
    match deadLetterExchangeName exchangePrefix consumerName dataType with
    | .error message => [.raise message]
    | .ok dlxName => .declareExchange dlxName fanout ::
      match deadLetterQueueName exchangePrefix consumerName dataType with
      | .error message => [.raise message]
      | .ok deadLetterQueue => .declareQueue deadLetterQueue classic :: .bind deadLetterQueue dlxName ::
        match queueName exchangePrefix consumerName dataType with
        | .error message => [.raise message]
        | .ok queue => [.declareQueue queue (quorum dlxName), .bind queue exchange]

/-! ## The broker -/

class Broker (β : Type) where
  exchange : β → String → Option ExchangeSpec
  queue : β → String → Option QueueSpec
  /-- The exchange passes its messages to the queue. -/
  bound : β → (exchange queue : String) → Prop
  /-- The broker after a call, if it does not refuse it. -/
  perform : β → Call → Option β

open Broker

/-- What the service relies on. -/
class LawfulBroker (β : Type) [Broker β] : Prop where
  declareExchange : ∀ {b b' : β} {name spec}, perform b (.declareExchange name spec) = some b' →
    (exchange b name = none ∨ exchange b name = some spec) ∧
      exchange b' = Function.update (exchange b) name (some spec) ∧ queue b' = queue b ∧ bound b' = bound b
  declareQueue : ∀ {b b' : β} {name spec}, perform b (.declareQueue name spec) = some b' →
    (queue b name = none ∨ queue b name = some spec) ∧
      queue b' = Function.update (queue b) name (some spec) ∧ exchange b' = exchange b ∧ bound b' = bound b
  bind : ∀ {b b' : β} {q x}, perform b (.bind q x) = some b' →
    exchange b' = exchange b ∧ queue b' = queue b ∧ ∀ x' q', bound b' x' q' ↔ bound b x' q' ∨ x' = x ∧ q' = q
  raise : ∀ {b : β} {message}, perform b (.raise message) = none

/-! ## Runs -/

/-- A consumer that declares the queue of an entity type. -/
structure Channel where
  consumer : String
  entity : String
  /-- The calls to go. -/
  calls : List Call
  lost : Bool := false

structure System (β : Type) where
  broker : β
  channels : List Channel := []

inductive Event where
  | start (consumer entity : String)
  /-- A channel makes its next call; a refused one closes it. -/
  | call (i : Nat)
  | lose (i : Nat)
  /-- Some other client of the broker makes a call. -/
  | elsewhere (call : Call)

def step {β : Type} [Broker β] (exchangePrefix : String) (s : System β) : Event → Option (System β)
  | .start consumer entity => some { s with
      channels := s.channels ++ [⟨consumer, entity, declareStreamQueue exchangePrefix consumer entity, false⟩] }
  | .call i => match s.channels[i]? with
    | some ⟨consumer, entity, call :: rest, false⟩ => match perform s.broker call with
      | some broker => some ⟨broker, s.channels.set i ⟨consumer, entity, rest, false⟩⟩
      | none => some { s with channels := s.channels.set i ⟨consumer, entity, call :: rest, true⟩ }
    | _ => none
  | .lose i => s.channels[i]?.map fun channel => { s with channels := s.channels.set i { channel with lost := true } }
  | .elsewhere call => some { s with broker := (perform s.broker call).getD s.broker }

/-! ## The names of the contract -/

def Known (consumer entity : String) : Prop := consumer ∈ consumers ∧ entity ∈ entityTypes

section Names

variable (p : String) {c e c' e' : String}

def sourceExchange (p e : String) : String := p ++ ("-" ++ e)
def streamQueue (p c e : String) : String := p ++ ("-" ++ c ++ "-" ++ e)
def dlx (p c e : String) : String := streamQueue p c e ++ ".dlx"
def dlq (p c e : String) : String := streamQueue p c e ++ ".dlq"

theorem streamQueue_inj (h : Known c e) (h' : Known c' e') (heq : streamQueue p c e = streamQueue p c' e') :
    c = c' ∧ e = e' := by
  have hdistinct : ∀ c ∈ consumers, ∀ e ∈ entityTypes, ∀ c' ∈ consumers, ∀ e' ∈ entityTypes,
      "-" ++ c ++ "-" ++ e = "-" ++ c' ++ "-" ++ e' → c = c' ∧ e = e' := by decide
  exact hdistinct c h.1 e h.2 c' h'.1 e' h'.2 ((String.append_right_inj p).mp heq)

theorem dlx_inj (h : Known c e) (h' : Known c' e') (heq : dlx p c e = dlx p c' e') : c = c' ∧ e = e' :=
  streamQueue_inj p h h' ((String.append_left_inj _).mp heq)

theorem streamQueue_ne_dlq (h : Known c e) (h' : Known c' e') : streamQueue p c e ≠ dlq p c' e' := by
  have hdistinct : ∀ c ∈ consumers, ∀ e ∈ entityTypes, ∀ c' ∈ consumers, ∀ e' ∈ entityTypes,
      "-" ++ c ++ "-" ++ e ≠ "-" ++ c' ++ "-" ++ e' ++ ".dlq" := by decide
  intro heq
  rw [dlq, streamQueue, streamQueue, @String.append_assoc p, String.append_right_inj] at heq
  exact hdistinct c h.1 e h.2 c' h'.1 e' h'.2 heq

theorem dlx_ne_sourceExchange (h : Known c e) (he' : e' ∈ entityTypes) : dlx p c e ≠ sourceExchange p e' := by
  have hdistinct : ∀ c ∈ consumers, ∀ e ∈ entityTypes, ∀ e' ∈ entityTypes,
      "-" ++ c ++ "-" ++ e ++ ".dlx" ≠ "-" ++ e' := by decide
  intro heq
  rw [dlx, streamQueue, sourceExchange, @String.append_assoc p, String.append_right_inj] at heq
  exact hdistinct c h.1 e h.2 e' he' heq

/-- The calls for a consumer and an entity type of the contract. -/
theorem declareStreamQueue_known (h : Known c e) : declareStreamQueue p c e =
    [.declareExchange (sourceExchange p e) fanout, .declareExchange (dlx p c e) fanout,
      .declareQueue (dlq p c e) classic, .bind (dlq p c e) (dlx p c e),
      .declareQueue (streamQueue p c e) (quorum (dlx p c e)), .bind (streamQueue p c e) (sourceExchange p e)] := by
  have hqueue : queueName p c e = .ok (streamQueue p c e) := by
    rw [queueName, if_neg (not_not_intro h.1), if_neg (not_not_intro h.2), streamQueue]
  have hexchange : exchangeName p e = .ok (sourceExchange p e) := by
    rw [exchangeName, if_neg (not_not_intro h.2), sourceExchange]
  have hdlx : deadLetterExchangeName p c e = .ok (dlx p c e) := by
    rw [deadLetterExchangeName, hqueue, dlx]
    rfl
  have hdlq : deadLetterQueueName p c e = .ok (dlq p c e) := by
    rw [deadLetterQueueName, hqueue, dlq]
    rfl
  simp only [declareStreamQueue, hexchange, hdlx, hdlq, hqueue]

/-- Others get no further than a source exchange. -/
theorem declareStreamQueue_unknown (h : ¬Known c e) :
    ∀ call ∈ declareStreamQueue p c e,
      (∃ name spec, call = .declareExchange name spec) ∨ ∃ message, call = .raise message := by
  by_cases he : e ∈ entityTypes
  · have hc : c ∉ consumers := fun hc => h ⟨hc, he⟩
    have hqueue : queueName p c e = .error ("Unknown MusicBrainz consumer: " ++ c) := if_pos hc
    have hdlx : deadLetterExchangeName p c e = .error ("Unknown MusicBrainz consumer: " ++ c) := by
      rw [deadLetterExchangeName, hqueue]
      rfl
    have hexchange : exchangeName p e = .ok (sourceExchange p e) := by
      rw [exchangeName, if_neg (not_not_intro he), sourceExchange]
    simp [declareStreamQueue, hexchange, hdlx]
  · have hexchange : exchangeName p e = .error ("Unknown MusicBrainz entity: " ++ e) := if_pos he
    simp [declareStreamQueue, hexchange]

end Names

/-! ## What a call does -/

section Calls

variable {β : Type} [Broker β] [LawfulBroker β] {p : String} {b b' : β} {call : Call} {c e : String}

/-- What was declared and bound stays so. -/
structure Extends (b b' : β) : Prop where
  exchange : ∀ {name spec}, exchange b name = some spec → exchange b' name = some spec
  queue : ∀ {name spec}, queue b name = some spec → queue b' name = some spec
  bound : ∀ {x q}, bound b x q → bound b' x q

omit [Broker β] [LawfulBroker β] in
theorem update_of_accepted {spec : Type} {f : String → Option spec} {name name' : String} {s s' : spec}
    (h : f name = none ∨ f name = some s) (hthere : f name' = some s') :
    Function.update f name (some s) name' = some s' := by
  by_cases hname : name' = name
  · rw [hname] at hthere ⊢
    rcases h with hnone | hsome
    · rw [hnone] at hthere
      cases hthere
    · rw [Function.update_self, ← hsome, hthere]
  · rw [Function.update_of_ne hname, hthere]

theorem extends_perform (h : perform b call = some b') : Extends b b' := by
  cases call with
  | declareExchange name spec =>
    obtain ⟨haccepted, hexchange, hqueue, hbound⟩ := LawfulBroker.declareExchange h
    refine ⟨fun hthere => ?_, fun hthere => by rw [hqueue, hthere], fun hthere => by rwa [hbound]⟩
    rw [hexchange]
    exact update_of_accepted haccepted hthere
  | declareQueue name spec =>
    obtain ⟨haccepted, hqueue, hexchange, hbound⟩ := LawfulBroker.declareQueue h
    refine ⟨fun hthere => by rw [hexchange, hthere], fun hthere => ?_, fun hthere => by rwa [hbound]⟩
    rw [hqueue]
    exact update_of_accepted haccepted hthere
  | bind q x =>
    obtain ⟨hexchange, hqueue, hbound⟩ := LawfulBroker.bind h
    exact ⟨fun hthere => by rw [hexchange, hthere], fun hthere => by rw [hqueue, hthere],
      fun hthere => (hbound _ _).mpr (.inl hthere)⟩
  | raise message =>
    rw [LawfulBroker.raise] at h
    cases h

/-- The call has been made, and what it did is there. -/
def Done (b : β) : Call → Prop
  | .declareExchange name spec => exchange b name = some spec
  | .declareQueue name spec => queue b name = some spec
  | .bind q x => bound b x q
  | .raise _ => False

omit [LawfulBroker β] in
theorem Done.mono (hextends : Extends b b') (h : Done b call) : Done b' call := by
  cases call with
  | declareExchange name spec => exact hextends.exchange h
  | declareQueue name spec => exact hextends.queue h
  | bind q x => exact hextends.bound h
  | raise message => exact h

theorem done_perform (h : perform b call = some b') : Done b' call := by
  cases call with
  | declareExchange name spec =>
    obtain ⟨_, hexchange, _, _⟩ := LawfulBroker.declareExchange h
    rw [Done, hexchange, Function.update_self]
  | declareQueue name spec =>
    obtain ⟨_, hqueue, _, _⟩ := LawfulBroker.declareQueue h
    rw [Done, hqueue, Function.update_self]
  | bind q x => exact ((LawfulBroker.bind h).2.2 x q).mpr (.inr ⟨rfl, rfl⟩)
  | raise message =>
    rw [LawfulBroker.raise] at h
    cases h

/-! ## Sound brokers -/

/-- Where the queue's dead letters go. -/
structure Path (p c e : String) (b : β) : Prop where
  exchange : exchange b (dlx p c e) = some fanout
  queue : queue b (dlq p c e) = some classic
  bound : bound b (dlx p c e) (dlq p c e)

omit [LawfulBroker β] in
theorem Path.mono (hextends : Extends b b') (h : Path p c e b) : Path p c e b' :=
  ⟨hextends.exchange h.exchange, hextends.queue h.queue, hextends.bound h.bound⟩

/-- A stream queue has its dead-letter path, is fed by its own source alone, and its dead letters
go to its own dead-letter queue alone. -/
structure Sound (p : String) (b : β) : Prop where
  path : ∀ {c e spec}, Known c e → queue b (streamQueue p c e) = some spec →
    spec = quorum (dlx p c e) ∧ Path p c e b
  fed : ∀ {c e x}, Known c e → bound b x (streamQueue p c e) → x = sourceExchange p e
  caught : ∀ {c e q}, Known c e → bound b (dlx p c e) q → q = dlq p c e

omit [LawfulBroker β] in
/-- A stream queue of a sound broker keeps its path. -/
theorem Sound.path_mono (hsound : Sound p b) (hextends : Extends b b') {spec : QueueSpec} (hknown : Known c e)
    (hthere : queue b (streamQueue p c e) = some spec) : spec = quorum (dlx p c e) ∧ Path p c e b' := by
  obtain ⟨hspec, hpath⟩ := hsound.path hknown hthere
  exact ⟨hspec, hpath.mono hextends⟩

/-- The call does no harm to a sound broker. -/
def Fits (p : String) (b : β) : Call → Prop
  | .declareExchange _ _ | .raise _ => True
  | .declareQueue name spec => ∀ c e, Known c e → name = streamQueue p c e →
      spec = quorum (dlx p c e) ∧ Path p c e b
  | .bind q x => ∀ c e, Known c e → (q = streamQueue p c e → x = sourceExchange p e) ∧ (x = dlx p c e → q = dlq p c e)

theorem Sound.perform (hsound : Sound p b) (hfits : Fits p b call) (h : perform b call = some b') : Sound p b' := by
  have hextends := extends_perform h
  cases call with
  | declareExchange name spec =>
    obtain ⟨_, _, hqueue, hbound⟩ := LawfulBroker.declareExchange h
    refine ⟨fun hknown hthere => ?_, fun hknown hto => ?_, fun hknown hto => ?_⟩
    · exact hsound.path_mono hextends hknown (by rwa [hqueue] at hthere)
    · exact hsound.fed hknown (by rwa [hbound] at hto)
    · exact hsound.caught hknown (by rwa [hbound] at hto)
  | declareQueue name spec =>
    obtain ⟨_, hqueue, _, hbound⟩ := LawfulBroker.declareQueue h
    refine ⟨fun {c e spec'} hknown hthere => ?_, fun hknown hto => ?_, fun hknown hto => ?_⟩
    · -- The queue is the one declared now, or it was there before.
      by_cases hname : name = streamQueue p c e
      · rw [hqueue, hname, Function.update_self] at hthere
        cases hthere
        obtain ⟨hspec, hpath⟩ := hfits c e hknown hname
        exact ⟨hspec, hpath.mono hextends⟩
      · rw [hqueue, Function.update_of_ne (Ne.symm hname)] at hthere
        exact hsound.path_mono hextends hknown hthere
    · exact hsound.fed hknown (by rwa [hbound] at hto)
    · exact hsound.caught hknown (by rwa [hbound] at hto)
  | bind q x =>
    -- Only the new binding can be a wrong one.
    obtain ⟨_, hqueue, hbound⟩ := LawfulBroker.bind h
    refine ⟨fun hknown hthere => ?_, fun hknown hto => ?_, fun hknown hto => ?_⟩
    · exact hsound.path_mono hextends hknown (by rwa [hqueue] at hthere)
    · rcases (hbound _ _).mp hto with hold | ⟨rfl, hq⟩
      · exact hsound.fed hknown hold
      · exact (hfits _ _ hknown).1 hq.symm
    · rcases (hbound _ _).mp hto with hold | ⟨hx, rfl⟩
      · exact hsound.caught hknown hold
      · exact (hfits _ _ hknown).2 hx.symm
  | raise message =>
    rw [LawfulBroker.raise] at h
    cases h

omit [LawfulBroker β] in
/-- The next call of a channel does no harm, if what it did before is there. -/
theorem fits_of_declares {done rest : List Call} (hcalls : done ++ call :: rest = declareStreamQueue p c e)
    (hdone : ∀ call ∈ done, Done b call) : Fits p b call := by
  by_cases hknown : Known c e
  · rw [declareStreamQueue_known p hknown] at hcalls
    -- The call is one of the six, and `done` are those before it.
    rcases done with _ | ⟨d₁, _ | ⟨d₂, _ | ⟨d₃, _ | ⟨d₄, _ | ⟨d₅, _ | ⟨d₆, done⟩⟩⟩⟩⟩⟩
    · cases hcalls
      trivial
    · cases hcalls
      trivial
    · -- The dead-letter queue is no stream queue.
      cases hcalls
      intro c' e' hknown' heq
      exact absurd heq.symm (streamQueue_ne_dlq p hknown' hknown)
    · cases hcalls
      intro c' e' hknown'
      refine ⟨fun heq => absurd heq.symm (streamQueue_ne_dlq p hknown' hknown), fun heq => ?_⟩
      obtain ⟨rfl, rfl⟩ := dlx_inj p hknown hknown' heq
      rfl
    · -- Its dead-letter path has been declared before it.
      cases hcalls
      intro c' e' hknown' heq
      obtain ⟨rfl, rfl⟩ := streamQueue_inj p hknown hknown' heq
      simp only [List.forall_mem_cons, Done] at hdone
      exact ⟨rfl, hdone.2.1, hdone.2.2.1, hdone.2.2.2.1⟩
    · cases hcalls
      intro c' e' hknown'
      refine ⟨fun heq => ?_, fun heq => absurd heq.symm (dlx_ne_sourceExchange p hknown' hknown.2)⟩
      obtain ⟨rfl, rfl⟩ := streamQueue_inj p hknown hknown' heq
      rfl
    · have hlength := congrArg List.length hcalls
      simp only [List.cons_append, List.length_cons, List.length_append, List.length_nil] at hlength
      omega
  · have hmem : call ∈ declareStreamQueue p c e := hcalls ▸ List.mem_append_right _ List.mem_cons_self
    rcases declareStreamQueue_unknown p hknown call hmem with ⟨name, spec, rfl⟩ | ⟨message, rfl⟩
    · trivial
    · trivial

end Calls

/-! ## Channels -/

section Channels

variable {β : Type} [Broker β] {p : String} {b : β} {s s' : System β}

/-- What the channel has done of its calls is there. -/
def Channel.Advanced (p : String) (b : β) (channel : Channel) : Prop :=
  ∃ done, done ++ channel.calls = declareStreamQueue p channel.consumer channel.entity ∧ ∀ call ∈ done, Done b call

theorem Channel.Advanced.mono {b' : β} {channel : Channel} (hextends : Extends b b') (h : channel.Advanced p b) :
    channel.Advanced p b' := by
  obtain ⟨done, hcalls, hdone⟩ := h
  exact ⟨done, hcalls, fun call hcall => (hdone call hcall).mono hextends⟩

/-- A client that leaves the stream queues and the dead-letter exchanges alone. -/
def Foreign (p : String) : Call → Prop
  | .declareExchange _ _ | .raise _ => True
  | .declareQueue name _ => ∀ c ∈ consumers, ∀ e ∈ entityTypes, name ≠ streamQueue p c e
  | .bind q x => ∀ c ∈ consumers, ∀ e ∈ entityTypes, q ≠ streamQueue p c e ∧ x ≠ dlx p c e

/-- The other clients are such clients. -/
def Apart (p : String) (_ : System β) : Event → Prop
  | .elsewhere call => Foreign p call
  | .start _ _ | .call _ | .lose _ => True

theorem Foreign.fits {call : Call} (h : Foreign p call) : Fits p b call := by
  cases call with
  | declareExchange name spec => trivial
  | raise message => trivial
  | declareQueue name spec =>
    intro c e hknown heq
    exact absurd heq (h c hknown.1 e hknown.2)
  | bind q x =>
    intro c e hknown
    obtain ⟨hq, hx⟩ := h c hknown.1 e hknown.2
    exact ⟨fun heq => absurd heq hq, fun heq => absurd heq hx⟩

structure Inv (p : String) (s : System β) : Prop where
  sound : Sound p s.broker
  channels : ∀ channel ∈ s.channels, channel.Advanced p s.broker

variable [LawfulBroker β]

theorem Inv.step {event : Event} (h : Inv p s) (hapart : Apart p s event) (hstep : step p s event = some s') :
    Inv p s' := by
  cases event with
  | start consumer entity =>
    cases hstep
    refine ⟨h.sound, fun channel hchannel => ?_⟩
    rcases List.mem_append.mp hchannel with hold | hnew
    · exact h.channels channel hold
    · rw [List.mem_singleton.mp hnew]
      exact ⟨[], rfl, List.forall_mem_nil _⟩
  | lose i =>
    obtain ⟨channel, hi, heq⟩ := Option.map_eq_some_iff.mp hstep
    cases heq
    refine ⟨h.sound, fun channel' hchannel => ?_⟩
    rcases List.mem_or_eq_of_mem_set hchannel with hold | rfl
    · exact h.channels channel' hold
    · exact h.channels channel (List.mem_of_getElem? hi)
  | elsewhere call =>
    cases hstep
    cases hperform : perform s.broker call with
    | none => exact h
    | some broker =>
      exact ⟨h.sound.perform hapart.fits hperform,
        fun channel hchannel => (h.channels channel hchannel).mono (extends_perform hperform)⟩
  | call i =>
    rw [Topology.step] at hstep
    split at hstep
    · rename_i consumer entity call rest hi
      obtain ⟨done, hcalls, hdone⟩ := h.channels _ (List.mem_of_getElem? hi)
      split at hstep
      · rename_i broker hperform
        cases hstep
        have hextends := extends_perform hperform
        refine ⟨h.sound.perform (fits_of_declares hcalls hdone) hperform, fun channel hchannel => ?_⟩
        rcases List.mem_or_eq_of_mem_set hchannel with hold | rfl
        · exact (h.channels channel hold).mono hextends
        · refine ⟨done ++ [call], by rw [List.append_assoc]; exact hcalls, ?_⟩
          rw [List.forall_mem_append, List.forall_mem_singleton]
          exact ⟨fun call hcall => (hdone call hcall).mono hextends, done_perform hperform⟩
      · -- The call is refused: the broker is as before, and the channel is where it was.
        cases hstep
        refine ⟨h.sound, fun channel hchannel => ?_⟩
        rcases List.mem_or_eq_of_mem_set hchannel with hold | rfl
        · exact h.channels channel hold
        · exact ⟨done, hcalls, hdone⟩
    · cases hstep

/-- However many consumers declare their queues at once, and wherever they are lost: a stream queue
that is there has its dead-letter path, its own and no other, and is fed by its own source
alone; and a consumer that is through has its queue declared and bound. -/
theorem dead_letters_in_place {events : List Event} (hsound : Sound p b)
    (hrun : Run (step p) (Apart p) ⟨b, []⟩ events s) {c e : String} (hknown : Known c e) :
    (∀ spec, queue s.broker (streamQueue p c e) = some spec →
      spec = quorum (dlx p c e) ∧ exchange s.broker (dlx p c e) = some fanout ∧
        queue s.broker (dlq p c e) = some classic ∧ ∀ q, bound s.broker (dlx p c e) q ↔ q = dlq p c e) ∧
    (∀ x, bound s.broker x (streamQueue p c e) → x = sourceExchange p e) ∧
    ∀ channel ∈ s.channels, channel.consumer = c → channel.entity = e → channel.calls = [] →
      queue s.broker (streamQueue p c e) = some (quorum (dlx p c e)) ∧
        bound s.broker (sourceExchange p e) (streamQueue p c e) := by
  have hinv : Inv p s := hrun.invariant ⟨hsound, List.forall_mem_nil _⟩ Inv.step
  refine ⟨fun spec hthere => ?_, fun x => hinv.sound.fed hknown, fun channel hchannel hc he hcalls => ?_⟩
  · obtain ⟨hspec, hpath⟩ := hinv.sound.path hknown hthere
    refine ⟨hspec, hpath.exchange, hpath.queue, fun q => ⟨hinv.sound.caught hknown, ?_⟩⟩
    rintro rfl
    exact hpath.bound
  · obtain ⟨done, hall, hdone⟩ := hinv.channels channel hchannel
    rw [hcalls, hc, he, List.append_nil, declareStreamQueue_known p hknown] at hall
    rw [hall] at hdone
    simp only [List.forall_mem_cons, Done] at hdone
    exact ⟨hdone.2.2.2.2.1, hdone.2.2.2.2.2.1⟩

end Channels

/-! ## A broker -/

structure Tables where
  exchanges : List (String × ExchangeSpec) := []
  queues : List (String × QueueSpec) := []
  /-- An exchange and a queue. -/
  bindings : List (String × String) := []

/-- The entry is there already, or there is none. -/
def declared {α : Type} [DecidableEq α] (name : String) (spec : α) (there : List (String × α)) :
    Option (List (String × α)) :=
  match there.lookup name with
  | none => some ((name, spec) :: there)
  | some spec' => if spec' = spec then some there else none

instance : Broker Tables where
  exchange b name := b.exchanges.lookup name
  queue b name := b.queues.lookup name
  bound b x q := (x, q) ∈ b.bindings
  perform b
    | .declareExchange name spec => (declared name spec b.exchanges).map fun exchanges => { b with exchanges }
    | .declareQueue name spec => (declared name spec b.queues).map fun queues => { b with queues }
    | .bind q x =>
      if (b.exchanges.lookup x).isSome && (b.queues.lookup q).isSome then
        some { b with bindings := (x, q) :: b.bindings }
      else none
    | .raise _ => none

theorem lookup_declared {α : Type} [DecidableEq α] {name : String} {spec : α} {there there' : List (String × α)}
    (h : declared name spec there = some there') :
    (there.lookup name = none ∨ there.lookup name = some spec) ∧
      (fun name' => there'.lookup name') = Function.update (fun name' => there.lookup name') name (some spec) := by
  rw [declared] at h
  split at h
  · rename_i hnone
    cases h
    refine ⟨.inl hnone, funext fun name' => ?_⟩
    by_cases hname : name' = name
    · rw [hname, List.lookup_cons_self, Function.update_self]
    · rw [List.lookup_cons, beq_false_of_ne hname, Function.update_of_ne hname]
  · rename_i spec' hsome
    split at h
    · rename_i hspec
      cases h
      rw [hspec] at hsome
      exact ⟨.inr hsome, (Function.update_eq_self_iff.mpr hsome.symm).symm⟩
    · cases h

instance : LawfulBroker Tables where
  declareExchange h := by
    obtain ⟨exchanges, hdeclared, heq⟩ := Option.map_eq_some_iff.mp h
    cases heq
    obtain ⟨haccepted, hlookup⟩ := lookup_declared hdeclared
    exact ⟨haccepted, hlookup, rfl, rfl⟩
  declareQueue h := by
    obtain ⟨queues, hdeclared, heq⟩ := Option.map_eq_some_iff.mp h
    cases heq
    obtain ⟨haccepted, hlookup⟩ := lookup_declared hdeclared
    exact ⟨haccepted, hlookup, rfl, rfl⟩
  bind {b b' q x} h := by
    obtain ⟨_, heq⟩ := Option.ite_none_right_eq_some.mp h
    cases heq
    refine ⟨rfl, rfl, fun x' q' => ?_⟩
    have hcons : (x', q') ∈ (x, q) :: b.bindings ↔ (x', q') = (x, q) ∨ (x', q') ∈ b.bindings := List.mem_cons
    rw [Prod.mk.injEq] at hcons
    exact hcons.trans or_comm
  raise := rfl

theorem sound_empty (p : String) : Sound p ({} : Tables) where
  path _ hthere := by cases hthere
  fed _ hto := by cases hto
  caught _ hto := by cases hto

instance (p : String) : (call : Call) → Decidable (Foreign p call)
  | .declareExchange _ _ | .raise _ => .isTrue trivial
  | .declareQueue name _ =>
    inferInstanceAs (Decidable (∀ c ∈ consumers, ∀ e ∈ entityTypes, name ≠ streamQueue p c e))
  | .bind q x =>
    inferInstanceAs (Decidable (∀ c ∈ consumers, ∀ e ∈ entityTypes, q ≠ streamQueue p c e ∧ x ≠ dlx p c e))

instance (p : String) (s : System Tables) : (event : Event) → Decidable (Apart p s event)
  | .elsewhere call => inferInstanceAs (Decidable (Foreign p call))
  | .start _ _ | .call _ | .lose _ => .isTrue trivial

/-- A consumer is lost before its stream queue is declared, and starts again beside another. -/
def startsAgain : List Event :=
  [.start "brainzgraphinator" "artists", .start "brainztableinator" "artists", .call 0, .call 1, .call 0, .call 0,
    .call 1, .lose 0, .elsewhere (.declareQueue "other" classic), .start "brainzgraphinator" "artists",
    .call 2, .call 2, .call 1, .call 2, .call 2, .call 2, .call 2]

theorem dead_letters_in_place_startsAgain : ∃ s : System Tables,
    Run (step "mb") (Apart "mb") ⟨{}, []⟩ startsAgain s ∧
      s.channels.map (fun channel => (channel.calls.length, channel.lost)) = [(3, true), (3, false), (0, false)] ∧
      queue s.broker "mb-brainzgraphinator-artists" = some (quorum "mb-brainzgraphinator-artists.dlx") ∧
      ∀ q, bound s.broker "mb-brainzgraphinator-artists.dlx" q ↔ q = "mb-brainzgraphinator-artists.dlq" := by
  obtain ⟨s, hrun, hchannels⟩ : ∃ s : System Tables,
      Run (guarded (step "mb") (Apart "mb")) (fun _ _ => True) ⟨{}, []⟩ startsAgain s ∧
        (s.channels.map (fun channel => (channel.calls.length, channel.lost)) = [(3, true), (3, false), (0, false)] ∧
          s.broker.queues.lookup "mb-brainzgraphinator-artists" = some (quorum "mb-brainzgraphinator-artists.dlx")) :=
    exists_run (by decide +kernel)
  have hknown : Known "brainzgraphinator" "artists" := ⟨by decide, by decide⟩
  obtain ⟨hpath, _, _⟩ := dead_letters_in_place (sound_empty "mb") (run_of_guarded hrun) hknown
  exact ⟨s, run_of_guarded hrun, hchannels.1, hchannels.2, (hpath _ hchannels.2).2.2.2⟩

end Brainzgraphinator.Topology
