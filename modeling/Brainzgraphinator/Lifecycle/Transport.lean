-- SUMMARY: The broker connection with the consumers registered on it, and how it is closed.
import Brainzgraphinator.Projections.EntityTypes

/-!
# The transport

`Transport` holds the handles of the broker connection, the consumers registered on it
and what the broker has confirmed. A connection is a number, its one channel goes by
the same number, and a queue handle is the number of the channel it was declared on:
the subscription of a data type is the number of the channel that consumes it. An
entry of `consumerTags` carries this number beside the tag; the code has the tag alone.

`consumersActive` is the sum of the deltas the gauge was given, and `registeredAt` the
time of the last registration.
-/

namespace Brainzgraphinator

/-- `MUSICBRAINZ_DATA_TYPES`. -/
def musicbrainzDataTypes : List EntityType := [.artists, .labels, .releaseGroups, .releases]

theorem mem_musicbrainzDataTypes (t : EntityType) : t ∈ musicbrainzDataTypes := by
  cases t <;> decide

def EntityType.wireName : EntityType → String
  | .artists => "artists"
  | .labels => "labels"
  | .releaseGroups => "release-groups"
  | .releases => "releases"

def serviceName : String := "musicbrainz-graph-enricher"

/-- The tag a consumer of this type asks for, and gets. -/
def consumerTag (t : EntityType) : String := serviceName ++ "-" ++ t.wireName

/-- A table from which one entry was popped has no new entries. -/
theorem eq_some_of_update_none {α β : Type} [DecidableEq α] {f : α → Option β} {a b : α} {x : β}
    (h : Function.update f a none b = some x) : f b = some x := by
  by_cases hb : b = a
  · rw [hb, Function.update_self] at h
    cases h
  · rwa [Function.update_of_ne hb] at h

/-- An entry of `consumer_tags`, with the channel of its subscription. -/
structure Registration where
  tag : String
  channel : Nat
  deriving DecidableEq

/-- How a broker call ends. -/
inductive Reply where
  | success
  | failure
  /-- The deadline around it has passed. -/
  | timedOut
  deriving DecidableEq

/-- The awaits of `close_rabbitmq_connection`. -/
inductive ClosePc where
  | channel (c : Nat)
  | connection (c : Nat)
  deriving DecidableEq

/-- What is being closed. -/
def ClosePc.number : ClosePc → Nat
  | .channel c | .connection c => c

structure Transport where
  consumerTags : EntityType → Option Registration := fun _ => none
  connectionConsumerTags : EntityType → Option String := fun _ => none
  consumersActive : Int := 0
  consumerWatchStartedAt : Int := 0
  consumerRecoveryRequested : Bool := false
  activeConnection : Option Nat := none
  activeChannel : Option Nat := none
  registeredAt : Option Int := none
  channelClosed : Nat → Bool := fun _ => false
  connectionClosed : Nat → Bool := fun _ => false
  cancelConfirmed : Nat → EntityType → Bool := fun _ _ => false

namespace Transport

variable (s : Transport)

/-- `active_connection or active_channel`. -/
def hasTransport : Bool := s.activeConnection.isSome || s.activeChannel.isSome

def noConsumers : Bool := musicbrainzDataTypes.all fun t => (s.consumerTags t).isNone

/-- `len(consumer_tags)`. -/
def consumerCount : Nat := musicbrainzDataTypes.countP fun t => (s.consumerTags t).isSome

/-! ## Registrations -/

/-- `_register_consumer`: the consumer of `t` on the channel `c`. -/
def registerConsumer (now : Int) (t : EntityType) (c : Nat) : Transport :=
  { s with
    consumerTags := Function.update s.consumerTags t (some ⟨consumerTag t, c⟩)
    connectionConsumerTags := Function.update s.connectionConsumerTags t (some (consumerTag t))
    consumersActive := s.consumersActive + 1
    registeredAt := some now }

/-- The tag is popped if it is still the one that was cancelled. -/
def forgetConsumer (t : EntityType) (tag : String) : Transport :=
  if (s.consumerTags t).map Registration.tag = some tag then
    { s with
      consumerTags := Function.update s.consumerTags t none
      consumersActive := s.consumersActive - 1 }
  else s

/-- The broker confirms that the consumer of `t` on the channel `q` is cancelled. -/
def confirmCancel (q : Nat) (t : EntityType) : Transport :=
  let confirmed := Function.update (s.cancelConfirmed q) t true
  { s with cancelConfirmed := Function.update s.cancelConfirmed q confirmed }

@[simp] theorem registerConsumer_self (now : Int) (t : EntityType) (c : Nat) :
    (s.registerConsumer now t c).consumerTags t = some ⟨consumerTag t, c⟩ :=
  Function.update_self t _ s.consumerTags

def requestRecovery : Transport := { s with consumerRecoveryRequested := true }

/-! ## Closing -/

/-- Confirmed closure ends every subscription, and the watch. -/
def forgetConnection : Transport :=
  { s with
    consumerTags := fun _ => none
    connectionConsumerTags := fun _ => none
    consumersActive := s.consumersActive - s.consumerCount
    consumerWatchStartedAt := 0 }

/-- `close_rabbitmq_connection` after its awaits; the transport was there when it began. -/
def closeEnds : Transport := if s.activeChannel.isSome then s.requestRecovery else s.forgetConnection

/-- `if active_connection: await active_connection.close()`. -/
def closeConnection : Transport × Option ClosePc :=
  match s.activeConnection with
  | some c => (s, some (.connection c))
  | none => (s.closeEnds, none)

/-- `close_rabbitmq_connection` up to its first await. -/
def closeRabbitmqConnection : Option ClosePc :=
  match s.activeChannel with
  | some c => some (.channel c)
  | none => s.activeConnection.map .connection

/-- `close_rabbitmq_connection` from one await to the next. -/
def closeReplied : ClosePc → Reply → Transport × Option ClosePc
  | .channel c, .success =>
    { s with activeChannel := none, channelClosed := Function.update s.channelClosed c true }.closeConnection
  | .channel _, .failure => s.closeConnection
  | .channel _, .timedOut => (s.requestRecovery, none)
  | .connection c, .success =>
    ({ s with
        activeConnection := none
        activeChannel := none
        connectionClosed := Function.update s.connectionClosed c true }.closeEnds, none)
  | .connection _, _ => (s.requestRecovery, none)

/-! ## Opening -/

/-- What a recovery has opened becomes the active transport. -/
def adopt (now : Int) (c : Nat) : Transport :=
  { s with
    activeConnection := some c
    activeChannel := some c
    connectionConsumerTags := fun _ => none
    consumerWatchStartedAt := now }

/-- A recovery that failed leaves what it has opened active, to be closed. -/
def adoptFailed (c : Nat) : Transport :=
  { s.requestRecovery with activeConnection := some c, activeChannel := some c }

/-- Consumers begin to register at startup. -/
def startWatch (now : Int) : Transport :=
  { s with connectionConsumerTags := fun _ => none, consumerWatchStartedAt := now }

/-! ## How a close goes on -/

variable {s} {s' : Transport} {pc : ClosePc} {reply : Reply}

theorem hasTransport_eq_false : s.hasTransport = false ↔ s.activeConnection = none ∧ s.activeChannel = none := by
  simp [hasTransport]

theorem noConsumers_iff : s.noConsumers = true ↔ ∀ t, s.consumerTags t = none := by
  simp only [noConsumers, List.all_eq_true, Option.isNone_iff_eq_none]
  exact ⟨fun h t => h t (mem_musicbrainzDataTypes t), fun h t _ => h t⟩

/-- What the broker has confirmed closed when a close is over. -/
inductive Closes (s : Transport) : ClosePc → Reply → Transport → Prop
  | connection (c : Nat) : Closes s (.connection c) .success
      { s with
        activeConnection := none
        activeChannel := none
        connectionClosed := Function.update s.connectionClosed c true }
  | channel (c : Nat) : s.activeConnection = none → Closes s (.channel c) .success
      { s with activeChannel := none, channelClosed := Function.update s.channelClosed c true }
  /-- Another close was faster. -/
  | noop (c : Nat) : s.activeConnection = none → s.activeChannel = none → Closes s (.channel c) .failure s

theorem Closes.hasTransport (h : Closes s pc reply s') : s'.hasTransport = false := by
  cases h with
  | connection c => rfl
  | channel c hconn => exact hasTransport_eq_false.mpr ⟨hconn, rfl⟩
  | noop c hconn hchan => exact hasTransport_eq_false.mpr ⟨hconn, hchan⟩

/-- A close goes on with the connection, fails, or ends every subscription. -/
theorem closeReplied_cases (s : Transport) (pc : ClosePc) (reply : Reply) :
    (∃ c c₀, pc = .channel c₀ ∧ s.activeConnection = some c ∧
      (reply = .success ∧ s.closeReplied pc reply = ({ s with
          activeChannel := none
          channelClosed := Function.update s.channelClosed c₀ true }, some (.connection c)) ∨
        reply = .failure ∧ s.closeReplied pc reply = (s, some (.connection c)))) ∨
    s.closeReplied pc reply = (s.requestRecovery, none) ∨
    ∃ s', Closes s pc reply s' ∧ s.closeReplied pc reply = (s'.forgetConnection, none) := by
  cases pc with
  | channel c₀ =>
    cases reply with
    | success =>
      cases hconn : s.activeConnection with
      | some c =>
        refine .inl ⟨c, c₀, rfl, rfl, .inl ⟨rfl, ?_⟩⟩
        simp only [closeReplied, closeConnection, hconn]
      | none =>
        refine .inr (.inr ⟨_, .channel c₀ hconn, ?_⟩)
        simp only [closeReplied, closeConnection, closeEnds, hconn, Option.isSome_none]
        rfl
    | failure =>
      cases hconn : s.activeConnection with
      | some c =>
        refine .inl ⟨c, c₀, rfl, rfl, .inr ⟨rfl, ?_⟩⟩
        simp only [closeReplied, closeConnection, hconn]
      | none =>
        cases hchan : s.activeChannel with
        | some c =>
          refine .inr (.inl ?_)
          simp only [closeReplied, closeConnection, closeEnds, hconn, hchan, Option.isSome_some, if_true]
        | none =>
          refine .inr (.inr ⟨_, .noop c₀ hconn hchan, ?_⟩)
          simp only [closeReplied, closeConnection, closeEnds, hconn, hchan, Option.isSome_none]
          rfl
    | timedOut => exact .inr (.inl rfl)
  | connection c =>
    cases reply with
    | success => exact .inr (.inr ⟨_, .connection c, rfl⟩)
    | failure => exact .inr (.inl rfl)
    | timedOut => exact .inr (.inl rfl)

theorem activeConnection_of_closeReplied {p : ClosePc} (h : (s.closeReplied pc reply).2 = some p) :
    (s.closeReplied pc reply).1.activeConnection = some p.number := by
  rcases closeReplied_cases s pc reply with
    ⟨c, c₀, _, hconn, ⟨_, heq⟩ | ⟨_, heq⟩⟩ | heq | ⟨s', _, heq⟩
  · rw [heq] at h ⊢
    cases h
    exact hconn
  · rw [heq] at h ⊢
    cases h
    exact hconn
  · rw [heq] at h
    cases h
  · rw [heq] at h
    cases h

/-- The first await of a close is that of the channel, or else of the connection. -/
theorem closeRabbitmqConnection_eq_none : s.closeRabbitmqConnection = none ↔ s.hasTransport = false := by
  rw [hasTransport_eq_false, closeRabbitmqConnection]
  cases hchan : s.activeChannel with
  | some c => simp
  | none => simp

/-! ## What grows smaller -/

/-- Consumers are only forgotten, and the transport is only lost. -/
structure Shrinks (s s' : Transport) : Prop where
  consumerTags : ∀ t, s'.consumerTags t = s.consumerTags t ∨ s'.consumerTags t = none
  hasTransport : s.hasTransport = false → s'.hasTransport = false

theorem Shrinks.refl (s : Transport) : Shrinks s s := ⟨fun _ => .inl rfl, id⟩

theorem Shrinks.none (h : Shrinks s s') {t : EntityType} (ht : s.consumerTags t = none) :
    s'.consumerTags t = none := by
  rcases h.consumerTags t with heq | heq
  · rw [heq, ht]
  · exact heq

theorem shrinks_requestRecovery (s : Transport) : Shrinks s s.requestRecovery := ⟨fun _ => .inl rfl, id⟩

theorem forgetConsumer_consumerTags (t : EntityType) (tag : String) (u : EntityType) :
    (s.forgetConsumer t tag).consumerTags u = s.consumerTags u ∨
      u = t ∧ (s.forgetConsumer t tag).consumerTags u = none := by
  rw [forgetConsumer]
  split
  · by_cases hu : u = t
    · exact .inr ⟨hu, by rw [hu]; exact Function.update_self t none s.consumerTags⟩
    · exact .inl (Function.update_of_ne hu none s.consumerTags)
  · exact .inl rfl

theorem shrinks_cancel (s : Transport) (q : Nat) (t : EntityType) (tag : String) :
    Shrinks s ((s.confirmCancel q t).forgetConsumer t tag) := by
  constructor
  · intro u
    rcases forgetConsumer_consumerTags t tag u with heq | ⟨_, heq⟩
    · exact .inl heq
    · exact .inr heq
  · rw [forgetConsumer]
    split
    · exact id
    · exact id

theorem shrinks_closeReplied (s : Transport) (pc : ClosePc) (reply : Reply) :
    Shrinks s (s.closeReplied pc reply).1 := by
  rcases closeReplied_cases s pc reply with ⟨c, c₀, _, hconn, ⟨_, heq⟩ | ⟨_, heq⟩⟩ | heq | ⟨s', hcloses, heq⟩
  · rw [heq]
    refine ⟨fun _ => .inl rfl, fun h => ?_⟩
    rw [hasTransport_eq_false, hconn] at h
    cases h.1
  · rw [heq]
    exact .refl s
  · rw [heq]
    exact shrinks_requestRecovery s
  · rw [heq]
    exact ⟨fun _ => .inr rfl, fun _ => hcloses.hasTransport⟩

end Transport

end Brainzgraphinator
