-- SUMMARY: The state of the consumer lifecycle, with its alarms and the health it reports.
import Brainzgraphinator.Lifecycle.Timers

/-!
# State of the lifecycle

`Lifecycle` is the transport, the timers, the module's other globals and where `main`
and the periodic checker wait. `subscribed` says of which types a consumer was ever
asked for: only they have deliveries.
-/

namespace Brainzgraphinator

/-- The service's time settings, in seconds. -/
structure Timing where
  consumerCancelDelay : Int := 300
  startupIdleTimeout : Int := 30
  queueCheckInterval : Int := 3600

inductive MainPc where
  | starting
  | connecting (retry : Nat)
  | openingChannel (c : Nat)
  | settingQos (c : Nat)
  | declaring (c : Nat) (t : EntityType) (rest : List EntityType)
  | consuming (c : Nat) (t : EntityType) (rest : List EntityType)
  | running
  /-- `await asyncio.gather(*pending, …)` in `cancel_all_consumers`. -/
  | stoppingTimers (pending : List Nat)
  | stoppingConsumers (pending : List Nat)
  | stoppingChecker
  | closing (pc : ClosePc)
  | exited
  deriving DecidableEq

/-- `periodic_queue_checker`, and `_recover_consumers` inside it. -/
inductive CheckerPc where
  | absent
  | sleeping
  /-- The connection is dropped for recovery. -/
  | dropping (pc : ClosePc)
  | connecting
  | openingChannel (c : Nat)
  | inspecting (c : Nat) (t : EntityType) (rest pending : List EntityType)
  | settingQos (c : Nat) (pending : List EntityType)
  | declaring (c q : Nat) (t : EntityType) (rest pending : List EntityType)
  | consuming (c q : Nat) (t : EntityType) (rest pending : List EntityType)
  | closingTempChannel (c : Nat)
  | closingTempConnection (c : Nat)
  /-- The `except` clause closes what the recovery has opened. -/
  | failing (pc : ClosePc)
  | exited
  deriving DecidableEq

structure Lifecycle extends Transport, Timers where
  queues : EntityType → Option Nat := fun _ => none
  completedFiles : EntityType → Bool := fun _ => false
  messageCounts : EntityType → Nat := fun _ => 0
  lastMessageTime : EntityType → Int := fun _ => 0
  shutdownRequested : Bool := false
  /-- `graph is not None`. -/
  graph : Bool := false
  main : MainPc := .starting
  checker : CheckerPc := .absent
  checkerCancelled : Bool := false
  lastFullCheck : Int := 0
  /-- Record deliveries whose write is under way. -/
  inFlight : EntityType → Nat := fun _ => 0
  subscribed : EntityType → Bool := fun _ => false
  now : Int
  /-- Connections opened so far. -/
  connections : Nat := 0

namespace Lifecycle

variable (timing : Timing) (s : Lifecycle)

def allCompleted : Bool := musicbrainzDataTypes.all s.completedFiles

/-- `check_all_consumers_idle`. -/
def checkAllConsumersIdle : Bool := s.noConsumers && s.allCompleted

/-! ## Alarms and health -/

def trafficSeen : Bool := musicbrainzDataTypes.any fun t => decide (0 < s.messageCounts t)

def graceExpired : Bool :=
  decide (0 < s.consumerWatchStartedAt) &&
    decide (timing.startupIdleTimeout ≤ s.now - s.consumerWatchStartedAt)

def allButOneComplete : Bool :=
  decide (musicbrainzDataTypes.length - 1 ≤ musicbrainzDataTypes.countP s.completedFiles)

def consumerAlarmTypes : List EntityType :=
  if !s.trafficSeen && !s.graceExpired timing then []
  else musicbrainzDataTypes.filter fun t => !s.completedFiles t &&
    ((s.consumerTags t).isNone ||
      (s.graceExpired timing && s.allButOneComplete && decide (s.lastMessageTime t ≤ 0)))

/-- What `get_health_data` reports, but for statistics and time stamp. -/
structure HealthData where
  status : String
  currentTask : Option String
  messageCounts : EntityType → Nat
  lastMessageTime : EntityType → Int
  activeConsumers : List EntityType
  consumerAlarmTypes : List EntityType
  completedFiles : List EntityType

def getHealthData : HealthData :=
  let recent := musicbrainzDataTypes.find? fun t =>
    decide (0 < s.lastMessageTime t) && decide (s.now - s.lastMessageTime t < 10)
  let activeTask := match recent with
    | some t => some ("Enriching " ++ t.wireName)
    | none => if s.noConsumers then none else some "Idle - waiting for messages"
  let alarmTypes := s.consumerAlarmTypes timing
  let isStuck := !alarmTypes.isEmpty
  let activeTask :=
    if isStuck then some "STUCK - consumers died, awaiting recovery" else activeTask
  let starting := s.noConsumers && !s.trafficSeen
  { status :=
      if !s.graph then (if starting then "starting" else "unhealthy")
      else if isStuck || s.consumerRecoveryRequested then "unhealthy" else "healthy"
    currentTask :=
      if !s.graph && starting then some "Initializing Neo4j connection" else activeTask
    messageCounts := s.messageCounts
    lastMessageTime := s.lastMessageTime
    activeConsumers := musicbrainzDataTypes.filter fun t => (s.consumerTags t).isSome
    consumerAlarmTypes := alarmTypes
    completedFiles := musicbrainzDataTypes.filter s.completedFiles }

end Lifecycle

end Brainzgraphinator
