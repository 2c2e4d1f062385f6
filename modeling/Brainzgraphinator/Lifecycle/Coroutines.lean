-- SUMMARY: What each coroutine of the consumer lifecycle does from one await to the next.
import Brainzgraphinator.Lifecycle.State

/-!
# Coroutines

Each function is a turn: a coroutine is resumed at its await, with the reply of the
broker call it waited for, and runs until it awaits again. `periodic_queue_checker`
with `_recover_consumers`, `main` with `cancel_all_consumers`, the tasks that cancel a
consumer, and the message handler take turns in any order.
-/

namespace Brainzgraphinator

namespace Lifecycle

variable (timing : Timing) (s : Lifecycle)

/-! ## Cancelling a consumer -/

def finish (id : Nat) : Lifecycle := { s with toTimers := s.finishTask id }

/-- A cancel that was not confirmed: the subscription is left for recovery. -/
def cancelFails (id : Nat) : Lifecycle :=
  { s with toTransport := s.requestRecovery, toTimers := s.finishTask id }

/-- `_cancel_consumer` up to its await. -/
def cancelConsumer (id : Nat) (tag : String) : Lifecycle :=
  match (s.tasks id).queue with
  -- `RuntimeError("consumer queue handle missing")`.
  | none => s.cancelFails id
  | some _ => { s with toTimers := s.setPc id (.cancelling tag) }

/-- A timer has slept, or a shutdown cancel begins. -/
def taskWakes (id : Nat) : Lifecycle :=
  match (s.tasks id).kind with
  | .timer =>
    match s.consumerTags (s.tasks id).dataType with
    | some registration => s.cancelConsumer id registration.tag
    | none => s.finish id
  | .shutdown => s.cancelConsumer id (s.tasks id).tag

/-- The task closes the transport from here on, or is done with it. -/
def taskCloses (id : Nat) : Option ClosePc → Lifecycle
  | some pc => { s with toTimers := s.setPc id (.closing pc) }
  | none => s.finish id

/-- The broker has confirmed the cancel of the consumer on `q`. The last timer closes
the connection. -/
def cancelSucceeds (id q : Nat) (tag : String) : Lifecycle :=
  let t := (s.tasks id).dataType
  let s := { s with toTransport := (s.confirmCancel q t).forgetConsumer t tag }
  match (s.tasks id).kind with
  | .timer =>
    if s.checkAllConsumersIdle then s.taskCloses id s.closeRabbitmqConnection else s.finish id
  | .shutdown => s.finish id

/-- The broker call of a task has ended. -/
def taskReplied (id : Nat) (reply : Reply) : Option Lifecycle :=
  match (s.tasks id).pc, (s.tasks id).queue with
  | .cancelling tag, some q =>
    match reply with
    | .success => some (s.cancelSucceeds id q tag)
    | _ => some (s.cancelFails id)
  | .closing pc, _ =>
    some ({ s with toTransport := (s.closeReplied pc reply).1 }.taskCloses id (s.closeReplied pc reply).2)
  | _, _ => none

/-- `CancelledError` reaches the await of a task: a cancel in flight is uncertain. -/
def taskInterrupted (id : Nat) : Option Lifecycle :=
  match (s.tasks id).pc with
  | .cancelling _ => some (s.cancelFails id)
  | .waiting | .closing _ => some (s.finish id)
  | .finished => none

/-! ## The message handler -/

inductive Message where
  | fileComplete
  | extractionComplete
  /-- A record, with a non-empty id or not. -/
  | record (valid : Bool)
  /-- The body cannot be parsed. -/
  | unreadable
  deriving DecidableEq

def Message.terminal : Message → Bool
  | .fileComplete | .extractionComplete => true
  | _ => false

def complete (t : EntityType) : Lifecycle :=
  { s with completedFiles := Function.update s.completedFiles t true }

def uncomplete (t : EntityType) : Lifecycle :=
  { s with completedFiles := Function.update s.completedFiles t false }

/-- `if CONSUMER_CANCEL_DELAY > 0 and data_type in queues`. -/
def scheduleIfEnabled (t : EntityType) : Lifecycle :=
  match s.queues t with
  | some queue =>
    if 0 < timing.consumerCancelDelay then
      { s with toTimers := s.scheduleConsumerCancellation t queue }
    else s
  | none => s

/-- `operation` up to its first await; `check_file_completion` first. -/
def operation (t : EntityType) : Message → Lifecycle
  | .fileComplete => (s.scheduleIfEnabled timing t).complete t
  | .extractionComplete => (s.complete t).scheduleIfEnabled timing t
  | .record valid =>
    let s := { s.uncomplete t with toTimers := s.dropTimer t }
    if valid && s.graph then { s with inFlight := Function.update s.inFlight t (s.inFlight t + 1) }
    else s
  | .unreadable => s

/-- The handler leaves what it gets after a shutdown request unsettled. -/
def handler (t : EntityType) (message : Message) : Lifecycle :=
  if s.shutdownRequested then s else s.operation timing t message

inductive Outcome where
  | processed
  | skipped
  | failed
  deriving DecidableEq

/-- The write of a record is over, and the delivery is settled. -/
def settled (t : EntityType) (outcome : Outcome) : Lifecycle :=
  let s := { s with inFlight := Function.update s.inFlight t (s.inFlight t - 1) }
  match outcome with
  | .failed => s
  | _ =>
    { s with
      messageCounts := Function.update s.messageCounts t (s.messageCounts t + 1)
      lastMessageTime := Function.update s.lastMessageTime t s.now }

/-! ## Recovery -/

/-- The loop of the checker goes on, or ends after a shutdown request. -/
def checkerSleeps : Lifecycle :=
  { s with checker := if s.shutdownRequested then .exited else .sleeping }

/-- The timers are cancelled, and the reconnect begins. -/
def reconnect : Lifecycle :=
  { s with
    toTimers := s.dropTimers
    toTransport := { s.toTransport with consumerRecoveryRequested := false }
    checker := .connecting }

/-- After the connection was dropped: a transport that is still there is left for the next try. -/
def dropped : Lifecycle := if s.hasTransport then s.checkerSleeps else s.reconnect

/-- `_recover_consumers` up to its first await. -/
def recoverConsumers : Lifecycle :=
  match s.closeRabbitmqConnection with
  | some pc => { s with checker := .dropping pc }
  | none => s.reconnect

/-- The outer `except` clause: what was opened becomes active, and is closed. -/
def recoveryFailed (c : Nat) : Lifecycle :=
  { s with
    toTransport := s.adoptFailed c
    queues := fun _ => none
    checker := .failing (.channel c) }

/-- `queues[data_type] = await declare_stream_queue(active_channel, …)`. -/
def declareNext (c : Nat) (t : EntityType) (rest pending : List EntityType) : Lifecycle :=
  match s.activeChannel with
  | some q => { s with checker := .declaring c q t rest pending }
  | none => s.recoveryFailed c

/-- The next type that lacks a consumer; the recovery is complete when there is none. -/
def consumeNext (c : Nat) (pending : List EntityType) : List EntityType → Lifecycle
  | [] => s.checkerSleeps
  | t :: rest =>
    match s.queues t, s.consumerTags t with
    | some q, none =>
      { s with
        checker := .consuming c q t rest pending
        subscribed := Function.update s.subscribed t true }
    | _, _ => consumeNext c pending rest

/-- A recovered consumer is registered. A type with a backlog is no longer complete. -/
def consumerRecovered (q : Nat) (t : EntityType) (pending : List EntityType) : Lifecycle :=
  { s with
    toTransport := s.registerConsumer s.now t q
    completedFiles := if t ∈ pending then Function.update s.completedFiles t false else s.completedFiles
    lastMessageTime := Function.update s.lastMessageTime t s.now }

/-- The recovery drops the connection from one await to the next. -/
def droppingReplied (pc : ClosePc) (reply : Reply) : Lifecycle :=
  let s' := { s with toTransport := (s.closeReplied pc reply).1 }
  match (s.closeReplied pc reply).2 with
  | some pc => { s' with checker := .dropping pc }
  | none => s'.dropped

/-- The failed recovery closes what it has opened from one await to the next. -/
def failingReplied (pc : ClosePc) (reply : Reply) : Lifecycle :=
  let s' := { s with toTransport := (s.closeReplied pc reply).1 }
  match (s.closeReplied pc reply).2 with
  | some pc => { s' with checker := .failing pc }
  | none => s'.checkerSleeps

/-- The awaits of the recovery, when they succeed; a passive declare finds `count` messages. -/
def checkerSucceeds (count : Nat) : Option Lifecycle :=
  match s.checker with
  | .dropping pc => some (s.droppingReplied pc .success)
  | .connecting =>
    some { s with checker := .openingChannel s.connections, connections := s.connections + 1 }
  | .openingChannel c => some { s with checker := .inspecting c .artists musicbrainzDataTypes.tail [] }
  | .inspecting c t rest pending =>
    let pending := if 0 < count then pending ++ [t] else pending
    match rest with
    | t :: rest => some { s with checker := .inspecting c t rest pending }
    | [] =>
      if pending.isEmpty then some { s with checker := .closingTempChannel c }
      else some { s with toTransport := s.adopt s.now c, checker := .settingQos c pending }
  | .settingQos c pending =>
    some ({ s with queues := fun _ => none }.declareNext c .artists musicbrainzDataTypes.tail pending)
  | .declaring c q t rest pending =>
    let s := { s with queues := Function.update s.queues t (some q) }
    match rest with
    | t :: rest => some (s.declareNext c t rest pending)
    | [] => some (s.consumeNext c pending musicbrainzDataTypes)
  | .consuming c q t rest pending => some ((s.consumerRecovered q t pending).consumeNext c pending rest)
  | .closingTempChannel c =>
    some { s with
      channelClosed := Function.update s.channelClosed c true
      checker := .closingTempConnection c }
  | .closingTempConnection c =>
    some { s with connectionClosed := Function.update s.connectionClosed c true }.checkerSleeps
  | .failing pc => some (s.failingReplied pc .success)
  | .absent | .sleeping | .exited => none

/-- The awaits of the recovery, when they raise. -/
def checkerFails (reply : Reply) : Option Lifecycle :=
  match s.checker with
  | .dropping pc => some (s.droppingReplied pc reply)
  | .connecting | .openingChannel _ => some { s with toTransport := s.requestRecovery }.checkerSleeps
  | .inspecting c _ _ _ | .settingQos c _ | .declaring c _ _ _ _ | .consuming c _ _ _ _
  | .closingTempChannel c | .closingTempConnection c => some (s.recoveryFailed c)
  | .failing pc => some (s.failingReplied pc reply)
  | .absent | .sleeping | .exited => none

/-- The broker call of the recovery has ended. -/
def checkerReplied (reply : Reply) (count : Nat) : Option Lifecycle :=
  match reply with
  | .success => s.checkerSucceeds count
  | reply => s.checkerFails reply

/-- `periodic_queue_checker` has slept `STUCK_CHECK_INTERVAL`. -/
def checkerWakes : Lifecycle :=
  if s.consumerRecoveryRequested then s.recoverConsumers
  else if !(s.consumerAlarmTypes timing).isEmpty then s.recoverConsumers
  else if s.now - s.lastFullCheck < timing.queueCheckInterval then s.checkerSleeps
  else if s.activeConnection.isSome || !s.noConsumers then s.checkerSleeps
  else { s with lastFullCheck := s.now }.recoverConsumers

/-! ## Startup and shutdown -/

def maxStartupRetries : Nat := 5

/-- The checker is told to stop, and `main` waits for it. -/
def stopChecker : Lifecycle := { s with checkerCancelled := true, main := .stoppingChecker }

/-- A cancel for each consumer, all at once. -/
def cancelAll : Lifecycle :=
  let types := musicbrainzDataTypes.filter fun t => (s.consumerTags t).isSome
  let timers := types.foldl (fun timers t => timers.createTask
    { kind := .shutdown, dataType := t, queue := s.queues t
      tag := ((s.consumerTags t).map Registration.tag).getD "" }) s.toTimers
  if types.isEmpty then s.stopChecker
  else { s with
    toTimers := timers
    main := .stoppingConsumers (List.range' s.taskCount types.length) }

/-- `consumer_cancel_tasks.clear()`, and on to the consumers. -/
def timersStopped : Lifecycle := { s with consumerCancelTasks := fun _ => none }.cancelAll

/-- `cancel_all_consumers` up to its first await. -/
def cancelAllConsumers : Lifecycle :=
  let pending := musicbrainzDataTypes.filterMap s.consumerCancelTasks
  if pending.isEmpty then s.timersStopped
  else { s with toTimers := pending.foldl Timers.cancelTask s.toTimers, main := .stoppingTimers pending }

/-- The next type to consume at startup; after the last one the checker starts. -/
def startConsuming (c : Nat) : List EntityType → Lifecycle
  | [] => { s with main := .running, checker := .sleeping }
  | t :: rest =>
    { s with main := .consuming c t rest, subscribed := Function.update s.subscribed t true }

/-- The teardown closes the transport from one await to the next. -/
def mainCloses (pc : ClosePc) (reply : Reply) : Lifecycle :=
  let s' := { s with toTransport := (s.closeReplied pc reply).1 }
  match (s.closeReplied pc reply).2 with
  | some pc => { s' with main := .closing pc }
  | none => { s' with main := .exited }

/-- What `main` waited for is there. -/
def mainSucceeds : Option Lifecycle :=
  match s.main with
  | .starting =>
    some { s with graph := true, main := if s.shutdownRequested then .exited else .connecting 0 }
  | .connecting _ =>
    some { s with
      activeConnection := some s.connections
      main := .openingChannel s.connections
      connections := s.connections + 1 }
  | .openingChannel c => some { s with activeChannel := some c, main := .settingQos c }
  | .settingQos c =>
    some { s with queues := fun _ => none, main := .declaring c .artists musicbrainzDataTypes.tail }
  | .declaring c t rest =>
    let s := { s with queues := Function.update s.queues t (some c) }
    match rest with
    | t :: rest => some { s with main := .declaring c t rest }
    | [] => some ({ s with toTransport := s.startWatch s.now }.startConsuming c musicbrainzDataTypes)
  | .consuming c t rest => some ({ s with toTransport := s.registerConsumer s.now t c }.startConsuming c rest)
  | .running => some (if s.shutdownRequested then s.cancelAllConsumers else s)
  | .stoppingTimers pending => if s.allFinished pending then some s.timersStopped else none
  | .stoppingConsumers pending => if s.allFinished pending then some s.stopChecker else none
  | .stoppingChecker =>
    if s.checker = .exited ∨ s.checker = .absent then
      match s.closeRabbitmqConnection with
      | some pc => some { s with main := .closing pc }
      | none => some { s with main := .exited }
    else none
  | .closing pc => some (s.mainCloses pc .success)
  | .exited => none

/-- A broker call of `main` raises. -/
def mainFails (reply : Reply) : Option Lifecycle :=
  match s.main with
  | .connecting retry =>
    if retry + 1 < maxStartupRetries && !s.shutdownRequested then
      some { s with main := .connecting (retry + 1) }
    else some { s with main := .exited }
  | .starting | .openingChannel _ | .settingQos _ | .declaring _ _ _ | .consuming _ _ _ =>
    some { s with main := .exited }
  | .closing pc => some (s.mainCloses pc reply)
  | .running | .stoppingTimers _ | .stoppingConsumers _ | .stoppingChecker | .exited => none

def mainReplied (reply : Reply) : Option Lifecycle :=
  match reply with
  | .success => s.mainSucceeds
  | reply => s.mainFails reply

/-- The main task is cancelled: its loop goes to the teardown, a gather cancels what it waits
for, and the checker is waited for all the same. -/
def mainCancelled : Lifecycle :=
  match s.main with
  | .running => s.cancelAllConsumers
  | .stoppingConsumers pending =>
    { s with toTimers := pending.foldl Timers.cancelTask s.toTimers, main := .exited }
  | .stoppingChecker => s
  | _ => { s with main := .exited }

/-! ## Steps -/

inductive Event where
  | tick (seconds : Nat)
  | shutdown
  | main (reply : Reply)
  | mainCancelled
  | checkerWakes
  /-- A broker call of the recovery, with the message count of a passive declare. -/
  | checker (reply : Reply) (count : Nat)
  | checkerInterrupted
  | taskWakes (id : Nat)
  | task (id : Nat) (reply : Reply)
  | taskInterrupted (id : Nat)
  | deliver (t : EntityType) (message : Message)
  | settled (t : EntityType) (outcome : Outcome)
  deriving DecidableEq

/-- One event, if a coroutine waits for it. A cancelled coroutine is interrupted at its await. -/
def step : Event → Option Lifecycle
  | .tick seconds => some { s with now := s.now + seconds }
  | .shutdown => some { s with shutdownRequested := true }
  | .main reply => s.mainReplied reply
  | .mainCancelled => some s.mainCancelled
  | .checkerWakes =>
    if s.checker = .sleeping ∧ s.checkerCancelled = false then some (s.checkerWakes timing) else none
  | .checker reply count =>
    if s.checkerCancelled then none else s.checkerReplied reply count
  | .checkerInterrupted =>
    if s.checkerCancelled && decide (s.checker ≠ .absent) then some { s with checker := .exited }
    else none
  | .taskWakes id =>
    if (s.tasks id).pc = .waiting ∧ (s.tasks id).cancelled = false then some (s.taskWakes id)
    else none
  | .task id reply => if (s.tasks id).cancelled then none else s.taskReplied id reply
  | .taskInterrupted id => if (s.tasks id).cancelled then s.taskInterrupted id else none
  | .deliver t message => if s.subscribed t then some (s.handler timing t message) else none
  | .settled t outcome => if 0 < s.inFlight t then some (s.settled t outcome) else none

end Lifecycle

end Brainzgraphinator
