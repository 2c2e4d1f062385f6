-- SUMMARY: What a step of the lifecycle can do to the transport and to the timers.
import Brainzgraphinator.Lifecycle.Phases

/-!
# Effects of a step

Whatever coroutine takes its turn, the transport changes in one of a few ways
(`TransportStep`), and so do the timers (`TimersStep`). An invariant of either is
proved once for each way.
-/

namespace Brainzgraphinator

namespace Lifecycle

open Transport

variable {timing : Timing} {s s' : Lifecycle} {e : Event} {id : Nat}

/-! ## The transport -/

/-- A coroutine hears how the broker call of its close has ended. -/
inductive HearsClose (s : Lifecycle) : Event → ClosePc → Reply → Prop
  | main {pc : ClosePc} {reply : Reply} : s.main = .closing pc → HearsClose s (.main reply) pc reply
  | dropping {pc : ClosePc} {reply : Reply} {count : Nat} : s.checker = .dropping pc →
      HearsClose s (.checker reply count) pc reply
  | failing {pc : ClosePc} {reply : Reply} {count : Nat} : s.checker = .failing pc →
      HearsClose s (.checker reply count) pc reply
  | task {id : Nat} {pc : ClosePc} {reply : Reply} : (s.tasks id).pc = .closing pc →
      (s.tasks id).cancelled = false → HearsClose s (.task id reply) pc reply

/-- A coroutine hears that its consumer is registered: the consumer of `t` on `q`. -/
inductive HearsConsume (s : Lifecycle) : Event → EntityType → Nat → Prop
  | main {c : Nat} {t : EntityType} {rest : List EntityType} : s.main = .consuming c t rest →
      HearsConsume s (.main .success) t c
  | checker {c q : Nat} {t : EntityType} {rest pending : List EntityType} {count : Nat} :
      s.checker = .consuming c q t rest pending → HearsConsume s (.checker .success count) t q

/-- The periodic checker takes its turn. -/
def Event.ofChecker : Event → Bool
  | .checkerWakes | .checker _ _ => true
  | _ => false

/-- `main` hears of what it waits for. -/
def Event.ofMain : Event → Bool
  | .main _ => true
  | _ => false

inductive TransportStep (s : Lifecycle) : Event → Transport → Prop
  | same {e : Event} : TransportStep s e s.toTransport
  | request {e : Event} : TransportStep s e s.requestRecovery
  | cancel {id q : Nat} {tag : String} : (s.tasks id).pc = .cancelling tag →
      (s.tasks id).queue = some q → TransportStep s (.task id .success)
        ((s.confirmCancel q (s.tasks id).dataType).forgetConsumer (s.tasks id).dataType tag)
  | closeChannel {e : Event} {c c₀ : Nat} : HearsClose s e (.channel c₀) .success →
      s.activeConnection = some c → TransportStep s e { s.toTransport with
        activeChannel := none
        channelClosed := Function.update s.channelClosed c₀ true }
  | closed {e : Event} {pc : ClosePc} {reply : Reply} {t : Transport} : HearsClose s e pc reply →
      Closes s.toTransport pc reply t → TransportStep s e t.forgetConnection
  | dropped {e : Event} {pc : ClosePc} {reply : Reply} {t : Transport} : HearsClose s e pc reply →
      e.ofChecker = true → s.checker = .dropping pc → Closes s.toTransport pc reply t →
      TransportStep s e { t.forgetConnection with consumerRecoveryRequested := false }
  | reset {e : Event} : e.ofChecker = true → (s.checker = .sleeping ∨ ∃ pc, s.checker = .dropping pc) →
      s.hasTransport = false →
      TransportStep s e { s.toTransport with consumerRecoveryRequested := false }
  | connect {e : Event} {retry : Nat} : e.ofMain = true → s.main = .connecting retry →
      TransportStep s e { s.toTransport with activeConnection := some s.connections }
  | openChannel {e : Event} {c : Nat} : e.ofMain = true → s.main = .openingChannel c →
      TransportStep s e { s.toTransport with activeChannel := some c }
  | startWatch {e : Event} {c : Nat} {t : EntityType} : e.ofMain = true → s.main = .declaring c t [] →
      TransportStep s e (s.startWatch s.now)
  | register {e : Event} {t : EntityType} {q : Nat} : HearsConsume s e t q →
      s.consumerTags t = none → TransportStep s e (s.registerConsumer s.now t q)
  | adopt {e : Event} {c : Nat} {t : EntityType} {pending : List EntityType} : e.ofChecker = true →
      s.checker = .inspecting c t [] pending → s.hasTransport = false →
      TransportStep s e (s.adopt s.now c)
  | adoptFailed {e : Event} {c : Nat} : e.ofChecker = true → s.checker.opened = some c →
      TransportStep s e (s.adoptFailed c)
  | tempChannelClosed {e : Event} {c : Nat} : e.ofChecker = true → s.checker = .closingTempChannel c →
      TransportStep s e { s.toTransport with channelClosed := Function.update s.channelClosed c true }
  | tempConnectionClosed {e : Event} {c : Nat} : e.ofChecker = true → s.checker = .closingTempConnection c →
      TransportStep s e { s.toTransport with connectionClosed := Function.update s.connectionClosed c true }

/-- A close that goes on, fails or is over. -/
theorem transportStep_closeReplied {pc : ClosePc} {reply : Reply} (h : HearsClose s e pc reply) :
    TransportStep s e (s.closeReplied pc reply).1 := by
  rcases closeReplied_cases s.toTransport pc reply with
    ⟨c, c₀, rfl, hconn, ⟨rfl, heq⟩ | ⟨rfl, heq⟩⟩ | heq | ⟨t, hcloses, heq⟩
  · rw [heq]
    exact .closeChannel h hconn
  · rw [heq]
    exact .same
  · rw [heq]
    exact .request
  · rw [heq]
    exact .closed h hcloses

theorem transportStep_cancelConsumer (id : Nat) (tag : String) :
    TransportStep s e (s.cancelConsumer id tag).toTransport := by
  rw [cancelConsumer]
  split
  · exact .request
  · exact .same

theorem toTransport_taskCloses (s : Lifecycle) (id : Nat) (next : Option ClosePc) :
    (s.taskCloses id next).toTransport = s.toTransport := by
  cases next <;> rfl

theorem toTransport_cancelSucceeds (s : Lifecycle) (id q : Nat) (tag : String) :
    (s.cancelSucceeds id q tag).toTransport =
      (s.confirmCancel q (s.tasks id).dataType).forgetConsumer (s.tasks id).dataType tag := by
  rw [cancelSucceeds]
  split
  · split
    · exact toTransport_taskCloses _ _ _
    · rfl
  · rfl

theorem transportStep_task {reply : Reply} (hcancelled : (s.tasks id).cancelled = false)
    (hstep : s.taskReplied id reply = some s') : TransportStep s (.task id reply) s'.toTransport := by
  rw [taskReplied] at hstep
  split at hstep
  · rename_i tag q hpc hqueue
    cases reply with
    | failure => cases hstep; exact .request
    | timedOut => cases hstep; exact .request
    | success =>
      cases hstep
      rw [toTransport_cancelSucceeds]
      exact .cancel hpc hqueue
  · rename_i pc hpc
    cases hstep
    rw [toTransport_taskCloses]
    exact transportStep_closeReplied (.task hpc hcancelled)
  · cases hstep

theorem transportStep_taskInterrupted (hstep : s.taskInterrupted id = some s') :
    TransportStep s e s'.toTransport := by
  rw [taskInterrupted] at hstep
  split at hstep
  · cases hstep; exact .request
  · cases hstep; exact .same
  · cases hstep; exact .same
  · cases hstep

theorem toTransport_scheduleIfEnabled (s : Lifecycle) (t : EntityType) :
    (s.scheduleIfEnabled timing t).toTransport = s.toTransport := by
  rw [scheduleIfEnabled]
  split
  · split <;> rfl
  · rfl

theorem toTransport_handler (s : Lifecycle) (t : EntityType) (message : Message) :
    (s.handler timing t message).toTransport = s.toTransport := by
  rw [handler]
  split
  · rfl
  · cases message with
    | fileComplete => exact toTransport_scheduleIfEnabled s t
    | extractionComplete => exact toTransport_scheduleIfEnabled (s.complete t) t
    | record valid =>
      rw [operation]
      dsimp only
      split <;> rfl
    | unreadable => rfl

/-! ### The checker -/

theorem toTransport_checkerSleeps (s : Lifecycle) : s.checkerSleeps.toTransport = s.toTransport := rfl

theorem transportStep_recoverConsumers (hpc : s.checker = .sleeping) :
    TransportStep s .checkerWakes s.recoverConsumers.toTransport := by
  rw [recoverConsumers]
  split
  · exact .same
  · rename_i hnone
    exact .reset rfl (.inl hpc) (closeRabbitmqConnection_eq_none.mp hnone)

theorem transportStep_checkerWakes (hpc : s.checker = .sleeping) :
    TransportStep s .checkerWakes (s.checkerWakes timing).toTransport := by
  rw [checkerWakes]
  split
  · exact transportStep_recoverConsumers hpc
  · split
    · exact transportStep_recoverConsumers hpc
    · split
      · exact .same
      · split
        · exact .same
        · rw [recoverConsumers]
          dsimp only
          split
          · exact .same
          · rename_i hnone
            exact .reset rfl (.inl hpc) (closeRabbitmqConnection_eq_none.mp hnone)

theorem transportStep_dropping {pc : ClosePc} {reply : Reply} {count : Nat} (hpc : s.checker = .dropping pc) :
    TransportStep s (.checker reply count) (s.droppingReplied pc reply).toTransport := by
  rw [droppingReplied]
  rcases closeReplied_cases s.toTransport pc reply with
    ⟨c, c₀, rfl, hconn, ⟨rfl, heq⟩ | ⟨rfl, heq⟩⟩ | heq | ⟨t, hcloses, heq⟩
  · rw [heq]
    exact .closeChannel (.dropping hpc) hconn
  · rw [heq]
    exact .same
  · rw [heq]
    dsimp only
    rw [dropped]
    split
    · exact .request
    · rename_i hgone
      exact .reset rfl (.inr ⟨pc, hpc⟩) (Bool.not_eq_true _ ▸ hgone)
  · rw [heq]
    dsimp only
    rw [dropped, if_neg]
    · exact .dropped (.dropping hpc) rfl hpc hcloses
    · have hgone : t.forgetConnection.hasTransport = false := hcloses.hasTransport
      intro hsome
      rw [hgone] at hsome
      cases hsome

theorem transportStep_failing {pc : ClosePc} {reply : Reply} {count : Nat} (hpc : s.checker = .failing pc) :
    TransportStep s (.checker reply count) (s.failingReplied pc reply).toTransport := by
  have hclose : TransportStep s (.checker reply count) (s.closeReplied pc reply).1 :=
    transportStep_closeReplied (.failing hpc)
  rw [failingReplied]
  dsimp only
  split
  · exact hclose
  · exact hclose

theorem transportStep_declareNext {c : Nat} (he : e.ofChecker = true) (hopened : s.checker.opened = some c)
    {queues : EntityType → Option Nat} (t : EntityType) (rest pending : List EntityType) :
    TransportStep s e ({ s with queues := queues }.declareNext c t rest pending).toTransport := by
  rw [declareNext]
  split
  · exact .same
  · exact .adoptFailed he hopened

theorem toTransport_consumeNext (s : Lifecycle) (c : Nat) (pending types : List EntityType) :
    (s.consumeNext c pending types).toTransport = s.toTransport := by
  rcases consumeNext_cases s c pending types with heq | ⟨q, t, rest, _, _, _, heq⟩
  · rw [heq, toTransport_checkerSleeps]
  · rw [heq]

theorem transportStep_checkerSucceeds (h : s.Phases) {count : Nat}
    (hstep : s.checkerSucceeds count = some s') :
    TransportStep s (.checker .success count) s'.toTransport := by
  rw [checkerSucceeds] at hstep
  cases hpc : s.checker with
  | absent | sleeping | exited => rw [hpc] at hstep; cases hstep
  | dropping pc =>
    rw [hpc] at hstep
    cases hstep
    exact transportStep_dropping hpc
  | failing pc =>
    rw [hpc] at hstep
    cases hstep
    exact transportStep_failing hpc
  | connecting | openingChannel c =>
    rw [hpc] at hstep
    cases hstep
    exact .same
  | inspecting c t rest pending =>
    have hgone : s.hasTransport = false := h.unplugged (by rw [hpc]; rfl)
    rw [hpc] at hstep
    dsimp only at hstep
    generalize (if 0 < count then pending ++ [t] else pending) = pending' at hstep
    cases rest with
    | cons t rest =>
      cases hstep
      exact .same
    | nil =>
      dsimp only at hstep
      split at hstep
      · cases hstep
        exact .same
      · cases hstep
        exact .adopt rfl hpc hgone
  | settingQos c pending =>
    have hopened : s.checker.opened = some c := by rw [hpc]; rfl
    rw [hpc] at hstep
    cases hstep
    rw [← hpc]
    exact transportStep_declareNext rfl hopened _ _ _
  | declaring c q t rest pending =>
    have hopened : s.checker.opened = some c := by rw [hpc]; rfl
    rw [hpc] at hstep
    cases rest with
    | cons t rest =>
      cases hstep
      rw [← hpc]
      exact transportStep_declareNext rfl hopened _ _ _
    | nil =>
      cases hstep
      rw [toTransport_consumeNext]
      exact .same
  | consuming c q t rest pending =>
    have htag := h.recovering c q t rest pending hpc
    rw [hpc] at hstep
    cases hstep
    rw [toTransport_consumeNext]
    exact .register (.checker hpc) htag
  | closingTempChannel c =>
    rw [hpc] at hstep
    cases hstep
    exact .tempChannelClosed rfl hpc
  | closingTempConnection c =>
    rw [hpc] at hstep
    cases hstep
    exact .tempConnectionClosed rfl hpc

theorem transportStep_checkerFails {reply : Reply} {count : Nat} (hstep : s.checkerFails reply = some s') :
    TransportStep s (.checker reply count) s'.toTransport := by
  rw [checkerFails] at hstep
  cases hpc : s.checker with
  | absent | sleeping | exited => rw [hpc] at hstep; cases hstep
  | dropping pc =>
    rw [hpc] at hstep
    cases hstep
    exact transportStep_dropping hpc
  | failing pc =>
    rw [hpc] at hstep
    cases hstep
    exact transportStep_failing hpc
  | connecting | openingChannel c =>
    rw [hpc] at hstep
    cases hstep
    exact .request
  | inspecting c t rest pending | settingQos c pending | declaring c q t rest pending
  | consuming c q t rest pending | closingTempChannel c | closingTempConnection c =>
    have hopened : s.checker.opened = some c := by rw [hpc]; rfl
    rw [hpc] at hstep
    cases hstep
    exact .adoptFailed rfl hopened

/-! ### Startup and shutdown -/

theorem toTransport_cancelAll (s : Lifecycle) : s.cancelAll.toTransport = s.toTransport := by
  rw [cancelAll]
  split <;> rfl

theorem toTransport_cancelAllConsumers (s : Lifecycle) : s.cancelAllConsumers.toTransport = s.toTransport := by
  rw [cancelAllConsumers]
  split
  · exact toTransport_cancelAll _
  · rfl

theorem transportStep_mainCloses {pc : ClosePc} {reply : Reply} (hpc : s.main = .closing pc) :
    TransportStep s (.main reply) (s.mainCloses pc reply).toTransport := by
  have hclose : TransportStep s (.main reply) (s.closeReplied pc reply).1 :=
    transportStep_closeReplied (.main hpc)
  rw [mainCloses]
  dsimp only
  split
  · exact hclose
  · exact hclose

theorem transportStep_mainSucceeds (h : s.Phases) (hstep : s.mainSucceeds = some s') :
    TransportStep s (.main .success) s'.toTransport := by
  rw [mainSucceeds] at hstep
  cases hpc : s.main with
  | starting | settingQos c =>
    rw [hpc] at hstep
    cases hstep
    exact .same
  | connecting retry =>
    rw [hpc] at hstep
    cases hstep
    exact .connect rfl hpc
  | openingChannel c =>
    rw [hpc] at hstep
    cases hstep
    exact .openChannel rfl hpc
  | declaring c t rest =>
    rw [hpc] at hstep
    cases rest with
    | cons t rest => cases hstep; exact .same
    | nil => cases hstep; exact .startWatch rfl hpc
  | consuming c t rest =>
    have htag := (h.consuming c t rest hpc).2 t List.mem_cons_self
    rw [hpc] at hstep
    cases rest with
    | nil => cases hstep; exact .register (.main hpc) htag
    | cons u rest => cases hstep; exact .register (.main hpc) htag
  | running =>
    rw [hpc] at hstep
    cases hstep
    split
    · rw [toTransport_cancelAllConsumers]
      exact .same
    · exact .same
  | stoppingTimers pending =>
    rw [hpc] at hstep
    dsimp only at hstep
    split at hstep
    · cases hstep
      rw [timersStopped, toTransport_cancelAll]
      exact .same
    · cases hstep
  | stoppingConsumers pending =>
    rw [hpc] at hstep
    dsimp only at hstep
    split at hstep
    · cases hstep
      exact .same
    · cases hstep
  | stoppingChecker =>
    rw [hpc] at hstep
    dsimp only at hstep
    split at hstep
    · split at hstep <;> cases hstep <;> exact .same
    · cases hstep
  | closing pc =>
    rw [hpc] at hstep
    cases hstep
    exact transportStep_mainCloses hpc
  | exited => rw [hpc] at hstep; cases hstep

theorem transportStep_mainFails {reply : Reply} (hstep : s.mainFails reply = some s') :
    TransportStep s (.main reply) s'.toTransport := by
  rw [mainFails] at hstep
  cases hpc : s.main with
  | connecting retry =>
    rw [hpc] at hstep
    dsimp only at hstep
    split at hstep <;> cases hstep <;> exact .same
  | starting | openingChannel c | settingQos c | declaring c t rest | consuming c t rest =>
    rw [hpc] at hstep
    cases hstep
    exact .same
  | closing pc =>
    rw [hpc] at hstep
    cases hstep
    exact transportStep_mainCloses hpc
  | running | stoppingTimers pending | stoppingConsumers pending | stoppingChecker | exited =>
    rw [hpc] at hstep
    cases hstep

theorem transportStep_mainCancelled : TransportStep s e s.mainCancelled.toTransport := by
  rw [mainCancelled]
  split
  · rw [toTransport_cancelAllConsumers]
    exact .same
  · exact .same
  · exact .same
  · exact .same

/-- Every step changes the transport in one of these ways. -/
theorem transport_step (h : s.Phases) (hstep : s.step timing e = some s') :
    TransportStep s e s'.toTransport := by
  cases e with
  | tick seconds => cases hstep; exact .same
  | shutdown => cases hstep; exact .same
  | main reply =>
    cases reply with
    | success => exact transportStep_mainSucceeds h hstep
    | failure => exact transportStep_mainFails hstep
    | timedOut => exact transportStep_mainFails hstep
  | mainCancelled => cases hstep; exact transportStep_mainCancelled
  | checkerWakes =>
    obtain ⟨⟨hpc, _⟩, heq⟩ := Option.ite_none_right_eq_some.mp hstep
    cases heq
    exact transportStep_checkerWakes hpc
  | checker reply count =>
    obtain ⟨_, heq⟩ := Option.ite_none_left_eq_some.mp hstep
    cases reply with
    | success => exact transportStep_checkerSucceeds h heq
    | failure => exact transportStep_checkerFails heq
    | timedOut => exact transportStep_checkerFails heq
  | checkerInterrupted =>
    obtain ⟨_, heq⟩ := Option.ite_none_right_eq_some.mp hstep
    cases heq
    exact .same
  | taskWakes id =>
    obtain ⟨_, heq⟩ := Option.ite_none_right_eq_some.mp hstep
    cases heq
    rw [taskWakes]
    split
    · split
      · exact transportStep_cancelConsumer id _
      · exact .same
    · exact transportStep_cancelConsumer id _
  | task id reply =>
    obtain ⟨hcancelled, heq⟩ := Option.ite_none_left_eq_some.mp hstep
    exact transportStep_task (Bool.not_eq_true _ ▸ hcancelled) heq
  | taskInterrupted id =>
    obtain ⟨_, heq⟩ := Option.ite_none_right_eq_some.mp hstep
    exact transportStep_taskInterrupted heq
  | deliver t message =>
    obtain ⟨_, heq⟩ := Option.ite_none_right_eq_some.mp hstep
    cases heq
    rw [toTransport_handler]
    exact .same
  | settled t outcome =>
    obtain ⟨_, heq⟩ := Option.ite_none_right_eq_some.mp hstep
    cases heq
    cases outcome <;> exact .same

/-! ### What the transport becomes -/

/-- Only a recovery that has lost its transport clears the flag. -/
theorem TransportStep.clears {t : Transport} (h : TransportStep s e t)
    (hset : s.consumerRecoveryRequested = true) :
    t.consumerRecoveryRequested = true ∨
      e.ofChecker = true ∧ (s.checker = .sleeping ∨ ∃ p, s.checker = .dropping p) ∧ t.hasTransport = false ∧
        ∀ u, t.consumerTags u ≠ none → t.consumerTags = s.consumerTags ∧ s.hasTransport = false := by
  cases h with
  | same | closeChannel _ _ | connect _ _ | openChannel _ _ | startWatch _ _ | register _ _ | adopt _ _ _
  | tempChannelClosed _ _ | tempConnectionClosed _ _ => exact .inl hset
  | request | adoptFailed _ _ => exact .inl rfl
  | cancel _ _ =>
    rw [forgetConsumer]
    split <;> exact .inl hset
  | closed _ hcloses => cases hcloses <;> exact .inl hset
  | dropped _ he hpc hcloses => exact .inr ⟨he, .inr ⟨_, hpc⟩, hcloses.hasTransport, fun u hu => absurd rfl hu⟩
  | reset he hpc hgone => exact .inr ⟨he, hpc, hgone, fun u _ => ⟨rfl, hgone⟩⟩

/-- Consumers are those there were, and the one that is heard of. -/
theorem TransportStep.registered {t : Transport} (h : TransportStep s e t) {u : EntityType}
    (hu : t.consumerTags u ≠ none) :
    t.consumerTags u = s.consumerTags u ∨ ∃ q, HearsConsume s e u q ∧ t = s.registerConsumer s.now u q := by
  cases h with
  | same | request | closeChannel _ _ | reset _ _ _ | connect _ _ | openChannel _ _ | startWatch _ _ | adopt _ _ _
  | adoptFailed _ _ | tempChannelClosed _ _ | tempConnectionClosed _ _ => exact .inl rfl
  | @cancel id q tag _ _ =>
    rcases forgetConsumer_consumerTags (s := s.confirmCancel q (s.tasks id).dataType) (s.tasks id).dataType tag u with
      heq | ⟨_, heq⟩
    · exact .inl heq
    · exact absurd heq hu
  | closed _ hcloses => exact absurd rfl hu
  | dropped _ _ _ hcloses => exact absurd rfl hu
  | @register _ v q hhears hnone =>
    by_cases huv : u = v
    · subst huv
      exact .inr ⟨q, hhears, rfl⟩
    · exact .inl (Function.update_of_ne huv _ s.consumerTags)

/-! ## The timers -/

/-- The shutdown cancels of `cancel_all_consumers`, one for each consumer. -/
def shutdownCancels (s : Lifecycle) : List CancelTask :=
  (musicbrainzDataTypes.filter fun t => (s.consumerTags t).isSome).map fun t =>
    { kind := .shutdown, dataType := t, queue := s.queues t
      tag := ((s.consumerTags t).map Registration.tag).getD "" }

/-- `consumer_cancel_tasks.clear()`, and the tasks created next. -/
def clearedTimers (s : Lifecycle) : Timers :=
  s.shutdownCancels.foldl Timers.createTask { s.toTimers with consumerCancelTasks := fun _ => none }

/-- The step clears the stored timers. -/
inductive Clears (s : Lifecycle) : Event → Prop
  | gathered {pending : List Nat} : s.main = .stoppingTimers pending → s.allFinished pending = true →
      Clears s (.main .success)
  | noTimers {e : Event} : (∀ t, s.consumerCancelTasks t = none) → Clears s e

/-- `main` stops the service, or is told to. -/
def Stops (s : Lifecycle) (e : Event) : Prop :=
  s.main.stopping = true ∨ s.main = .running ∧ (s.shutdownRequested = true ∨ e = .mainCancelled)

/-- The task that takes its turn. -/
def Event.task? : Event → Option Nat
  | .taskWakes id | .task id _ | .taskInterrupted id => some id
  | _ => none

/-- A timer that cancels uses the tag that is registered, and a task that begins to close has
a transport to close after the step. -/
inductive TimersStep (s : Lifecycle) (after : Transport) : Event → Timers → Prop
  | same {e : Event} : TimersStep s after e s.toTimers
  | setPc {e : Event} {id : Nat} {pc : TaskPc} : e.task? = some id → (s.tasks id).live = true →
      (∀ tag, pc = .cancelling tag → (s.tasks id).kind = .timer →
        (s.consumerTags (s.tasks id).dataType).map Registration.tag = some tag) →
      (∀ p, pc = .closing p → after.closeRabbitmqConnection = some p ∨ after.activeConnection = some p.number) →
      TimersStep s after e (s.setPc id pc)
  | finish {e : Event} {id : Nat} : e.task? = some id → TimersStep s after e (s.finishTask id)
  | drop {t : EntityType} {valid : Bool} :
      TimersStep s after (.deliver t (.record valid)) (s.dropTimer t)
  | schedule {t : EntityType} {message : Message} {queue : Nat} : message.terminal = true →
      s.queues t = some queue →
      TimersStep s after (.deliver t message) (s.scheduleConsumerCancellation t queue)
  | dropAll {e : Event} : e.ofChecker = true → after.hasTransport = false → TimersStep s after e s.dropTimers
  | cancels {e : Event} {ids : List Nat} : s.Stops e → TimersStep s after e (ids.foldl Timers.cancelTask s.toTimers)
  | clear {e : Event} : s.Stops e → Clears s e → TimersStep s after e s.clearedTimers

theorem toTimers_cancelAll (s : Lifecycle) :
    s.cancelAll.toTimers = s.shutdownCancels.foldl Timers.createTask s.toTimers := by
  rw [cancelAll, shutdownCancels, List.foldl_map]
  split
  · rename_i hempty
    rw [List.isEmpty_iff.mp hempty]
    rfl
  · rfl

theorem timersStep_cancelAllConsumers {after : Transport} (hstops : s.Stops e) :
    TimersStep s after e s.cancelAllConsumers.toTimers := by
  rw [cancelAllConsumers]
  split
  · rename_i hempty
    have hclear : s.timersStopped.toTimers = s.clearedTimers := toTimers_cancelAll _
    rw [hclear]
    refine .clear hstops (.noTimers fun t => ?_)
    rw [List.isEmpty_iff, List.filterMap_eq_nil_iff] at hempty
    exact hempty t (mem_musicbrainzDataTypes t)
  · exact .cancels hstops

theorem timersStep_cancelConsumer {after : Transport} (he : e.task? = some id) (tag : String)
    (hlive : (s.tasks id).live = true) (htag : (s.tasks id).kind = .timer →
      (s.consumerTags (s.tasks id).dataType).map Registration.tag = some tag) :
    TimersStep s after e (s.cancelConsumer id tag).toTimers := by
  rw [cancelConsumer]
  split
  · exact .finish he
  · refine .setPc he hlive (fun tag' htag' hkind => ?_) (by rintro _ ⟨⟩)
    cases htag'
    exact htag hkind

theorem timersStep_taskCloses {transport : Transport} {next : Option ClosePc} (he : e.task? = some id)
    (hlive : (s.tasks id).live = true) (hnext : ∀ p, next = some p →
      transport.closeRabbitmqConnection = some p ∨ transport.activeConnection = some p.number) :
    TimersStep s transport e ({ s with toTransport := transport }.taskCloses id next).toTimers := by
  cases next with
  | some pc =>
    refine .setPc he hlive nofun fun p hp => ?_
    cases hp
    exact hnext pc rfl
  | none => exact .finish he

theorem timersStep_taskReplied {reply : Reply} (hcancelled : (s.tasks id).cancelled = false)
    (hstep : s.taskReplied id reply = some s') : TimersStep s s'.toTransport (.task id reply) s'.toTimers := by
  rw [taskReplied] at hstep
  split at hstep
  · rename_i tag q hpc hqueue
    have hlive : (s.tasks id).live = true := CancelTask.live_iff.mpr ⟨by rw [hpc]; rintro ⟨⟩, hcancelled⟩
    cases reply with
    | failure => cases hstep; exact .finish rfl
    | timedOut => cases hstep; exact .finish rfl
    | success =>
      cases hstep
      rw [cancelSucceeds]
      split
      · split
        · rw [toTransport_taskCloses]
          exact timersStep_taskCloses rfl hlive fun p hp => .inl hp
        · exact .finish rfl
      · exact .finish rfl
  · rename_i pc hpc
    have hlive : (s.tasks id).live = true := CancelTask.live_iff.mpr ⟨by rw [hpc]; rintro ⟨⟩, hcancelled⟩
    cases hstep
    rw [toTransport_taskCloses]
    exact timersStep_taskCloses rfl hlive fun p hp => .inr (activeConnection_of_closeReplied hp)
  · cases hstep

theorem timersStep_handler {after : Transport} (t : EntityType) (message : Message) :
    TimersStep s after (.deliver t message) (s.handler timing t message).toTimers := by
  have hschedule : ∀ s₁ : Lifecycle, s₁.toTimers = s.toTimers → s₁.queues = s.queues →
      message.terminal = true →
      TimersStep s after (.deliver t message) (s₁.scheduleIfEnabled timing t).toTimers := by
    intro s₁ heq hqueues hterminal
    rw [scheduleIfEnabled, hqueues]
    split
    · rename_i queue hqueue
      split
      · dsimp only
        rw [heq]
        exact .schedule hterminal hqueue
      · rw [heq]
        exact .same
    · rw [heq]
      exact .same
  rw [handler]
  split
  · exact .same
  · cases message with
    | fileComplete => exact hschedule s rfl rfl rfl
    | extractionComplete => exact hschedule (s.complete t) rfl rfl rfl
    | record valid =>
      rw [operation]
      dsimp only
      split <;> exact .drop
    | unreadable => exact .same

theorem toTimers_consumeNext (s : Lifecycle) (c : Nat) (pending types : List EntityType) :
    (s.consumeNext c pending types).toTimers = s.toTimers := by
  rcases consumeNext_cases s c pending types with heq | ⟨q, t, rest, _, _, _, heq⟩
  · rw [heq]
    rfl
  · rw [heq]

theorem toTimers_declareNext (s : Lifecycle) (c : Nat) (t : EntityType) (rest pending : List EntityType) :
    (s.declareNext c t rest pending).toTimers = s.toTimers := by
  rw [declareNext]
  split <;> rfl

theorem timersStep_recoverConsumers (he : e.ofChecker = true) :
    TimersStep s s.recoverConsumers.toTransport e s.recoverConsumers.toTimers := by
  rw [recoverConsumers]
  split
  · exact .same
  · rename_i hnone
    exact .dropAll he (closeRabbitmqConnection_eq_none.mp hnone)

theorem timersStep_droppingReplied (he : e.ofChecker = true) (pc : ClosePc) (reply : Reply) :
    TimersStep s (s.droppingReplied pc reply).toTransport e (s.droppingReplied pc reply).toTimers := by
  rw [droppingReplied]
  dsimp only
  split
  · exact .same
  · rw [dropped]
    split
    · exact .same
    · rename_i hgone
      exact .dropAll he (Bool.not_eq_true _ ▸ hgone)

theorem toTimers_failingReplied (s : Lifecycle) (pc : ClosePc) (reply : Reply) :
    (s.failingReplied pc reply).toTimers = s.toTimers := by
  rw [failingReplied]
  dsimp only
  split <;> rfl

theorem timersStep_checkerSucceeds {count : Nat} (hstep : s.checkerSucceeds count = some s') :
    TimersStep s s'.toTransport (.checker .success count) s'.toTimers := by
  rw [checkerSucceeds] at hstep
  cases hpc : s.checker with
  | absent | sleeping | exited => rw [hpc] at hstep; cases hstep
  | dropping pc =>
    rw [hpc] at hstep
    cases hstep
    exact timersStep_droppingReplied rfl pc .success
  | failing pc =>
    rw [hpc] at hstep
    cases hstep
    rw [toTimers_failingReplied]
    exact .same
  | connecting | openingChannel c | closingTempChannel c | closingTempConnection c =>
    rw [hpc] at hstep
    cases hstep
    exact .same
  | inspecting c t rest pending =>
    rw [hpc] at hstep
    dsimp only at hstep
    generalize (if 0 < count then pending ++ [t] else pending) = pending' at hstep
    cases rest with
    | cons t rest => cases hstep; exact .same
    | nil =>
      dsimp only at hstep
      split at hstep <;> cases hstep <;> exact .same
  | settingQos c pending =>
    rw [hpc] at hstep
    cases hstep
    rw [toTimers_declareNext]
    exact .same
  | declaring c q t rest pending =>
    rw [hpc] at hstep
    cases rest with
    | cons t rest =>
      cases hstep
      rw [toTimers_declareNext]
      exact .same
    | nil =>
      cases hstep
      rw [toTimers_consumeNext]
      exact .same
  | consuming c q t rest pending =>
    rw [hpc] at hstep
    cases hstep
    rw [toTimers_consumeNext]
    exact .same

theorem timersStep_checkerFails {reply : Reply} {count : Nat} (hstep : s.checkerFails reply = some s') :
    TimersStep s s'.toTransport (.checker reply count) s'.toTimers := by
  rw [checkerFails] at hstep
  cases hpc : s.checker with
  | absent | sleeping | exited => rw [hpc] at hstep; cases hstep
  | dropping pc =>
    rw [hpc] at hstep
    cases hstep
    exact timersStep_droppingReplied rfl pc reply
  | failing pc =>
    rw [hpc] at hstep
    cases hstep
    rw [toTimers_failingReplied]
    exact .same
  | connecting | openingChannel c | inspecting c t rest pending | settingQos c pending
  | declaring c q t rest pending | consuming c q t rest pending | closingTempChannel c
  | closingTempConnection c =>
    rw [hpc] at hstep
    cases hstep
    exact .same

theorem toTimers_mainCloses (s : Lifecycle) (pc : ClosePc) (reply : Reply) :
    (s.mainCloses pc reply).toTimers = s.toTimers := by
  rw [mainCloses]
  dsimp only
  split <;> rfl

theorem timersStep_mainSucceeds (hstep : s.mainSucceeds = some s') :
    TimersStep s s'.toTransport (.main .success) s'.toTimers := by
  rw [mainSucceeds] at hstep
  cases hpc : s.main with
  | starting | connecting retry | openingChannel c | settingQos c =>
    rw [hpc] at hstep
    cases hstep
    exact .same
  | declaring c t rest | consuming c t rest =>
    rw [hpc] at hstep
    cases rest <;> cases hstep <;> exact .same
  | running =>
    rw [hpc] at hstep
    cases hstep
    split
    · rename_i hshutdown
      exact timersStep_cancelAllConsumers (.inr ⟨hpc, .inl hshutdown⟩)
    · exact .same
  | stoppingTimers pending =>
    rw [hpc] at hstep
    dsimp only at hstep
    split at hstep
    · rename_i hfinished
      cases hstep
      have hclear : s.timersStopped.toTimers = s.clearedTimers := toTimers_cancelAll _
      rw [hclear]
      exact .clear (.inl (by rw [hpc]; rfl)) (.gathered hpc hfinished)
    · cases hstep
  | stoppingConsumers pending =>
    rw [hpc] at hstep
    dsimp only at hstep
    split at hstep
    · cases hstep
      exact .same
    · cases hstep
  | stoppingChecker =>
    rw [hpc] at hstep
    dsimp only at hstep
    split at hstep
    · split at hstep <;> cases hstep <;> exact .same
    · cases hstep
  | closing pc =>
    rw [hpc] at hstep
    cases hstep
    rw [toTimers_mainCloses]
    exact .same
  | exited => rw [hpc] at hstep; cases hstep

theorem timersStep_mainFails {reply : Reply} (hstep : s.mainFails reply = some s') :
    TimersStep s s'.toTransport e s'.toTimers := by
  rw [mainFails] at hstep
  cases hpc : s.main with
  | connecting retry =>
    rw [hpc] at hstep
    dsimp only at hstep
    split at hstep <;> cases hstep <;> exact .same
  | starting | openingChannel c | settingQos c | declaring c t rest | consuming c t rest =>
    rw [hpc] at hstep
    cases hstep
    exact .same
  | closing pc =>
    rw [hpc] at hstep
    cases hstep
    rw [toTimers_mainCloses]
    exact .same
  | running | stoppingTimers pending | stoppingConsumers pending | stoppingChecker | exited =>
    rw [hpc] at hstep
    cases hstep

/-- Every step changes the timers in one of these ways. -/
theorem timers_step (hstep : s.step timing e = some s') : TimersStep s s'.toTransport e s'.toTimers := by
  cases e with
  | tick seconds => cases hstep; exact .same
  | shutdown => cases hstep; exact .same
  | main reply =>
    cases reply with
    | success => exact timersStep_mainSucceeds hstep
    | failure => exact timersStep_mainFails hstep
    | timedOut => exact timersStep_mainFails hstep
  | mainCancelled =>
    cases hstep
    rw [mainCancelled]
    split
    · rename_i hpc
      exact timersStep_cancelAllConsumers (.inr ⟨hpc, .inr rfl⟩)
    · rename_i hpc
      exact .cancels (.inl (by rw [hpc]; rfl))
    · exact .same
    · exact .same
  | checkerWakes =>
    obtain ⟨_, heq⟩ := Option.ite_none_right_eq_some.mp hstep
    cases heq
    rw [checkerWakes]
    split
    · exact timersStep_recoverConsumers rfl
    · split
      · exact timersStep_recoverConsumers rfl
      · split
        · exact .same
        · split
          · exact .same
          · rw [recoverConsumers]
            dsimp only
            split
            · exact .same
            · rename_i hnone
              exact .dropAll rfl (closeRabbitmqConnection_eq_none.mp hnone)
  | checker reply count =>
    obtain ⟨_, heq⟩ := Option.ite_none_left_eq_some.mp hstep
    cases reply with
    | success => exact timersStep_checkerSucceeds heq
    | failure => exact timersStep_checkerFails heq
    | timedOut => exact timersStep_checkerFails heq
  | checkerInterrupted =>
    obtain ⟨_, heq⟩ := Option.ite_none_right_eq_some.mp hstep
    cases heq
    exact .same
  | taskWakes id =>
    obtain ⟨⟨hpc, hcancelled⟩, heq⟩ := Option.ite_none_right_eq_some.mp hstep
    have hlive : (s.tasks id).live = true := CancelTask.live_iff.mpr ⟨by rw [hpc]; rintro ⟨⟩, hcancelled⟩
    cases heq
    rw [taskWakes]
    split
    · split
      · rename_i r hr
        exact timersStep_cancelConsumer rfl _ hlive fun _ => by rw [hr]; rfl
      · exact .finish rfl
    · rename_i hkind
      exact timersStep_cancelConsumer rfl _ hlive fun htimer => by cases hkind.symm.trans htimer
  | task id reply =>
    obtain ⟨hcancelled, heq⟩ := Option.ite_none_left_eq_some.mp hstep
    exact timersStep_taskReplied (Bool.not_eq_true _ ▸ hcancelled) heq
  | taskInterrupted id =>
    obtain ⟨_, heq⟩ := Option.ite_none_right_eq_some.mp hstep
    rw [taskInterrupted] at heq
    split at heq
    · cases heq; exact .finish rfl
    · cases heq; exact .finish rfl
    · cases heq; exact .finish rfl
    · cases heq
  | deliver t message =>
    obtain ⟨_, heq⟩ := Option.ite_none_right_eq_some.mp hstep
    cases heq
    exact timersStep_handler t message
  | settled t outcome =>
    obtain ⟨_, heq⟩ := Option.ite_none_right_eq_some.mp hstep
    cases heq
    cases outcome <;> exact .same

end Lifecycle

end Brainzgraphinator
