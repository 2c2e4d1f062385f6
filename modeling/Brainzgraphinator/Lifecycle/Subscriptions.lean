-- SUMMARY: A registration is forgotten only when the subscription it stands for is confirmed gone.
import Brainzgraphinator.Lifecycle.Bookkeeping
import Brainzgraphinator.Lifecycle.Turns

/-!
# Subscriptions

Tags are the same on every connection, so an entry of `consumerTags` says nothing about
the subscription that made it. `Wiring` is what does: consumers are on the active
connection, and handles that are still about are of it, or of a connection closed.
-/

namespace Brainzgraphinator

namespace Transport

/-- The connection is active, or confirmed closed. -/
def Known (s : Transport) (c : Nat) : Prop := s.activeConnection = some c ∨ s.connectionClosed c = true

/-- No other connection is active. -/
def Current (s : Transport) (c : Nat) : Prop := s.activeConnection = some c ∨ s.activeConnection = none

/-- Channel and consumers are on the active connection. -/
structure Wired (s : Transport) : Prop where
  channel : ∀ c, s.activeChannel = some c → s.activeConnection = some c
  tags : ∀ t r, s.consumerTags t = some r → s.activeConnection = some r.channel

/-- The subscription of `t` behind this entry is confirmed gone. -/
def Ended (s : Transport) (t : EntityType) (r : Registration) : Prop :=
  s.cancelConfirmed r.channel t = true ∨ s.channelClosed r.channel = true ∨
    s.connectionClosed r.channel = true

variable {s s' : Transport} {c : Nat}

theorem Current.eq (h : s.Current c) {c' : Nat} (hc : s.activeConnection = some c') : c = c' := by
  rcases h with heq | heq
  · rw [heq] at hc
    exact Option.some.inj hc
  · rw [heq] at hc
    cases hc

theorem Known.of_open (h : s.Known c) (hopen : s.connectionClosed c = false) : s.activeConnection = some c := by
  rcases h with heq | hclosed
  · exact heq
  · rw [hopen] at hclosed
    cases hclosed

theorem Wired.noConsumers (h : s.Wired) (hnone : s.activeConnection = none) (t : EntityType) :
    s.consumerTags t = none := by
  cases ht : s.consumerTags t with
  | none => rfl
  | some r => cases hnone.symm.trans (h.tags t r ht)

theorem Wired.closeRabbitmqConnection (h : s.Wired) {p : ClosePc} (hclose : s.closeRabbitmqConnection = some p) :
    s.activeConnection = some p.number := by
  rw [Transport.closeRabbitmqConnection] at hclose
  cases hchannel : s.activeChannel with
  | some c =>
    rw [hchannel] at hclose
    cases hclose
    exact h.channel c hchannel
  | none =>
    rw [hchannel] at hclose
    obtain ⟨c, hc, rfl⟩ := Option.map_eq_some_iff.mp hclose
    exact hc

theorem Wired.active_of_closes (h : s.Wired) {p : ClosePc}
    (hp : s.closeRabbitmqConnection = some p ∨ s.activeConnection = some p.number) :
    s.activeConnection = some p.number := by
  rcases hp with hclose | hconn
  · exact h.closeRabbitmqConnection hclose
  · exact hconn

/-- What becomes of the active connection. -/
inductive ConnectionStep (s s' : Transport) (connects : Nat → Prop) : Prop
  | keeps : s'.activeConnection = s.activeConnection →
      (∀ c, s.connectionClosed c = true → s'.connectionClosed c = true) → ConnectionStep s s' connects
  | closes : s'.activeConnection = none → (∀ c, s.Known c → s'.connectionClosed c = true) →
      ConnectionStep s s' connects
  | connects {c : Nat} : s.activeConnection = none → s'.activeConnection = some c →
      s'.connectionClosed = s.connectionClosed → connects c → ConnectionStep s s' connects

variable {connects : Nat → Prop}

theorem ConnectionStep.known (h : ConnectionStep s s' connects) (hknown : s.Known c) : s'.Known c := by
  cases h with
  | keeps hconn hclosed =>
    rcases hknown with heq | hc
    · exact .inl (hconn.trans heq)
    · exact .inr (hclosed c hc)
  | closes _ hclosed => exact .inr (hclosed c hknown)
  | connects hnone _ hclosed _ =>
    rcases hknown with heq | hc
    · cases hnone.symm.trans heq
    · rw [← hclosed] at hc
      exact .inr hc

theorem ConnectionStep.current (h : ConnectionStep s s' connects) (hcurrent : s.Current c)
    (hconnects : ∀ c', connects c' → c' = c) : s'.Current c := by
  cases h with
  | keeps hconn _ =>
    rw [Current, hconn]
    exact hcurrent
  | closes hnone _ => exact .inr hnone
  | connects _ hc _ hwhy => exact .inl (hconnects _ hwhy ▸ hc)

end Transport

namespace Lifecycle

open Transport

variable {timing : Timing} {s s' : Lifecycle} {e : Event} {id : Nat}

/-! ## Assumptions -/

/-- The channel of the call that is heard to have succeeded. -/
def calledChannel (s : Lifecycle) : Event → Option Nat
  | .main .success =>
    match s.main with
    | .settingQos c | .declaring c _ _ | .consuming c _ _ | .closing (.channel c) => some c
    | _ => none
  | .checker .success _ =>
    match s.checker with
    | .inspecting c _ _ _ | .settingQos c _ | .closingTempChannel c | .dropping (.channel c)
    | .failing (.channel c) => some c
    | .declaring _ q _ _ _ | .consuming _ q _ _ _ => some q
    | _ => none
  | .task id .success =>
    match (s.tasks id).pc, (s.tasks id).queue with
    | .cancelling _, some q => some q
    | .closing (.channel c), _ => some c
    | _, _ => none
  | _ => none

/-- No reply for a channel that is already closed is delivered as a success. -/
def NoStaleReply (s : Lifecycle) (e : Event) : Prop :=
  ∀ c ∈ s.calledChannel e, s.channelClosed c = false ∧ s.connectionClosed c = false

instance (s : Lifecycle) (e : Event) : Decidable (s.NoStaleReply e) := by
  unfold NoStaleReply
  infer_instance

/-- A timer that was cleared while it closed a connection hears that it is closed, after
another close of it. -/
def lateClose (s : Lifecycle) : Event → Bool
  | .task id .success =>
    match (s.tasks id).pc with
    | .closing (.connection c) =>
      s.connectionClosed c && musicbrainzDataTypes.all fun t => decide (s.consumerCancelTasks t ≠ some id)
    | _ => false
  | _ => false

/-! ## Wiring -/

structure Wiring (s : Lifecycle) : Prop where
  wired : s.Wired
  queues : ∀ t q, s.queues t = some q → s.Known q
  taskQueues : ∀ id q, (s.tasks id).queue = some q → s.Known q
  closers : ∀ id p, (s.tasks id).pc = .closing p → s.Known p.number
  stored : ∀ p, s.StoredCloser p →
    s.Current p.number ∧ s.checker.unplugged = false ∧ ∀ c, s.checker.adopted = some c → p.number = c
  consuming : ∀ c t rest, s.main = .consuming c t rest → s.Known c
  mainCloses : ∀ p, s.main = .closing p → s.Current p.number ∧ (s.checker = .exited ∨ s.checker = .absent)
  adopted : ∀ c, s.checker.adopted = some c → s.Current c
  checkerCloses : ∀ p, s.checker.closes = some p → s.Current p.number
  checkerQueue : ∀ q, s.checker.queue = some q → s.Known q

/-- Startup opens the only connection, or a recovery has one of its own. -/
def Connects (s : Lifecycle) (c : Nat) : Prop := s.main.opening = true ∨ s.checker.opened = some c

theorem wiring_init (now : Int) : Wiring { now := now } :=
  ⟨⟨nofun, nofun⟩, nofun, nofun, nofun, nofun, nofun, nofun, nofun, nofun, nofun⟩

/-- Whoever hears that a connection is closed closes the active one, if there is any. -/
theorem Wiring.current_of_hearsClose (h : s.Wiring) (hlate : s.lateClose e = false) {c : Nat}
    (hhears : HearsClose s e (.connection c) .success) : s.Current c := by
  generalize hp : ClosePc.connection c = p at hhears
  generalize hr : Reply.success = reply at hhears
  have hnumber : p.number = c := by rw [← hp]; rfl
  cases hhears with
  | main hpc => exact hnumber ▸ (h.mainCloses p hpc).1
  | dropping hpc => exact hnumber ▸ h.checkerCloses p (by rw [hpc]; rfl)
  | failing hpc => exact hnumber ▸ h.checkerCloses p (by rw [hpc]; rfl)
  | @task id _ _ hpc hcancelled =>
    by_cases hstored : ∃ t, s.consumerCancelTasks t = some id
    · obtain ⟨t, ht⟩ := hstored
      exact hnumber ▸ (h.stored p ⟨t, id, ht, hpc, hcancelled⟩).1
    · have hopen : s.connectionClosed c = false := by
        rw [Bool.eq_false_iff]
        intro hclosed
        rw [← hp] at hpc
        rw [← hr, lateClose, hpc] at hlate
        simp only [hclosed, Bool.true_and, List.all_eq_false] at hlate
        obtain ⟨t, _, ht⟩ := hlate
        exact hstored ⟨t, by simpa using ht⟩
      exact .inl ((hnumber ▸ h.closers id p hpc).of_open hopen)

/-- A recovery that has opened a connection has none active, or has adopted this one. -/
theorem Wiring.current_of_opened (hphases : s.Phases) (h : s.Wiring) {c : Nat}
    (hopened : s.checker.opened = some c) : s.Current c := by
  cases hpc : s.checker with
  | inspecting | closingTempChannel | closingTempConnection =>
    have hgone := hphases.unplugged (by rw [hpc]; rfl)
    exact .inr (hasTransport_eq_false.mp hgone).1
  | settingQos c' pending | declaring c' q t rest pending | consuming c' q t rest pending =>
    rw [hpc] at hopened
    cases hopened
    exact h.adopted c (by rw [hpc]; rfl)
  | absent | sleeping | dropping | connecting | openingChannel | failing | exited =>
    rw [hpc] at hopened
    cases hopened

theorem connectionStep_of_closes {t : Transport} {p : ClosePc} {reply : Reply} {connects : Nat → Prop}
    (hcurrent : ∀ c, p = .connection c → reply = .success → s.Current c)
    (hcloses : Closes s.toTransport p reply t) : ConnectionStep s.toTransport t connects := by
  cases hcloses with
  | connection c =>
    refine .closes rfl fun c' hknown => ?_
    by_cases hc : c' = c
    · rw [hc]
      exact Function.update_self c true s.connectionClosed
    · refine (Function.update_of_ne hc true s.connectionClosed).trans ?_
      rcases hknown with heq | hclosed
      · exact absurd ((hcurrent c rfl rfl).eq heq).symm hc
      · exact hclosed
  | channel c _ => exact .keeps rfl fun _ hc => hc
  | noop c _ _ => exact .keeps rfl fun _ hc => hc

theorem Wiring.connectionStep (hphases : s.Phases) (hopen : s.main.opening = true → s.Opening) (h : s.Wiring)
    (hlate : s.lateClose e = false) {t : Transport} (hstep : TransportStep s e t) :
    ConnectionStep s.toTransport t s.Connects := by
  have hcloses : ∀ {p reply}, HearsClose s e p reply → ∀ c, p = .connection c → reply = .success → s.Current c := by
    rintro p reply hhears c rfl rfl
    exact h.current_of_hearsClose hlate hhears
  cases hstep with
  | same | request | reset _ _ _ | openChannel _ _ | startWatch _ _ | register _ _ | closeChannel _ _
  | tempChannelClosed _ _ => exact .keeps rfl fun _ hc => hc
  | cancel _ _ =>
    rw [forgetConsumer]
    split <;> exact .keeps rfl fun _ hc => hc
  | closed hhears hcl =>
    cases connectionStep_of_closes (hcloses hhears) hcl with
    | keeps hconn hclosed => exact .keeps hconn hclosed
    | closes hconn hclosed => exact .closes hconn hclosed
    | connects hnone hconn hclosed hwhy => exact .connects hnone hconn hclosed hwhy
  | dropped hhears _ _ hcl =>
    cases connectionStep_of_closes (hcloses hhears) hcl with
    | keeps hconn hclosed => exact .keeps hconn hclosed
    | closes hconn hclosed => exact .closes hconn hclosed
    | connects hnone hconn hclosed hwhy => exact .connects hnone hconn hclosed hwhy
  | connect _ hpc =>
    have hopening : s.main.opening = true := by rw [hpc]; rfl
    have hconn := (hopen hopening).connection
    rw [hpc] at hconn
    exact .connects hconn rfl rfl (.inl hopening)
  | adopt _ hpc hgone =>
    exact .connects (hasTransport_eq_false.mp hgone).1 rfl rfl (.inr (by rw [hpc]; rfl))
  | @adoptFailed _ c _ hopened =>
    rcases h.current_of_opened hphases hopened with hconn | hnone
    · exact .keeps hconn.symm fun _ hc => hc
    · exact .connects hnone rfl rfl (.inr hopened)
  | @tempConnectionClosed _ c _ _ =>
    refine .keeps rfl fun c' hc' => ?_
    by_cases hc : c' = c
    · rw [hc]
      exact Function.update_self c true s.connectionClosed
    · exact (Function.update_of_ne hc true s.connectionClosed).trans hc'

/-! ## Wiring is kept -/

/-- A consumer is heard of on the active connection. -/
theorem Wiring.current_of_hearsConsume (h : s.Wiring) (hok : s.NoStaleReply e) {t : EntityType} {q : Nat}
    (hhears : HearsConsume s e t q) : s.activeConnection = some q := by
  cases hhears with
  | main hpc =>
    have hopen := hok q (by rw [calledChannel, hpc]; rfl)
    exact (h.consuming _ _ _ hpc).of_open hopen.2
  | checker hpc =>
    have hopen := hok q (by rw [calledChannel, hpc]; rfl)
    exact (h.checkerQueue q (by rw [hpc]; rfl)).of_open hopen.2

theorem wired_forgetConnection {t : Transport} {p : ClosePc} {reply : Reply} (hcloses : Closes s.toTransport p reply t) :
    t.forgetConnection.Wired := by
  refine ⟨fun c hc => ?_, nofun⟩
  have hnone : t.activeChannel = none := (hasTransport_eq_false.mp hcloses.hasTransport).2
  cases hnone.symm.trans hc

theorem Wiring.wired_step (hphases : s.Phases) (hopen : s.main.opening = true → s.Opening) (h : s.Wiring)
    (hok : s.NoStaleReply e) {t : Transport} (hstep : TransportStep s e t) : t.Wired := by
  have hsame : ∀ {t : Transport}, t.activeConnection = s.activeConnection → t.activeChannel = s.activeChannel →
      t.consumerTags = s.consumerTags → t.Wired := by
    intro t hconn hchannel htags
    constructor
    · rw [hconn, hchannel]
      exact h.wired.channel
    · rw [hconn, htags]
      exact h.wired.tags
  cases hstep with
  | same | request | reset _ _ _ | startWatch _ _ | tempChannelClosed _ _ | tempConnectionClosed _ _ =>
    exact hsame rfl rfl rfl
  | @cancel id q tag _ _ =>
    constructor
    · rw [forgetConsumer]
      split <;> exact h.wired.channel
    · intro t r hr
      have hconn : ((s.confirmCancel q (s.tasks id).dataType).forgetConsumer (s.tasks id).dataType tag).activeConnection
          = s.activeConnection := by
        rw [forgetConsumer]
        split <;> rfl
      rw [hconn]
      rcases forgetConsumer_consumerTags (s := s.confirmCancel q (s.tasks id).dataType) (s.tasks id).dataType tag t with
        heq | ⟨_, heq⟩
      · rw [heq] at hr
        exact h.wired.tags t r hr
      · rw [heq] at hr
        cases hr
  | closeChannel _ _ => exact ⟨by rintro _ ⟨⟩, h.wired.tags⟩
  | closed _ hcloses => exact wired_forgetConnection hcloses
  | dropped _ _ _ hcloses =>
    have hclosed := wired_forgetConnection hcloses
    exact ⟨hclosed.channel, hclosed.tags⟩
  | connect _ hpc =>
    have hopening : s.main.opening = true := by rw [hpc]; rfl
    constructor
    · intro c hc
      have hconn := (hopen hopening).channel c hc
      rw [hpc] at hconn
      cases hconn
    · intro t r hr
      cases (hphases.opening hopening t).symm.trans hr
  | openChannel _ hpc =>
    have hopening : s.main.opening = true := by rw [hpc]; rfl
    have hconn := (hopen hopening).connection
    rw [hpc] at hconn
    constructor
    · intro c hc
      cases hc
      exact hconn
    · exact h.wired.tags
  | @register _ t q hhears _ =>
    have hconn := h.current_of_hearsConsume hok hhears
    refine ⟨h.wired.channel, fun u r hr => ?_⟩
    by_cases hu : u = t
    · subst hu
      simp only [registerConsumer, Function.update_self, Option.some.injEq] at hr
      rw [← hr]
      exact hconn
    · simp only [registerConsumer, Function.update_of_ne hu] at hr
      exact h.wired.tags u r hr
  | adopt _ _ hgone =>
    refine ⟨fun _ hc => hc, fun t r hr => ?_⟩
    cases (h.wired.noConsumers (hasTransport_eq_false.mp hgone).1 t).symm.trans hr
  | @adoptFailed _ c _ hopened =>
    refine ⟨fun _ hc => hc, fun t r hr => ?_⟩
    exact congrArg some ((h.current_of_opened hphases hopened).eq (h.wired.tags t r hr))

/-- What is said of all tasks, if it can be said of new tasks and of those that go on. -/
theorem TimersStep.forall_tasks {P : CancelTask → Prop} {after : Transport} {timers : Timers}
    (hstep : TimersStep s after e timers) (hP : Timers.Stable P) (h : ∀ id, P (s.tasks id))
    (hpc : ∀ task pc, P task → (∀ p, pc = .closing p → after.closeRabbitmqConnection = some p ∨
      after.activeConnection = some p.number) → P { task with pc := pc })
    (hnew : ∀ task : CancelTask, task.queue = s.queues task.dataType → task.pc = .waiting → P task) :
    ∀ id, P (timers.tasks id) := by
  cases hstep with
  | same => exact h
  | setPc _ _ _ hcloses => exact Timers.forall_setTask h (hpc _ _ (h _) hcloses)
  | finish _ => exact hP.finishTask h _
  | drop => exact hP.dropTimer h _
  | @schedule t message queue _ hqueue =>
    have htask : P { kind := .timer, dataType := t, queue := some queue } := hnew _ hqueue.symm rfl
    exact Timers.forall_createTask (hP.dropTimer h t) htask
  | dropAll _ _ => exact hP.dropTimers h
  | cancels _ =>
    exact List.foldlRecOn (motive := fun s' : Timers => ∀ id, P (s'.tasks id)) _ _ h
      fun _ hs id _ => hP.cancelTask hs id
  | clear _ _ =>
    rw [clearedTimers]
    refine List.foldlRecOn (motive := fun s' : Timers => ∀ id, P (s'.tasks id)) _ _ h fun _ hs task htask => ?_
    obtain ⟨t, _, rfl⟩ := List.mem_map.mp htask
    exact Timers.forall_createTask hs (hnew _ rfl rfl)

/-- A stored timer closes what it closed before, or what is there to be closed. -/
theorem TimersStep.storedCloser {after : Transport} {timers : Timers} (hstep : TimersStep s after e timers)
    {p : ClosePc} (hcloser : timers.StoredCloser p) :
    s.StoredCloser p ∨ after.closeRabbitmqConnection = some p ∨ after.activeConnection = some p.number := by
  cases hstep with
  | same => exact .inl hcloser
  | @setPc _ id pc _ hlive _ hcloses =>
    by_cases hpc : pc = .closing p
    · exact .inr (hcloses p hpc)
    · exact .inl (Timers.StoredCloser.of_setTask hcloser fun hcl => absurd hcl hpc)
  | finish _ => exact .inl hcloser.of_finishTask
  | drop => exact .inl hcloser.of_dropTimer
  | schedule _ _ => exact .inl hcloser.of_schedule
  | dropAll _ _ => exact absurd hcloser (Timers.not_storedCloser_dropTimers _ p)
  | cancels _ => exact .inl (hcloser.of_cancelTasks _)
  | clear _ _ =>
    obtain ⟨t, id, hstored, _⟩ := hcloser
    rw [consumerCancelTasks_clearedTimers] at hstored
    cases hstored

/-- A handle of the queue that is new was declared on a connection that is known. -/
theorem Wiring.queues_step (hopen : s.main.opening = true → s.Opening) (h : s.Wiring)
    (hstep : TablesStep s s' e) {t : EntityType} {q : Nat} (hq : s'.queues t = some q) : s.Known q := by
  cases hstep with
  | same hkeeps | tick hkeeps | shutdown hkeeps | completes _ hkeeps | uncompletes hkeeps | recovers _ hkeeps =>
    rw [hkeeps.queues] at hq
    exact h.queues t q hq
  | @settles _ outcome _ hkeeps =>
    rw [hkeeps.queues] at hq
    cases outcome <;> exact h.queues t q hq
  | forgets hkeeps _ =>
    rw [hkeeps.queues] at hq
    cases hq
  | @declares _ q' u hkeeps hpc =>
    rw [hkeeps.queues] at hq
    by_cases hu : t = u
    · subst hu
      simp only [Function.update_self, Option.some.injEq] at hq
      subst hq
      rcases hpc with ⟨rest, hmain⟩ | ⟨c, rest, pending, hchecker⟩
      · have hconn := (hopen (by rw [hmain]; rfl)).connection
        rw [hmain] at hconn
        exact .inl hconn
      · exact h.checkerQueue q' (by rw [hchecker]; rfl)
    · simp only [Function.update_of_ne hu] at hq
      exact h.queues t q hq

theorem Wiring.current_step (hphases : s.Phases) (hopen : s.main.opening = true → s.Opening) (h : s.Wiring)
    (hlate : s.lateClose e = false) (hstep : s.step timing e = some s') {c : Nat} (hcurrent : s.Current c)
    (hmain : s.main.opening = false) (hopened : ∀ c', s.checker.opened = some c' → c' = c) : s'.Current c := by
  refine (h.connectionStep hphases hopen hlate (transport_step hphases hstep)).current hcurrent fun c' hc' => ?_
  rcases hc' with hopening | hc'
  · rw [hmain] at hopening
    cases hopening
  · exact hopened c' hc'

/-- While the checker is there, the startup is over. -/
theorem Phases.opened (h : s.Phases) (hpresent : s.checker ≠ .absent) : s.main.opening = false := by
  rw [Bool.eq_false_iff]
  exact fun hopening => hpresent (h.startup (MainPc.startup_of_opening hopening))

theorem Wiring.known_step (hphases : s.Phases) (hopen : s.main.opening = true → s.Opening) (h : s.Wiring)
    (hlate : s.lateClose e = false) (hstep : s.step timing e = some s') {c : Nat} (hc : s.Known c) : s'.Known c :=
  (h.connectionStep hphases hopen hlate (transport_step hphases hstep)).known hc

/-- The tasks deal with connections that were opened. -/
theorem Wiring.tasks_step (hphases : s.Phases) (hopen : s.main.opening = true → s.Opening) (h : s.Wiring)
    (hwired : s'.Wired) (hlate : s.lateClose e = false) (hstep : s.step timing e = some s') (id : Nat) :
    (∀ q, (s'.tasks id).queue = some q → s'.Known q) ∧ ∀ p, (s'.tasks id).pc = .closing p → s'.Known p.number := by
  have hknown : ∀ c, s.Known c → s'.Known c := fun _ => h.known_step hphases hopen hlate hstep
  have hstable : Timers.Stable fun task : CancelTask => (∀ q, task.queue = some q → s'.Known q) ∧
      ∀ p, task.pc = .closing p → s'.Known p.number :=
    ⟨fun _ htask => htask, fun _ htask => ⟨htask.1, by rintro p ⟨⟩⟩⟩
  refine (timers_step hstep).forall_tasks hstable ?_ ?_ ?_ id
  · exact fun id => ⟨fun q hq => hknown q (h.taskQueues id q hq), fun p hp => hknown _ (h.closers id p hp)⟩
  · exact fun task pc htask hcloses => ⟨htask.1, fun p hp => .inl (hwired.active_of_closes (hcloses p hp))⟩
  · intro task hqueue hpc
    refine ⟨fun q hq => hknown q (h.queues _ q (hqueue ▸ hq)), fun p hp => ?_⟩
    cases hpc.symm.trans hp

theorem Wiring.adopted_step (hphases : s.Phases) (hopen : s.main.opening = true → s.Opening) (h : s.Wiring)
    (hlate : s.lateClose e = false) (hstep : s.step timing e = some s') {c : Nat}
    (hc : s'.checker.adopted = some c) : s'.Current c := by
  rcases (turn_step hstep).checker.adopted hc with hold | hconn
  · refine h.current_step hphases hopen hlate hstep (h.adopted c hold) (hphases.opened ?_) ?_
    · intro habsent
      rw [habsent] at hold
      cases hold
    · exact fun c' hc' => Option.some.inj (hc'.symm.trans (CheckerPc.opened_of_adopted hold))
  · rw [hconn.2]
    exact .inl rfl

/-- A stored timer that closes, closes what is active, and no recovery has another connection. -/
theorem Wiring.stored_step (hphases : s.Phases) (hopen : s.main.opening = true → s.Opening) (h : s.Wiring)
    (hwired : s'.Wired) (hlate : s.lateClose e = false) (hstep : s.step timing e = some s') {p : ClosePc}
    (hcloser : s'.StoredCloser p) :
    s'.Current p.number ∧ s'.checker.unplugged = false ∧ ∀ c, s'.checker.adopted = some c → p.number = c := by
  have hturn := turn_step hstep
  have hunplugged : s'.checker.unplugged = true → s.checker.unplugged = true := by
    intro hu
    rcases hturn.checker.unplugged hu with hold | hdrop
    · exact hold
    · rw [hdrop] at hcloser
      exact absurd hcloser (Timers.not_storedCloser_dropTimers _ p)
  -- It was stored before, or it has just begun to close what it finds active.
  rcases (timers_step hstep).storedCloser hcloser with hold | hnew
  · obtain ⟨hcurrent, hplugged, hnumber⟩ := h.stored p hold
    have hmain : s.main.opening = false := by
      rw [Bool.eq_false_iff]
      intro hopening
      obtain ⟨_, id, _, hpc, _⟩ := hold
      cases ((hopen hopening).tasks id).symm.trans hpc
    refine ⟨?_, ?_, ?_⟩
    · refine h.current_step hphases hopen hlate hstep hcurrent hmain fun c' hc' => ?_
      exact (hnumber c' (CheckerPc.adopted_of_opened hc' hplugged)).symm
    · rw [Bool.eq_false_iff]
      intro hu
      rw [hunplugged hu] at hplugged
      cases hplugged
    · intro c hc
      rcases hturn.checker.adopted hc with hold | ⟨hu, _⟩
      · exact hnumber c hold
      · rw [hu] at hplugged
        cases hplugged
  · have hconn := hwired.active_of_closes hnew
    refine ⟨.inl hconn, ?_, fun c hc => ((h.adopted_step hphases hopen hlate hstep hc).eq hconn).symm⟩
    rw [Bool.eq_false_iff]
    intro hu
    cases (hasTransport_eq_false.mp ((hphases.step hstep).unplugged hu)).1.symm.trans hconn

theorem Wiring.consuming_step (hphases : s.Phases) (hopen : s.main.opening = true → s.Opening) (h : s.Wiring)
    (hlate : s.lateClose e = false) (hstep : s.step timing e = some s') {c : Nat} {t : EntityType}
    {rest : List EntityType} (hpc : s'.main = .consuming c t rest) : s'.Known c := by
  have hmain := (turn_step hstep).main
  rw [hpc] at hmain
  refine h.known_step hphases hopen hlate hstep ?_
  -- The first consumer comes after the last queue is declared, any other one after the one before it.
  rcases hmain.consuming with ⟨u, hold, _⟩ | ⟨u, rest', hold, _⟩ | hold
  · have hconn := (hopen (by rw [hold]; rfl)).connection
    rw [hold] at hconn
    exact .inl hconn
  · exact h.consuming c u rest' hold
  · exact h.consuming c t rest hold

/-- The teardown of `main` closes what is active, with the checker gone. -/
theorem Wiring.mainCloses_step (hphases : s.Phases) (hopen : s.main.opening = true → s.Opening) (h : s.Wiring)
    (hwired : s'.Wired) (hlate : s.lateClose e = false) (hstep : s.step timing e = some s') {p : ClosePc}
    (hpc : s'.main = .closing p) : s'.Current p.number ∧ (s'.checker = .exited ∨ s'.checker = .absent) := by
  have hturn := turn_step hstep
  have hmain := hturn.main
  rw [hpc] at hmain
  rcases hmain.closing with hold | ⟨hwhy, hclose⟩
  · obtain ⟨hcurrent, hgone⟩ := h.mainCloses p hold
    refine ⟨h.current_step hphases hopen hlate hstep hcurrent (by rw [hold]; rfl) fun c' hc' => ?_,
      hturn.checker.gone (by rw [hold]; rfl) hgone⟩
    rcases hgone with hpc' | hpc' <;> rw [hpc'] at hc' <;> cases hc'
  · refine ⟨.inl (hwired.active_of_closes hclose), ?_⟩
    rcases hwhy with ⟨hold, hgone⟩ | ⟨p₀, hold⟩
    · exact hturn.checker.gone (by rw [hold]; rfl) hgone
    · exact hturn.checker.gone (by rw [hold]; rfl) (h.mainCloses p₀ hold).2

theorem Wiring.checkerCloses_step (hphases : s.Phases) (hopen : s.main.opening = true → s.Opening) (h : s.Wiring)
    (hwired : s'.Wired) (hlate : s.lateClose e = false) (hstep : s.step timing e = some s') {p : ClosePc}
    (hp : s'.checker.closes = some p) : s'.Current p.number := by
  rcases (turn_step hstep).checker.closing hp with hold | hnew
  · refine h.current_step hphases hopen hlate hstep (h.checkerCloses p hold) (hphases.opened ?_) fun c' hc' => ?_
    · intro habsent
      rw [habsent] at hold
      cases hold
    · rw [CheckerPc.opened_of_closes hold] at hc'
      cases hc'
  · exact .inl (hwired.active_of_closes hnew)

theorem Wiring.step (hphases : s.Phases) (hopen : s.main.opening = true → s.Opening) (h : s.Wiring)
    (hok : s.NoStaleReply e) (hlate : s.lateClose e = false) (hstep : s.step timing e = some s') : s'.Wiring := by
  have hturn := turn_step hstep
  have hwired := h.wired_step hphases hopen hok (transport_step hphases hstep)
  have hknown : ∀ c, s.Known c → s'.Known c := fun _ => h.known_step hphases hopen hlate hstep
  have hqueues : ∀ t q, s'.queues t = some q → s'.Known q := fun t q hq =>
    hknown q (h.queues_step hopen hturn.tables hq)
  have htasks := h.tasks_step hphases hopen hwired hlate hstep
  exact {
    wired := hwired
    queues := hqueues
    taskQueues := fun id => (htasks id).1
    closers := fun id => (htasks id).2
    stored := fun p => h.stored_step hphases hopen hwired hlate hstep
    consuming := fun c t rest => h.consuming_step hphases hopen hlate hstep
    mainCloses := fun p => h.mainCloses_step hphases hopen hwired hlate hstep
    adopted := fun c => h.adopted_step hphases hopen hlate hstep
    checkerCloses := fun p => h.checkerCloses_step hphases hopen hwired hlate hstep
    checkerQueue := by
      intro q hq
      rcases hturn.checker.queue hq with hold | hchannel | ⟨t, ht⟩
      · exact hknown q (h.checkerQueue q hold)
      · exact hknown q (.inl (h.wired.channel q hchannel))
      · exact hqueues t q ht }

theorem opening_of_run {ok : Lifecycle → Event → Prop} {now : Int} {es : List Event}
    (h : Runs.Run (step timing) ok { now := now } es s) (hopening : s.main.opening = true) : s.Opening := by
  induction h with
  | nil => exact opening_init now
  | snoc hrun _ hstep ih =>
    have hbefore := (turn_step hstep).main.opening hopening
    exact (ih hbefore).step (phases_of_run hrun) hstep hbefore hopening

theorem wiring_of_run {now : Int} {es : List Event}
    (h : Runs.Run (step timing) (fun s e => s.NoStaleReply e ∧ s.lateClose e = false) { now := now } es s) :
    s.Wiring := by
  induction h with
  | nil => exact wiring_init now
  | snoc hrun hok hstep ih =>
    exact ih.step (phases_of_run hrun) (opening_of_run hrun) hok.1 hok.2 hstep

/-! ## Registrations -/

/-- A cancel of a consumer ends without a confirmation. -/
inductive UnconfirmedCancel (s : Lifecycle) : Event → Prop
  | failed {id : Nat} {tag : String} {reply : Reply} : (s.tasks id).pc = .cancelling tag → reply ≠ .success →
      UnconfirmedCancel s (.task id reply)
  | interrupted {id : Nat} {tag : String} : (s.tasks id).pc = .cancelling tag →
      UnconfirmedCancel s (.taskInterrupted id)
  | handleMissing {id : Nat} : (s.tasks id).queue = none →
      ((s.tasks id).kind = .shutdown ∨ s.consumerTags (s.tasks id).dataType ≠ none) →
      UnconfirmedCancel s (.taskWakes id)

/-- A recovery goes on to reconnect: transport and registrations are gone. -/
def Reconnects (s : Lifecycle) : Prop :=
  s.checker = .connecting ∧ s.hasTransport = false ∧ ∀ t, s.consumerTags t = none

theorem ended_of_closes (h : s.Wired) {p : ClosePc} {reply : Reply} {t : Transport}
    (hcurrent : ∀ c, p = .connection c → reply = .success → s.Current c)
    (hcloses : Closes s.toTransport p reply t) {u : EntityType} {r : Registration}
    (hr : s.consumerTags u = some r) : t.connectionClosed r.channel = true := by
  have hconn := h.tags u r hr
  cases hcloses with
  | connection c =>
    rw [← (hcurrent c rfl rfl).eq hconn]
    exact Function.update_self c true s.connectionClosed
  | channel c hnone => cases hnone.symm.trans hconn
  | noop c hnone _ => cases hnone.symm.trans hconn

theorem Wiring.kept_or_ended (h : s.Wiring) (hok : s.NoStaleReply e) (hlate : s.lateClose e = false) {t : Transport}
    (hstep : TransportStep s e t) {u : EntityType} {r : Registration} (hr : s.consumerTags u = some r) :
    t.consumerTags u = some r ∨ t.consumerTags u = none ∧ t.Ended u r := by
  have hcurrent : ∀ {p reply}, HearsClose s e p reply → ∀ c, p = .connection c → reply = .success → s.Current c := by
    rintro p reply hhears c rfl rfl
    exact h.current_of_hearsClose hlate hhears
  cases hstep with
  | same | request | closeChannel _ _ | reset _ _ _ | connect _ _ | openChannel _ _ | startWatch _ _ | adopt _ _ _
  | adoptFailed _ _ | tempChannelClosed _ _ | tempConnectionClosed _ _ => exact .inl hr
  | closed hhears hcloses => exact .inr ⟨rfl, .inr (.inr (ended_of_closes h.wired (hcurrent hhears) hcloses hr))⟩
  | dropped hhears _ _ hcloses => exact .inr ⟨rfl, .inr (.inr (ended_of_closes h.wired (hcurrent hhears) hcloses hr))⟩
  | @register _ t q _ hnone =>
    have hne : u ≠ t := by
      intro heq
      rw [heq, hnone] at hr
      cases hr
    exact .inl ((Function.update_of_ne hne _ s.consumerTags).trans hr)
  | @cancel id q tag hpc hqueue =>
    rcases forgetConsumer_consumerTags (s := s.confirmCancel q (s.tasks id).dataType) (s.tasks id).dataType tag u with
      heq | ⟨rfl, heq⟩
    · exact .inl (heq.trans hr)
    · have hopen := hok q (by rw [calledChannel, hpc, hqueue]; rfl)
      have hconn := (h.taskQueues id q hqueue).of_open hopen.2
      have hq : r.channel = q := Option.some.inj ((h.wired.tags _ r hr).symm.trans hconn)
      refine .inr ⟨heq, .inl ?_⟩
      have hconfirmed : ((s.confirmCancel q (s.tasks id).dataType).forgetConsumer (s.tasks id).dataType tag).cancelConfirmed
          = (s.confirmCancel q (s.tasks id).dataType).cancelConfirmed := by
        rw [forgetConsumer]
        split <;> rfl
      rw [hconfirmed, hq, confirmCancel]
      simp

theorem cancelFails_of_unconfirmed (hunconfirmed : s.UnconfirmedCancel e) (hstep : s.step timing e = some s') :
    s'.toTransport = s.requestRecovery := by
  cases hunconfirmed with
  | @failed id tag reply hpc hreply =>
    obtain ⟨_, heq⟩ := Option.ite_none_left_eq_some.mp hstep
    rw [taskReplied, hpc] at heq
    cases hqueue : (s.tasks id).queue with
    | none => rw [hqueue] at heq; cases heq
    | some q =>
      rw [hqueue] at heq
      cases reply with
      | success => exact absurd rfl hreply
      | failure => cases heq; rfl
      | timedOut => cases heq; rfl
  | interrupted hpc =>
    obtain ⟨_, heq⟩ := Option.ite_none_right_eq_some.mp hstep
    rw [taskInterrupted, hpc] at heq
    cases heq
    rfl
  | @handleMissing id hqueue hwhy =>
    obtain ⟨_, heq⟩ := Option.ite_none_right_eq_some.mp hstep
    cases heq
    have hfails : ∀ tag, (s.cancelConsumer id tag).toTransport = s.requestRecovery := by
      intro tag
      rw [cancelConsumer, hqueue]
      rfl
    rw [taskWakes]
    split
    · rename_i hkind
      split
      · exact hfails _
      · rename_i hnone
        rcases hwhy with hshutdown | htag
        · cases hkind.symm.trans hshutdown
        · exact absurd hnone htag
    · exact hfails _

/-- A recovery clears the flag only when it goes on to reconnect. -/
theorem Wiring.reconnects (hphases : s.Phases) (h : s.Wiring) (hstep : s.step timing e = some s')
    (hset : s.consumerRecoveryRequested = true) :
    s'.consumerRecoveryRequested = true ∨ s'.Reconnects := by
  rcases (transport_step hphases hstep).clears hset with hkept | ⟨he, hpc, hgone, hconsumers⟩
  · exact .inl hkept
  by_contra hneither
  obtain ⟨hclear, hreconnects⟩ := not_or.mp hneither
  rw [Bool.not_eq_true] at hclear
  refine hreconnects ⟨?_, hgone, fun t => ?_⟩
  · -- Of a checker that drops the connection, or has none to drop.
    have hpc' : s.checker.adopted = none ∧ s.checker.opened = none ∧ s.checker.unplugged = false := by
      rcases hpc with heq | ⟨p, heq⟩ <;> rw [heq] <;> exact ⟨rfl, rfl, rfl⟩
    have hclear' : ∀ {b : Bool}, s'.consumerRecoveryRequested = b → b = true → False := by
      intro b hb htrue
      rw [← hb, hclear] at htrue
      cases htrue
    have hchecker := (turn_step hstep).checker
    generalize s'.checker = pc at hchecker
    cases hchecker with
    | same hno => rw [he] at hno; cases hno
    | starts _ | interrupted _ => cases he
    | stays _ _ hsame => exact (hclear' (congrArg Transport.consumerRecoveryRequested hsame) hset).elim
    | drops _ _ _ hsame => exact (hclear' hsame hset).elim
    | reconnects _ _ _ => rfl
    | opens hunplugged _ => rw [hpc'.2.2] at hunplugged; cases hunplugged
    | consumes hadopted _ _ _ => rw [hpc'.1] at hadopted; cases hadopted
    | covered hbare _ _ => rcases hpc with heq | ⟨p, heq⟩ <;> rw [heq] at hbare <;> cases hbare
    | fails _ hopened _ => rw [hpc'.2.1] at hopened; cases hopened
    | adopts hold _ | failsOn hold _ | failed hold _ | closes hold _ | recovered hold _ _ =>
      rcases hpc with heq | ⟨p, heq⟩ <;> cases heq.symm.trans hold
    | declares hold _ _ =>
      rcases hold with ⟨_, hold⟩ | ⟨_, _, _, hold⟩ <;> rcases hpc with heq | ⟨p, heq⟩ <;> cases heq.symm.trans hold
    | requests _ _ hrequested => exact (hclear' hrequested rfl).elim
  · by_contra ht
    obtain ⟨heq, hbefore⟩ := hconsumers t ht
    exact ht ((congrFun heq t).trans (h.wired.noConsumers (hasTransport_eq_false.mp hbefore).1 t))

/-- As long as the broker confirms nothing on closed channels, and but for timers that were
cleared in mid-close: an entry stays until its subscription is confirmed gone, and a cancel
that is not confirmed asks for recovery until a recovery has found everything gone. -/
theorem registration_kept_until_gone {timing : Timing} {now : Int} {es : List Event} {s s' : Lifecycle} {e : Event}
    (hrun : Runs.Run (step timing) (fun s e => s.NoStaleReply e ∧ s.lateClose e = false) { now := now } es s)
    (hstale : s.NoStaleReply e) (hlate : s.lateClose e = false) (hstep : s.step timing e = some s') :
    (∀ t r, s.consumerTags t = some r →
      s'.consumerTags t = some r ∨ s'.consumerTags t = none ∧ s'.Ended t r) ∧
    (s.UnconfirmedCancel e → s'.consumerTags = s.consumerTags ∧ s'.consumerRecoveryRequested = true) ∧
    (s.consumerRecoveryRequested = true → s'.consumerRecoveryRequested = true ∨ s'.Reconnects) := by
  have hwiring := wiring_of_run hrun
  have hphases := phases_of_run hrun
  refine ⟨fun t r hr => hwiring.kept_or_ended hstale hlate (transport_step hphases hstep) hr, ?_, ?_⟩
  · intro hunconfirmed
    rw [cancelFails_of_unconfirmed hunconfirmed hstep]
    exact ⟨rfl, rfl⟩
  · exact hwiring.reconnects hphases hstep

/-- The consumer of the artists is cancelled by its timer. -/
def cancelled : List Event :=
  List.replicate 12 (.main .success) ++ [.deliver .artists .fileComplete, .tick 300, .taskWakes 0]

theorem registration_kept_until_gone_cancelled : ∃ s s' : Lifecycle,
    s.consumerTags .artists = some ⟨consumerTag .artists, 0⟩ ∧
      (s'.consumerTags .artists = none ∧ s'.Ended .artists ⟨consumerTag .artists, 0⟩) ∧
      s'.consumerTags .labels = some ⟨consumerTag .labels, 0⟩ := by
  obtain ⟨s, hrun, ⟨hstale, hlate⟩, htag, s', hstep, hartists, hlabels⟩ : ∃ s,
      Runs.Run (Runs.guarded (step {}) fun s e => s.NoStaleReply e ∧ s.lateClose e = false) (fun _ _ => True)
        { now := 1 } cancelled s ∧
      (s.NoStaleReply (.task 0 .success) ∧ s.lateClose (.task 0 .success) = false) ∧
      s.consumerTags .artists = some ⟨consumerTag .artists, 0⟩ ∧
      ∃ s' ∈ s.step {} (.task 0 .success), s'.consumerTags .artists = none ∧
        s'.consumerTags .labels = some ⟨consumerTag .labels, 0⟩ :=
    Runs.exists_run (by decide +kernel)
  have hkept := (registration_kept_until_gone (Runs.run_of_guarded hrun) hstale hlate hstep).1 .artists _ htag
  refine ⟨s, s', htag, hkept.resolve_left fun hstays => ?_, hlabels⟩
  cases hartists.symm.trans hstays

/-- Two timers close the connection of a service that is stopped. The stop has cleared one of
them, so recovery does not cancel it: it hears that the connection is closed when the recovery
has registered consumers on another. -/
def staleClose : List Event :=
  List.replicate 12 (.main .success) ++ [.deliver .artists .fileComplete, .mainCancelled,
    .deliver .labels .fileComplete, .deliver .releaseGroups .fileComplete, .deliver .releases .fileComplete,
    .deliver .artists .extractionComplete, .taskInterrupted 0, .main .success, .tick 300] ++
    [1, 2, 3, 4].flatMap (fun id => [.taskWakes id, .task id .success]) ++ [.taskWakes 5, .task 5 .timedOut,
    .checkerWakes, .checker .success 0, .task 4 .failure] ++ List.replicate 3 (.checker .success 0) ++
    .checker .success 1 :: List.replicate 9 (.checker .success 0)

/-- A recovery drops the connection while the consumer of the artists is cancelled. -/
def cancelInRecovery : List Event :=
  List.replicate 12 (.main .success) ++ [.deliver .artists .fileComplete, .deliver .labels .fileComplete, .tick 300,
    .taskWakes 0, .taskWakes 1, .task 1 .timedOut, .checkerWakes]

theorem registration_forgotten_early :
    (∃ s s' r, Runs.Run (step {}) NoStaleReply { now := 1 } staleClose s ∧ s.NoStaleReply (.task 4 .success) ∧
      s.step {} (.task 4 .success) = some s' ∧ s.consumerTags .artists = some r ∧
      s'.consumerTags .artists = none ∧ ¬s'.Ended .artists r) ∧
    ∃ s s', Runs.Run (step {}) NoStaleReply { now := 1 } cancelInRecovery s ∧ s.UnconfirmedCancel (.task 0 .timedOut) ∧
      Runs.Run (step {}) NoStaleReply { now := 1 }
        (cancelInRecovery ++ [.task 0 .timedOut, .checker .success 0, .checker .success 0]) s' ∧
      s'.consumerRecoveryRequested = false := by
  constructor
  · obtain ⟨s, hrun, hstale, htag, s', hstep, hnone, hcancel, hchannel, hconn⟩ : ∃ s,
        Runs.Run (Runs.guarded (step {}) NoStaleReply) (fun _ _ => True) { now := 1 } staleClose s ∧
        s.NoStaleReply (.task 4 .success) ∧ s.consumerTags .artists = some ⟨consumerTag .artists, 1⟩ ∧
        ∃ s' ∈ s.step {} (.task 4 .success), s'.consumerTags .artists = none ∧
          s'.cancelConfirmed 1 .artists = false ∧ s'.channelClosed 1 = false ∧ s'.connectionClosed 1 = false :=
      Runs.exists_run (by decide +kernel)
    refine ⟨s, s', _, Runs.run_of_guarded hrun, hstale, hstep, htag, hnone, ?_⟩
    simp [Ended, hcancel, hchannel, hconn]
  · obtain ⟨s, hrun, hpc⟩ : ∃ s, Runs.Run (Runs.guarded (step {}) NoStaleReply) (fun _ _ => True)
        { now := 1 } cancelInRecovery s ∧ (s.tasks 0).pc = .cancelling (consumerTag .artists) :=
      Runs.exists_run (by decide +kernel)
    obtain ⟨s', hrun', hclear⟩ : ∃ s', Runs.Run (Runs.guarded (step {}) NoStaleReply) (fun _ _ => True)
        { now := 1 } (cancelInRecovery ++ [.task 0 .timedOut, .checker .success 0, .checker .success 0]) s' ∧
          s'.consumerRecoveryRequested = false :=
      Runs.exists_run (by decide +kernel)
    exact ⟨s, s', Runs.run_of_guarded hrun, .failed hpc nofun, Runs.run_of_guarded hrun', hclear⟩

end Lifecycle

end Brainzgraphinator
