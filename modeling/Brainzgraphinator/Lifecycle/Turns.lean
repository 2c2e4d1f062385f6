-- SUMMARY: What a step of the lifecycle can do to main, to the checker and to the tables.
import Brainzgraphinator.Lifecycle.Effects

/-!
# Turns

The other half of what a step does: where `main` and the checker wait afterwards, and
what becomes of the tables (`Turn`). While `main` opens the connection nobody else takes
a turn, so the state is the one it has made (`Opening`).
-/

namespace Brainzgraphinator

/-- No recovery is in progress. -/
def CheckerPc.idle : CheckerPc → Bool
  | .absent | .sleeping | .exited => true
  | _ => false

/-- A recovery registers consumers on the connection it has adopted. -/
def CheckerPc.adopted : CheckerPc → Option Nat
  | .settingQos c _ | .declaring c _ _ _ _ | .consuming c _ _ _ _ => some c
  | _ => none

/-- A recovery has adopted a connection and does not register consumers on it yet. -/
def CheckerPc.bare : CheckerPc → Bool
  | .settingQos _ _ | .declaring _ _ _ _ _ => true
  | _ => false

/-- What the checker is closing. -/
def CheckerPc.closes : CheckerPc → Option ClosePc
  | .dropping p | .failing p => some p
  | _ => none

/-- The channel a recovery declares or consumes on. -/
def CheckerPc.queue : CheckerPc → Option Nat
  | .declaring _ q _ _ _ | .consuming _ q _ _ _ => some q
  | _ => none

/-- The connection `main` is opening. -/
def MainPc.connection : MainPc → Option Nat
  | .openingChannel c | .settingQos c | .declaring c _ _ => some c
  | _ => none

theorem CheckerPc.opened_of_adopted {pc : CheckerPc} {c : Nat} (h : pc.adopted = some c) : pc.opened = some c := by
  cases pc <;> first | exact h | cases h

theorem CheckerPc.adopted_of_opened {pc : CheckerPc} {c : Nat} (h : pc.opened = some c)
    (hplugged : pc.unplugged = false) : pc.adopted = some c := by
  cases pc <;> first | exact h | cases hplugged

theorem CheckerPc.opened_of_closes {pc : CheckerPc} {p : ClosePc} (h : pc.closes = some p) : pc.opened = none := by
  cases pc <;> first | rfl | cases h

theorem CheckerPc.of_idle {pc : CheckerPc} (h : pc.idle = true) :
    pc.adopted = none ∧ pc.closes = none ∧ pc.queue = none ∧ pc.unplugged = false := by
  cases pc <;> first | exact ⟨rfl, rfl, rfl, rfl⟩ | cases h

theorem CheckerPc.bare_of_idle {pc : CheckerPc} (h : pc.idle = true) : pc.bare = false := by
  cases pc <;> first | rfl | cases h

theorem CheckerPc.idle_of_unplugged {pc : CheckerPc} (h : pc.unplugged = true) : pc.idle = false := by
  cases pc <;> first | rfl | cases h

theorem CheckerPc.of_unplugged {pc : CheckerPc} (h : pc.unplugged = true) :
    pc.adopted = none ∧ pc.closes = none ∧ pc.queue = none := by
  cases pc <;> first | exact ⟨rfl, rfl, rfl⟩ | cases h

theorem MainPc.opening_of_stopping {pc : MainPc} (h : pc.stopping = true) : pc.opening = false := by
  cases pc <;> first | rfl | cases h

namespace Lifecycle

open Transport

variable {timing : Timing} {s s' : Lifecycle} {e : Event} {id : Nat}

/-- The clock, the tables and the shutdown flag are the same. -/
structure Keeps (s s' : Lifecycle) : Prop where
  now : s'.now = s.now
  queues : s'.queues = s.queues
  completedFiles : s'.completedFiles = s.completedFiles
  messageCounts : s'.messageCounts = s.messageCounts
  lastMessageTime : s'.lastMessageTime = s.lastMessageTime
  shutdownRequested : s'.shutdownRequested = s.shutdownRequested

inductive MainStep (s s' : Lifecycle) : Event → MainPc → Prop
  | same {e : Event} : s'.checkerCancelled = s.checkerCancelled → MainStep s s' e s.main
  | opens {reply : Reply} {pc : MainPc} : s.main.opening = true → pc.opening = true →
      s'.checkerCancelled = s.checkerCancelled → MainStep s s' (.main reply) pc
  | consumes {c : Nat} {t : EntityType} {rest : List EntityType} :
      ((∃ u, s.main = .declaring c u [] ∧ s'.toTransport = s.startWatch s.now ∧
          s'.queues = Function.update s.queues u (some c)) ∨
        ∃ u, s.main = .consuming c u (t :: rest) ∧ s'.toTransport = s.registerConsumer s.now u c) →
      s'.checkerCancelled = s.checkerCancelled → MainStep s s' (.main .success) (.consuming c t rest)
  | runs {c : Nat} {t : EntityType} : s.main = .consuming c t [] →
      s'.checkerCancelled = s.checkerCancelled → MainStep s s' (.main .success) .running
  | stops {e : Event} {pc : MainPc} : pc.stopping = true → (∀ p, pc ≠ .closing p) →
      s.Stops e → MainStep s s' e pc
  | closes {e : Event} {p : ClosePc} :
      (s.main = .stoppingChecker ∧ (s.checker = .exited ∨ s.checker = .absent) ∧
          s'.closeRabbitmqConnection = some p ∨
        (∃ p₀, s.main = .closing p₀) ∧ s'.activeConnection = some p.number) →
      MainStep s s' e (.closing p)
  | exits {e : Event} : s'.checkerCancelled = s.checkerCancelled → MainStep s s' e .exited

inductive CheckerStep (s s' : Lifecycle) : Event → CheckerPc → Prop
  | same {e : Event} : e.ofChecker = false → CheckerStep s s' e s.checker
  | starts {c : Nat} {t : EntityType} : s.main = .consuming c t [] →
      CheckerStep s s' (.main .success) .sleeping
  | interrupted : s.checkerCancelled = true → CheckerStep s s' .checkerInterrupted .exited
  /-- Nothing is due. -/
  | stays {pc : CheckerPc} : s.checker = .sleeping → pc.idle = true → s'.toTransport = s.toTransport →
      CheckerStep s s' .checkerWakes pc
  | drops {e : Event} {p : ClosePc} : e.ofChecker = true →
      (s.checker = .sleeping ∨ ∃ p₀, s.checker = .dropping p₀) →
      (s'.closeRabbitmqConnection = some p ∨ s'.activeConnection = some p.number) →
      s'.consumerRecoveryRequested = s.consumerRecoveryRequested → CheckerStep s s' e (.dropping p)
  | reconnects {e : Event} : e.ofChecker = true → (s.checker = .sleeping ∨ ∃ p₀, s.checker = .dropping p₀) →
      s'.toTimers = s.dropTimers → CheckerStep s s' e .connecting
  /-- The recovery goes on with the connection it opens. -/
  | opens {pc : CheckerPc} {count : Nat} : s.checker.unplugged = true → pc.unplugged = true →
      CheckerStep s s' (.checker .success count) pc
  | adopts {c count : Nat} {t : EntityType} {pending pending' : List EntityType} :
      s.checker = .inspecting c t [] pending → s'.toTransport = s.adopt s.now c →
      CheckerStep s s' (.checker .success count) (.settingQos c pending')
  | declares {c q count : Nat} {t : EntityType} {rest pending : List EntityType} :
      ((∃ pending, s.checker = .settingQos c pending) ∨ ∃ q u rest, s.checker = .declaring c q u rest pending) →
      s.activeChannel = some q → s'.toTransport = s.toTransport →
      CheckerStep s s' (.checker .success count) (.declaring c q t rest pending)
  | consumes {c q count : Nat} {t : EntityType} {rest pending : List EntityType} :
      s.checker.adopted = some c → s'.queues t = some q → s'.consumerTags t = none →
      (s'.toTransport = s.toTransport ∨ ∃ u q', s'.toTransport = s.registerConsumer s.now u q') →
      CheckerStep s s' (.checker .success count) (.consuming c q t rest pending)
  /-- The type that was declared last has a consumer all the same. -/
  | covered {pc : CheckerPc} {count : Nat} {t : EntityType} : s.checker.bare = true → pc.idle = true →
      s.consumerTags t ≠ none → CheckerStep s s' (.checker .success count) pc
  | recovered {pc : CheckerPc} {c q count : Nat} {t : EntityType} {rest pending : List EntityType} :
      s.checker = .consuming c q t rest pending → pc.idle = true →
      s'.toTransport = s.registerConsumer s.now t q → CheckerStep s s' (.checker .success count) pc
  | fails {c : Nat} {e : Event} : e.ofChecker = true → s.checker.opened = some c →
      s'.toTransport = s.adoptFailed c → CheckerStep s s' e (.failing (.channel c))
  | failsOn {p p₀ : ClosePc} {reply : Reply} {count : Nat} : s.checker = .failing p₀ →
      s'.activeConnection = some p.number → CheckerStep s s' (.checker reply count) (.failing p)
  /-- The failed recovery has closed what it could. -/
  | failed {pc : CheckerPc} {p : ClosePc} {reply : Reply} {count : Nat} : s.checker = .failing p →
      pc.idle = true → CheckerStep s s' (.checker reply count) pc
  /-- A recovery that found nothing is over. -/
  | closes {pc : CheckerPc} {c count : Nat} : s.checker = .closingTempConnection c → pc.idle = true →
      CheckerStep s s' (.checker .success count) pc
  | requests {pc : CheckerPc} {reply : Reply} {count : Nat} : s.checker.idle = false → pc.idle = true →
      s'.consumerRecoveryRequested = true → CheckerStep s s' (.checker reply count) pc

inductive TablesStep (s s' : Lifecycle) : Event → Prop
  | same {e : Event} : Keeps s s' → TablesStep s s' e
  | tick {seconds : Nat} : Keeps { s with now := s.now + seconds } s' → TablesStep s s' (.tick seconds)
  | shutdown : Keeps { s with shutdownRequested := true } s' → TablesStep s s' .shutdown
  | forgets {e : Event} : Keeps { s with queues := fun _ => none } s' →
      ((∃ c, s.main = .settingQos c) ∨ (∃ c pending, s.checker = .settingQos c pending) ∨
        e.ofChecker = true ∧ s'.consumerRecoveryRequested = true) → TablesStep s s' e
  | declares {e : Event} {q : Nat} {t : EntityType} :
      Keeps { s with queues := Function.update s.queues t (some q) } s' →
      ((∃ rest, s.main = .declaring q t rest) ∨ ∃ c rest pending, s.checker = .declaring c q t rest pending) →
      TablesStep s s' e
  | completes {t : EntityType} {message : Message} : message.terminal = true → Keeps (s.complete t) s' →
      TablesStep s s' (.deliver t message)
  | uncompletes {t : EntityType} {valid : Bool} : Keeps (s.uncomplete t) s' →
      TablesStep s s' (.deliver t (.record valid))
  | recovers {c q count : Nat} {t : EntityType} {rest pending : List EntityType} :
      s.checker = .consuming c q t rest pending → Keeps (s.consumerRecovered q t pending) s' →
      TablesStep s s' (.checker .success count)
  | settles {t : EntityType} {outcome : Outcome} : outcome ≠ .failed → Keeps (s.settled t outcome) s' →
      TablesStep s s' (.settled t outcome)

structure Turn (s s' : Lifecycle) (e : Event) : Prop where
  main : MainStep s s' e s'.main
  checker : CheckerStep s s' e s'.checker
  tables : TablesStep s s' e

/-! ## Where the coroutines go -/

theorem CheckerStep.adopted {pc : CheckerPc} (h : CheckerStep s s' e pc) {c : Nat} (hc : pc.adopted = some c) :
    s.checker.adopted = some c ∨ s.checker.unplugged = true ∧ s'.toTransport = s.adopt s.now c := by
  cases h with
  | same _ => exact .inl hc
  | adopts hpc htransport =>
    cases hc
    exact .inr ⟨by rw [hpc]; rfl, htransport⟩
  | declares hpc _ _ =>
    cases hc
    rcases hpc with ⟨_, hpc⟩ | ⟨_, _, _, hpc⟩ <;> rw [hpc] <;> exact .inl rfl
  | consumes hadopted _ _ _ => cases hc; exact .inl hadopted
  | starts _ | interrupted _ | drops _ _ _ _ | reconnects _ _ _ | fails _ _ _ | failsOn _ _ => cases hc
  | opens _ hunplugged => rw [(CheckerPc.of_unplugged hunplugged).1] at hc; cases hc
  | stays _ hidle _ | covered _ hidle _ | recovered _ hidle _ | failed _ hidle | closes _ hidle | requests _ hidle _ =>
    rw [(CheckerPc.of_idle hidle).1] at hc
    cases hc

/-- While a recovery registers its consumers, the transport does not change but by them. -/
theorem CheckerStep.registering {pc : CheckerPc} (h : CheckerStep s s' e pc) (hpc : pc.adopted ≠ none) :
    (∃ c, s'.toTransport = s.adopt s.now c) ∨ s.checker.adopted ≠ none ∧
      (e.ofChecker = false ∨ s'.toTransport = s.toTransport ∨ ∃ u q, s'.toTransport = s.registerConsumer s.now u q) := by
  cases h with
  | same he => exact .inr ⟨hpc, .inl he⟩
  | adopts _ htransport => exact .inl ⟨_, htransport⟩
  | declares hold _ htransport =>
    refine .inr ⟨?_, .inr (.inl htransport)⟩
    rcases hold with ⟨_, hold⟩ | ⟨_, _, _, hold⟩ <;> rw [hold] <;> exact nofun
  | consumes hadopted _ _ htransport =>
    refine .inr ⟨?_, .inr htransport⟩
    rw [hadopted]
    exact nofun
  | starts _ | interrupted _ | drops _ _ _ _ | reconnects _ _ _ | fails _ _ _ | failsOn _ _ => exact absurd rfl hpc
  | opens _ hunplugged => exact absurd (CheckerPc.of_unplugged hunplugged).1 hpc
  | stays _ hidle _ | covered _ hidle _ | recovered _ hidle _ | failed _ hidle | closes _ hidle | requests _ hidle _ =>
    exact absurd (CheckerPc.of_idle hidle).1 hpc

theorem CheckerStep.closing {pc : CheckerPc} (h : CheckerStep s s' e pc) {p : ClosePc} (hp : pc.closes = some p) :
    s.checker.closes = some p ∨ s'.closeRabbitmqConnection = some p ∨ s'.activeConnection = some p.number := by
  cases h with
  | same _ => exact .inl hp
  | drops _ _ hclose _ => cases hp; exact .inr hclose
  | fails _ _ htransport => cases hp; exact .inr (.inr (by rw [htransport]; rfl))
  | failsOn _ hconn => cases hp; exact .inr (.inr hconn)
  | starts _ | interrupted _ | reconnects _ _ _ | adopts _ _ | declares _ _ _ | consumes _ _ _ _ => cases hp
  | opens _ hunplugged => rw [(CheckerPc.of_unplugged hunplugged).2.1] at hp; cases hp
  | stays _ hidle _ | covered _ hidle _ | recovered _ hidle _ | failed _ hidle | closes _ hidle | requests _ hidle _ =>
    rw [(CheckerPc.of_idle hidle).2.1] at hp
    cases hp

theorem CheckerStep.queue {pc : CheckerPc} (h : CheckerStep s s' e pc) {q : Nat} (hq : pc.queue = some q) :
    s.checker.queue = some q ∨ s.activeChannel = some q ∨ ∃ t, s'.queues t = some q := by
  cases h with
  | same _ => exact .inl hq
  | declares _ hchannel _ => cases hq; exact .inr (.inl hchannel)
  | consumes _ hqueue _ _ => cases hq; exact .inr (.inr ⟨_, hqueue⟩)
  | starts _ | interrupted _ | drops _ _ _ _ | reconnects _ _ _ | adopts _ _ | fails _ _ _ | failsOn _ _ => cases hq
  | opens _ hunplugged => rw [(CheckerPc.of_unplugged hunplugged).2.2] at hq; cases hq
  | stays _ hidle _ | covered _ hidle _ | recovered _ hidle _ | failed _ hidle | closes _ hidle | requests _ hidle _ =>
    rw [(CheckerPc.of_idle hidle).2.2.1] at hq
    cases hq

theorem CheckerStep.bare {pc : CheckerPc} (h : CheckerStep s s' e pc) (hpc : pc.bare = true) :
    s.checker.bare = true ∨ s.checker.unplugged = true := by
  cases h with
  | same _ => exact .inl hpc
  | adopts hold _ => rw [hold]; exact .inr rfl
  | declares hold _ _ => rcases hold with ⟨_, hold⟩ | ⟨_, _, _, hold⟩ <;> rw [hold] <;> exact .inl rfl
  | opens hunplugged _ => exact .inr hunplugged
  | starts _ | interrupted _ | drops _ _ _ _ | reconnects _ _ _ | consumes _ _ _ _ | fails _ _ _
  | failsOn _ _ => cases hpc
  | stays _ hidle _ | covered _ hidle _ | recovered _ hidle _ | failed _ hidle | closes _ hidle | requests _ hidle _ =>
    rw [CheckerPc.bare_of_idle hidle] at hpc
    cases hpc

theorem CheckerStep.failing {p : ClosePc} (h : CheckerStep s s' e (.failing p)) :
    (∃ p₀, s.checker = .failing p₀) ∨ ∃ c, s'.toTransport = s.adoptFailed c := by
  generalize hpc : CheckerPc.failing p = pc at h
  cases h with
  | same _ => exact .inl ⟨p, hpc.symm⟩
  | fails _ _ htransport => exact .inr ⟨_, htransport⟩
  | failsOn hold _ => exact .inl ⟨_, hold⟩
  | opens _ hunplugged => rw [← hpc] at hunplugged; cases hunplugged
  | starts _ | interrupted _ | drops _ _ _ _ | reconnects _ _ _ | adopts _ _ | declares _ _ _
  | consumes _ _ _ _ => cases hpc
  | stays _ hidle _ | covered _ hidle _ | recovered _ hidle _ | failed _ hidle | closes _ hidle | requests _ hidle _ =>
    rw [← hpc] at hidle
    cases hidle

theorem CheckerStep.unplugged {pc : CheckerPc} (h : CheckerStep s s' e pc) (hpc : pc.unplugged = true) :
    s.checker.unplugged = true ∨ s'.toTimers = s.dropTimers := by
  cases h with
  | same _ => exact .inl hpc
  | reconnects _ _ htimers => exact .inr htimers
  | opens hunplugged _ => exact .inl hunplugged
  | starts _ | interrupted _ | drops _ _ _ _ | adopts _ _ | declares _ _ _ | consumes _ _ _ _ | fails _ _ _
  | failsOn _ _ => cases hpc
  | stays _ hidle _ | covered _ hidle _ | recovered _ hidle _ | failed _ hidle | closes _ hidle | requests _ hidle _ =>
    rw [(CheckerPc.of_idle hidle).2.2.2] at hpc
    cases hpc

/-- A checker that is gone stays gone, once `main` has started it. -/
theorem CheckerStep.gone {pc : CheckerPc} (h : CheckerStep s s' e pc) (hmain : s.main.startup = false)
    (hgone : s.checker = .exited ∨ s.checker = .absent) : pc = .exited ∨ pc = .absent := by
  have hbusy : ∀ pc : CheckerPc, pc ≠ .exited → pc ≠ .absent → s.checker ≠ pc := by
    intro pc hexited habsent heq
    rcases hgone with hc | hc
    · exact hexited (heq.symm.trans hc)
    · exact habsent (heq.symm.trans hc)
  have hadopted : s.checker.adopted = none := by rcases hgone with hc | hc <;> rw [hc] <;> rfl
  have hopened : s.checker.opened = none := by rcases hgone with hc | hc <;> rw [hc] <;> rfl
  have hplugged : s.checker.unplugged = false := by rcases hgone with hc | hc <;> rw [hc] <;> rfl
  have hidle : s.checker.idle = true := by rcases hgone with hc | hc <;> rw [hc] <;> rfl
  cases h with
  | same _ => exact hgone
  | starts hpc => rw [hpc] at hmain; cases hmain
  | interrupted _ => exact .inl rfl
  | stays hpc _ _ => exact absurd hpc (hbusy _ nofun nofun)
  | drops _ hpc _ _ | reconnects _ hpc _ =>
    rcases hpc with hc | ⟨p₀, hc⟩
    · exact absurd hc (hbusy _ nofun nofun)
    · exact absurd hc (hbusy _ nofun nofun)
  | opens hunplugged _ => rw [hplugged] at hunplugged; cases hunplugged
  | adopts hpc _ => exact absurd hpc (hbusy _ nofun nofun)
  | declares hpc _ _ =>
    rcases hpc with ⟨_, hc⟩ | ⟨_, _, _, hc⟩
    · exact absurd hc (hbusy _ nofun nofun)
    · exact absurd hc (hbusy _ nofun nofun)
  | consumes hc _ _ _ => rw [hadopted] at hc; cases hc
  | covered hc _ _ => rcases hgone with hpc | hpc <;> rw [hpc] at hc <;> cases hc
  | recovered hpc _ _ => exact absurd hpc (hbusy _ nofun nofun)
  | fails _ hc _ => rw [hopened] at hc; cases hc
  | failsOn hpc _ | failed hpc _ | closes hpc _ => exact absurd hpc (hbusy _ nofun nofun)
  | requests hbusy' _ _ => rw [hidle] at hbusy'; cases hbusy'

theorem MainStep.consuming {c : Nat} {t : EntityType} {rest : List EntityType}
    (h : MainStep s s' e (.consuming c t rest)) :
    (∃ u, s.main = .declaring c u [] ∧ s'.toTransport = s.startWatch s.now ∧
        s'.queues = Function.update s.queues u (some c)) ∨
      (∃ u rest', s.main = .consuming c u rest' ∧ s'.toTransport = s.registerConsumer s.now u c) ∨
      s.main = .consuming c t rest := by
  generalize hpc : MainPc.consuming c t rest = pc at h
  cases h with
  | same _ => exact .inr (.inr rfl)
  | opens _ hopening _ => rw [← hpc] at hopening; cases hopening
  | consumes hold _ =>
    cases hpc
    rcases hold with hold | ⟨u, hold⟩
    · exact .inl hold
    · exact .inr (.inl ⟨u, _, hold⟩)
  | runs _ _ | closes _ | exits _ => cases hpc
  | stops hstopping _ _ => rw [← hpc] at hstopping; cases hstopping

theorem MainStep.closing {p : ClosePc} (h : MainStep s s' e (.closing p)) :
    s.main = .closing p ∨
      (s.main = .stoppingChecker ∧ (s.checker = .exited ∨ s.checker = .absent) ∨ ∃ p₀, s.main = .closing p₀) ∧
        (s'.closeRabbitmqConnection = some p ∨ s'.activeConnection = some p.number) := by
  generalize hpc : MainPc.closing p = pc at h
  cases h with
  | same _ => exact .inl rfl
  | closes hwhy =>
    cases hpc
    rcases hwhy with ⟨hstopping, hgone, hclose⟩ | ⟨hclosing, hconn⟩
    · exact .inr ⟨.inl ⟨hstopping, hgone⟩, .inl hclose⟩
    · exact .inr ⟨.inr hclosing, .inr hconn⟩
  | opens _ hopening _ => rw [← hpc] at hopening; cases hopening
  | consumes _ _ | runs _ _ | exits _ => cases hpc
  | stops _ hne _ => exact absurd hpc.symm (hne p)

/-! ## Tasks and deliveries -/

/-- A task changes nothing but the transport and the timers. -/
def OnlyTasks (s s' : Lifecycle) : Prop := ∃ transport timers, s' = { s with
  toTransport := transport
  toTimers := timers }

theorem OnlyTasks.turn (h : s.OnlyTasks s') (he : e.ofChecker = false) : Turn s s' e := by
  obtain ⟨transport, timers, rfl⟩ := h
  exact ⟨.same rfl, .same he, .same ⟨rfl, rfl, rfl, rfl, rfl, rfl⟩⟩

theorem onlyTasks_cancelConsumer (s : Lifecycle) (id : Nat) (tag : String) :
    s.OnlyTasks (s.cancelConsumer id tag) := by
  rw [cancelConsumer]
  split <;> exact ⟨_, _, rfl⟩

theorem onlyTasks_taskWakes (s : Lifecycle) (id : Nat) : s.OnlyTasks (s.taskWakes id) := by
  rw [taskWakes]
  split
  · split
    · exact onlyTasks_cancelConsumer s id _
    · exact ⟨_, _, rfl⟩
  · exact onlyTasks_cancelConsumer s id _

theorem onlyTasks_taskCloses (s : Lifecycle) (transport : Transport) (id : Nat) (next : Option ClosePc) :
    s.OnlyTasks ({ s with toTransport := transport }.taskCloses id next) := by
  cases next <;> exact ⟨_, _, rfl⟩

theorem onlyTasks_taskReplied {reply : Reply} (hstep : s.taskReplied id reply = some s') : s.OnlyTasks s' := by
  rw [taskReplied] at hstep
  split at hstep
  · cases reply with
    | success =>
      cases hstep
      rw [cancelSucceeds]
      split
      · split
        · exact onlyTasks_taskCloses s _ id _
        · exact ⟨_, _, rfl⟩
      · exact ⟨_, _, rfl⟩
    | failure => cases hstep; exact ⟨_, _, rfl⟩
    | timedOut => cases hstep; exact ⟨_, _, rfl⟩
  · cases hstep
    exact onlyTasks_taskCloses s _ id _
  · cases hstep

theorem onlyTasks_taskInterrupted (hstep : s.taskInterrupted id = some s') : s.OnlyTasks s' := by
  rw [taskInterrupted] at hstep
  split at hstep
  · cases hstep; exact ⟨_, _, rfl⟩
  · cases hstep; exact ⟨_, _, rfl⟩
  · cases hstep; exact ⟨_, _, rfl⟩
  · cases hstep

theorem onlyTasks_scheduleIfEnabled (s : Lifecycle) (t : EntityType) :
    s.OnlyTasks (s.scheduleIfEnabled timing t) := by
  rw [scheduleIfEnabled]
  split
  · split <;> exact ⟨_, _, rfl⟩
  · exact ⟨_, _, rfl⟩

theorem turn_handler (s : Lifecycle) (t : EntityType) (message : Message) :
    Turn s (s.handler timing t message) (.deliver t message) := by
  rw [handler]
  split
  · exact ⟨.same rfl, .same rfl, .same ⟨rfl, rfl, rfl, rfl, rfl, rfl⟩⟩
  · cases message with
    | fileComplete =>
      have honly : s.OnlyTasks (s.scheduleIfEnabled timing t) := onlyTasks_scheduleIfEnabled s t
      obtain ⟨transport, timers, heq⟩ := honly
      rw [operation, heq]
      exact ⟨.same rfl, .same rfl, .completes rfl ⟨rfl, rfl, rfl, rfl, rfl, rfl⟩⟩
    | extractionComplete =>
      have honly : (s.complete t).OnlyTasks ((s.complete t).scheduleIfEnabled timing t) :=
        onlyTasks_scheduleIfEnabled (s.complete t) t
      obtain ⟨transport, timers, heq⟩ := honly
      rw [operation, heq]
      exact ⟨.same rfl, .same rfl, .completes rfl ⟨rfl, rfl, rfl, rfl, rfl, rfl⟩⟩
    | record valid =>
      rw [operation]
      dsimp only
      split <;> exact ⟨.same rfl, .same rfl, .uncompletes ⟨rfl, rfl, rfl, rfl, rfl, rfl⟩⟩
    | unreadable => exact ⟨.same rfl, .same rfl, .same ⟨rfl, rfl, rfl, rfl, rfl, rfl⟩⟩

/-! ## The checker -/

theorem idle_checkerSleeps (s : Lifecycle) : s.checkerSleeps.checker.idle = true := by
  rcases s.checkerSleeps_checker with heq | heq <;> rw [heq] <;> rfl

theorem turn_recoverConsumers (hpc : s.checker = .sleeping) (last : Int) :
    Turn s { s with lastFullCheck := last }.recoverConsumers .checkerWakes := by
  rw [recoverConsumers]
  split
  · rename_i p hclose
    exact ⟨.same rfl, .drops rfl (.inl hpc) (.inl hclose) rfl, .same ⟨rfl, rfl, rfl, rfl, rfl, rfl⟩⟩
  · exact ⟨.same rfl, .reconnects rfl (.inl hpc) rfl, .same ⟨rfl, rfl, rfl, rfl, rfl, rfl⟩⟩

theorem turn_checkerWakes (hpc : s.checker = .sleeping) : Turn s (s.checkerWakes timing) .checkerWakes := by
  have hrecover : Turn s s.recoverConsumers .checkerWakes := turn_recoverConsumers hpc s.lastFullCheck
  have hstays : Turn s s.checkerSleeps .checkerWakes :=
    ⟨.same rfl, .stays hpc (idle_checkerSleeps s) rfl, .same ⟨rfl, rfl, rfl, rfl, rfl, rfl⟩⟩
  rw [checkerWakes]
  split
  · exact hrecover
  · split
    · exact hrecover
    · split
      · exact hstays
      · split
        · exact hstays
        · exact turn_recoverConsumers hpc s.now

theorem turn_droppingReplied {p : ClosePc} {reply : Reply} {count : Nat} (hpc : s.checker = .dropping p) :
    Turn s (s.droppingReplied p reply) (.checker reply count) := by
  have hbusy : s.checker.idle = false := by rw [hpc]; rfl
  rw [droppingReplied]
  rcases closeReplied_cases s.toTransport p reply with
    ⟨c, c₀, _, hconn, ⟨_, heq⟩ | ⟨_, heq⟩⟩ | heq | ⟨t, hcloses, heq⟩
  · rw [heq]
    exact ⟨.same rfl, .drops rfl (.inr ⟨p, hpc⟩) (.inr hconn) rfl, .same ⟨rfl, rfl, rfl, rfl, rfl, rfl⟩⟩
  · rw [heq]
    exact ⟨.same rfl, .drops rfl (.inr ⟨p, hpc⟩) (.inr hconn) rfl, .same ⟨rfl, rfl, rfl, rfl, rfl, rfl⟩⟩
  · rw [heq]
    dsimp only
    rw [dropped]
    split
    · exact ⟨.same rfl, .requests hbusy (idle_checkerSleeps _) rfl, .same ⟨rfl, rfl, rfl, rfl, rfl, rfl⟩⟩
    · exact ⟨.same rfl, .reconnects rfl (.inr ⟨p, hpc⟩) rfl, .same ⟨rfl, rfl, rfl, rfl, rfl, rfl⟩⟩
  · rw [heq]
    dsimp only
    have hgone : t.forgetConnection.hasTransport = false := hcloses.hasTransport
    rw [dropped, if_neg (by rw [hgone]; rintro ⟨⟩)]
    exact ⟨.same rfl, .reconnects rfl (.inr ⟨p, hpc⟩) rfl, .same ⟨rfl, rfl, rfl, rfl, rfl, rfl⟩⟩

theorem turn_failingReplied {p : ClosePc} {reply : Reply} {count : Nat} (hpc : s.checker = .failing p) :
    Turn s (s.failingReplied p reply) (.checker reply count) := by
  rw [failingReplied]
  dsimp only
  split
  · rename_i p' hnext
    exact ⟨.same rfl, .failsOn hpc (activeConnection_of_closeReplied hnext),
      .same ⟨rfl, rfl, rfl, rfl, rfl, rfl⟩⟩
  · exact ⟨.same rfl, .failed hpc (idle_checkerSleeps _), .same ⟨rfl, rfl, rfl, rfl, rfl, rfl⟩⟩

theorem turn_recoveryFailed {c : Nat} (he : e.ofChecker = true) (hopened : s.checker.opened = some c) :
    Turn s (s.recoveryFailed c) e :=
  ⟨.same rfl, .fails he hopened rfl, .forgets ⟨rfl, rfl, rfl, rfl, rfl, rfl⟩ (.inr (.inr ⟨he, rfl⟩))⟩

/-- A type that is declared and lacks a consumer is not passed over. -/
theorem consumeNext_eq_checkerSleeps {types : List EntityType} {t : EntityType} (c : Nat)
    (pending : List EntityType) (ht : t ∈ types) (hqueue : s.queues t ≠ none) (h : ∀ c' q u rest pending',
      s.consumeNext c pending types ≠ { s with
        checker := .consuming c' q u rest pending'
        subscribed := Function.update s.subscribed u true }) : s.consumerTags t ≠ none := by
  induction types with
  | nil => cases ht
  | cons u rest ih =>
    rw [consumeNext] at h
    split at h
    · exact absurd rfl (h _ _ _ _ _)
    · rename_i hneither
      rcases List.mem_cons.mp ht with rfl | hrest
      · obtain ⟨q, hq⟩ := Option.ne_none_iff_exists'.mp hqueue
        exact fun hnone => hneither q hq hnone
      · exact ih hrest h

theorem turn_declareNext {c q count : Nat} {t u : EntityType} {rest pending : List EntityType}
    (hpc : s.checker = .declaring c q t (u :: rest) pending) :
    Turn s ({ s with queues := Function.update s.queues t (some q) }.declareNext c u rest pending)
      (.checker .success count) := by
  rw [declareNext]
  split
  · rename_i q' hchannel
    exact ⟨.same rfl, .declares (.inr ⟨q, t, _, hpc⟩) hchannel rfl,
      .declares ⟨rfl, rfl, rfl, rfl, rfl, rfl⟩ (.inr ⟨c, _, pending, hpc⟩)⟩
  · exact ⟨.same rfl, .fails rfl (by rw [hpc]; rfl) rfl,
      .forgets ⟨rfl, rfl, rfl, rfl, rfl, rfl⟩ (.inr (.inr ⟨rfl, rfl⟩))⟩

theorem turn_checkerSucceeds {count : Nat} (hstep : s.checkerSucceeds count = some s') :
    Turn s s' (.checker .success count) := by
  rw [checkerSucceeds] at hstep
  cases hpc : s.checker with
  | absent | sleeping | exited => rw [hpc] at hstep; cases hstep
  | dropping p =>
    rw [hpc] at hstep
    cases hstep
    exact turn_droppingReplied hpc
  | failing p =>
    rw [hpc] at hstep
    cases hstep
    exact turn_failingReplied hpc
  | connecting | openingChannel c | closingTempChannel c =>
    have hunplugged : s.checker.unplugged = true := by rw [hpc]; rfl
    rw [hpc] at hstep
    cases hstep
    exact ⟨.same rfl, .opens hunplugged rfl, .same ⟨rfl, rfl, rfl, rfl, rfl, rfl⟩⟩
  | inspecting c t rest pending =>
    have hunplugged : s.checker.unplugged = true := by rw [hpc]; rfl
    rw [hpc] at hstep
    dsimp only at hstep
    generalize (if 0 < count then pending ++ [t] else pending) = pending' at hstep
    cases rest with
    | cons t rest =>
      cases hstep
      exact ⟨.same rfl, .opens hunplugged rfl, .same ⟨rfl, rfl, rfl, rfl, rfl, rfl⟩⟩
    | nil =>
      dsimp only at hstep
      split at hstep
      · cases hstep
        exact ⟨.same rfl, .opens hunplugged rfl, .same ⟨rfl, rfl, rfl, rfl, rfl, rfl⟩⟩
      · cases hstep
        exact ⟨.same rfl, .adopts hpc rfl, .same ⟨rfl, rfl, rfl, rfl, rfl, rfl⟩⟩
  | settingQos c pending =>
    rw [hpc] at hstep
    cases hstep
    rw [← hpc, declareNext]
    split
    · rename_i q hchannel
      exact ⟨.same rfl, .declares (.inl ⟨pending, hpc⟩) hchannel rfl,
        .forgets ⟨rfl, rfl, rfl, rfl, rfl, rfl⟩ (.inr (.inl ⟨c, pending, hpc⟩))⟩
    · exact ⟨.same rfl, .fails rfl (by rw [hpc]; rfl) rfl,
        .forgets ⟨rfl, rfl, rfl, rfl, rfl, rfl⟩ (.inr (.inr ⟨rfl, rfl⟩))⟩
  | declaring c q t rest pending =>
    have hadopted : s.checker.adopted = some c := by rw [hpc]; rfl
    rw [hpc] at hstep
    cases rest with
    | cons u rest =>
      cases hstep
      rw [← hpc]
      exact turn_declareNext hpc
    | nil =>
      cases hstep
      rw [← hpc]
      rcases consumeNext_cases { s with queues := Function.update s.queues t (some q) } c pending
          musicbrainzDataTypes with heq | ⟨q', u, rest, _, hqueue, htag, heq⟩
      · have htag : s.consumerTags t ≠ none := by
          refine consumeNext_eq_checkerSleeps (s := { s with queues := Function.update s.queues t (some q) }) c pending
            (mem_musicbrainzDataTypes t) (by simp) ?_
          intro c' q' u rest pending' hne
          have hidle := idle_checkerSleeps { s with queues := Function.update s.queues t (some q) }
          rw [← heq, hne] at hidle
          cases hidle
        rw [heq]
        exact ⟨.same rfl, .covered (by rw [hpc]; rfl) (idle_checkerSleeps _) htag,
          .declares ⟨rfl, rfl, rfl, rfl, rfl, rfl⟩ (.inr ⟨c, _, pending, hpc⟩)⟩
      · rw [heq]
        exact ⟨.same rfl, .consumes hadopted hqueue htag (.inl rfl),
          .declares ⟨rfl, rfl, rfl, rfl, rfl, rfl⟩ (.inr ⟨c, _, pending, hpc⟩)⟩
  | consuming c q t rest pending =>
    have hadopted : s.checker.adopted = some c := by rw [hpc]; rfl
    rw [hpc] at hstep
    cases hstep
    rcases consumeNext_cases (s.consumerRecovered q t pending) c pending rest with
      heq | ⟨q', u, rest', _, hqueue, htag, heq⟩
    · rw [heq]
      exact ⟨.same rfl, .recovered hpc (idle_checkerSleeps _) rfl,
        .recovers hpc ⟨rfl, rfl, rfl, rfl, rfl, rfl⟩⟩
    · rw [heq]
      exact ⟨.same rfl, .consumes hadopted hqueue htag (.inr ⟨t, q, rfl⟩),
        .recovers hpc ⟨rfl, rfl, rfl, rfl, rfl, rfl⟩⟩
  | closingTempConnection c =>
    rw [hpc] at hstep
    cases hstep
    rw [← hpc]
    exact ⟨.same rfl, .closes hpc (idle_checkerSleeps _), .same ⟨rfl, rfl, rfl, rfl, rfl, rfl⟩⟩

theorem turn_checkerFails {reply : Reply} {count : Nat} (hstep : s.checkerFails reply = some s') :
    Turn s s' (.checker reply count) := by
  rw [checkerFails] at hstep
  cases hpc : s.checker with
  | absent | sleeping | exited => rw [hpc] at hstep; cases hstep
  | dropping p =>
    rw [hpc] at hstep
    cases hstep
    exact turn_droppingReplied hpc
  | failing p =>
    rw [hpc] at hstep
    cases hstep
    exact turn_failingReplied hpc
  | connecting | openingChannel c =>
    have hbusy : s.checker.idle = false := by rw [hpc]; rfl
    rw [hpc] at hstep
    cases hstep
    rw [← hpc]
    exact ⟨.same rfl, .requests hbusy (idle_checkerSleeps _) rfl, .same ⟨rfl, rfl, rfl, rfl, rfl, rfl⟩⟩
  | inspecting c t rest pending | settingQos c pending | declaring c q t rest pending
  | consuming c q t rest pending | closingTempChannel c | closingTempConnection c =>
    have hopened : s.checker.opened = some c := by rw [hpc]; rfl
    rw [hpc] at hstep
    cases hstep
    exact turn_recoveryFailed rfl hopened

/-! ## Startup and shutdown -/

theorem turn_cancelAllConsumers (he : e.ofChecker = false) (h : s.Stops e) : Turn s s.cancelAllConsumers e := by
  rw [cancelAllConsumers]
  split
  · rw [timersStopped, cancelAll]
    split
    · exact ⟨.stops rfl (by rintro _ ⟨⟩) h, .same he, .same ⟨rfl, rfl, rfl, rfl, rfl, rfl⟩⟩
    · exact ⟨.stops rfl (by rintro _ ⟨⟩) h, .same he, .same ⟨rfl, rfl, rfl, rfl, rfl, rfl⟩⟩
  · exact ⟨.stops rfl (by rintro _ ⟨⟩) h, .same he, .same ⟨rfl, rfl, rfl, rfl, rfl, rfl⟩⟩

theorem turn_timersStopped (he : e.ofChecker = false) (h : s.main.stopping = true) : Turn s s.timersStopped e := by
  rw [timersStopped, cancelAll]
  split
  · exact ⟨.stops rfl (by rintro _ ⟨⟩) (.inl h), .same he, .same ⟨rfl, rfl, rfl, rfl, rfl, rfl⟩⟩
  · exact ⟨.stops rfl (by rintro _ ⟨⟩) (.inl h), .same he, .same ⟨rfl, rfl, rfl, rfl, rfl, rfl⟩⟩

theorem turn_mainCloses {p : ClosePc} {reply : Reply} (he : e.ofChecker = false)
    (hpc : s.main = .closing p) :
    Turn s (s.mainCloses p reply) e := by
  rw [mainCloses]
  dsimp only
  split
  · rename_i p' hnext
    exact ⟨.closes (.inr ⟨⟨p, hpc⟩, activeConnection_of_closeReplied hnext⟩), .same he,
      .same ⟨rfl, rfl, rfl, rfl, rfl, rfl⟩⟩
  · exact ⟨.exits rfl, .same he, .same ⟨rfl, rfl, rfl, rfl, rfl, rfl⟩⟩

theorem turn_mainSucceeds (hstep : s.mainSucceeds = some s') : Turn s s' (.main .success) := by
  rw [mainSucceeds] at hstep
  cases hpc : s.main with
  | starting =>
    have hopening : s.main.opening = true := by rw [hpc]; rfl
    rw [hpc] at hstep
    cases hstep
    refine ⟨?_, .same rfl, .same ⟨rfl, rfl, rfl, rfl, rfl, rfl⟩⟩
    dsimp only
    split
    · exact .exits rfl
    · exact .opens hopening rfl rfl
  | connecting retry | openingChannel c =>
    have hopening : s.main.opening = true := by rw [hpc]; rfl
    rw [hpc] at hstep
    cases hstep
    exact ⟨.opens hopening rfl rfl, .same rfl, .same ⟨rfl, rfl, rfl, rfl, rfl, rfl⟩⟩
  | settingQos c =>
    have hopening : s.main.opening = true := by rw [hpc]; rfl
    rw [hpc] at hstep
    cases hstep
    exact ⟨.opens hopening rfl rfl, .same rfl, .forgets ⟨rfl, rfl, rfl, rfl, rfl, rfl⟩ (.inl ⟨c, hpc⟩)⟩
  | declaring c t rest =>
    have hopening : s.main.opening = true := by rw [hpc]; rfl
    rw [hpc] at hstep
    cases rest with
    | cons u rest =>
      cases hstep
      exact ⟨.opens hopening rfl rfl, .same rfl, .declares ⟨rfl, rfl, rfl, rfl, rfl, rfl⟩ (.inl ⟨_, hpc⟩)⟩
    | nil =>
      cases hstep
      exact ⟨.consumes (.inl ⟨t, hpc, rfl, rfl⟩) rfl, .same rfl, .declares ⟨rfl, rfl, rfl, rfl, rfl, rfl⟩ (.inl ⟨_, hpc⟩)⟩
  | consuming c t rest =>
    rw [hpc] at hstep
    cases rest with
    | nil =>
      cases hstep
      exact ⟨.runs hpc rfl, .starts hpc, .same ⟨rfl, rfl, rfl, rfl, rfl, rfl⟩⟩
    | cons u rest =>
      cases hstep
      exact ⟨.consumes (.inr ⟨t, hpc, rfl⟩) rfl, .same rfl, .same ⟨rfl, rfl, rfl, rfl, rfl, rfl⟩⟩
  | running =>
    rw [hpc] at hstep
    cases hstep
    split
    · rename_i hshutdown
      exact turn_cancelAllConsumers rfl (.inr ⟨hpc, .inl hshutdown⟩)
    · exact ⟨.same rfl, .same rfl, .same ⟨rfl, rfl, rfl, rfl, rfl, rfl⟩⟩
  | stoppingTimers pending =>
    rw [hpc] at hstep
    dsimp only at hstep
    split at hstep
    · cases hstep
      exact turn_timersStopped rfl (by rw [hpc]; rfl)
    · cases hstep
  | stoppingConsumers pending =>
    have hstopping : s.main.stopping = true := by rw [hpc]; rfl
    rw [hpc] at hstep
    dsimp only at hstep
    split at hstep
    · cases hstep
      exact ⟨.stops rfl (by rintro _ ⟨⟩) (.inl hstopping), .same rfl, .same ⟨rfl, rfl, rfl, rfl, rfl, rfl⟩⟩
    · cases hstep
  | stoppingChecker =>
    rw [hpc] at hstep
    dsimp only at hstep
    split at hstep
    · rename_i hexited
      split at hstep
      · rename_i p hclose
        cases hstep
        exact ⟨.closes (.inl ⟨hpc, hexited, hclose⟩), .same rfl, .same ⟨rfl, rfl, rfl, rfl, rfl, rfl⟩⟩
      · cases hstep
        exact ⟨.exits rfl, .same rfl, .same ⟨rfl, rfl, rfl, rfl, rfl, rfl⟩⟩
    · cases hstep
  | closing p =>
    rw [hpc] at hstep
    cases hstep
    exact turn_mainCloses rfl hpc
  | exited => rw [hpc] at hstep; cases hstep

theorem turn_mainFails {reply : Reply} (hstep : s.mainFails reply = some s') : Turn s s' (.main reply) := by
  rw [mainFails] at hstep
  cases hpc : s.main with
  | connecting retry =>
    have hopening : s.main.opening = true := by rw [hpc]; rfl
    rw [hpc] at hstep
    dsimp only at hstep
    split at hstep
    · cases hstep
      exact ⟨.opens hopening rfl rfl, .same rfl, .same ⟨rfl, rfl, rfl, rfl, rfl, rfl⟩⟩
    · cases hstep
      exact ⟨.exits rfl, .same rfl, .same ⟨rfl, rfl, rfl, rfl, rfl, rfl⟩⟩
  | starting | openingChannel c | settingQos c | declaring c t rest | consuming c t rest =>
    rw [hpc] at hstep
    cases hstep
    exact ⟨.exits rfl, .same rfl, .same ⟨rfl, rfl, rfl, rfl, rfl, rfl⟩⟩
  | closing p =>
    rw [hpc] at hstep
    cases hstep
    exact turn_mainCloses rfl hpc
  | running | stoppingTimers pending | stoppingConsumers pending | stoppingChecker | exited =>
    rw [hpc] at hstep
    cases hstep

theorem turn_mainCancelled : Turn s s.mainCancelled .mainCancelled := by
  rw [mainCancelled]
  split
  · rename_i hpc
    exact turn_cancelAllConsumers rfl (.inr ⟨hpc, .inr rfl⟩)
  · exact ⟨.exits rfl, .same rfl, .same ⟨rfl, rfl, rfl, rfl, rfl, rfl⟩⟩
  · exact ⟨.same rfl, .same rfl, .same ⟨rfl, rfl, rfl, rfl, rfl, rfl⟩⟩
  · exact ⟨.exits rfl, .same rfl, .same ⟨rfl, rfl, rfl, rfl, rfl, rfl⟩⟩

/-- Every step is such a turn. -/
theorem turn_step (hstep : s.step timing e = some s') : Turn s s' e := by
  cases e with
  | tick seconds => cases hstep; exact ⟨.same rfl, .same rfl, .tick ⟨rfl, rfl, rfl, rfl, rfl, rfl⟩⟩
  | shutdown => cases hstep; exact ⟨.same rfl, .same rfl, .shutdown ⟨rfl, rfl, rfl, rfl, rfl, rfl⟩⟩
  | main reply =>
    cases reply with
    | success => exact turn_mainSucceeds hstep
    | failure => exact turn_mainFails hstep
    | timedOut => exact turn_mainFails hstep
  | mainCancelled => cases hstep; exact turn_mainCancelled
  | checkerWakes =>
    obtain ⟨⟨hpc, _⟩, heq⟩ := Option.ite_none_right_eq_some.mp hstep
    cases heq
    exact turn_checkerWakes hpc
  | checker reply count =>
    obtain ⟨_, heq⟩ := Option.ite_none_left_eq_some.mp hstep
    cases reply with
    | success => exact turn_checkerSucceeds heq
    | failure => exact turn_checkerFails heq
    | timedOut => exact turn_checkerFails heq
  | checkerInterrupted =>
    obtain ⟨hcond, heq⟩ := Option.ite_none_right_eq_some.mp hstep
    simp only [Bool.and_eq_true] at hcond
    cases heq
    exact ⟨.same rfl, .interrupted hcond.1, .same ⟨rfl, rfl, rfl, rfl, rfl, rfl⟩⟩
  | taskWakes id =>
    obtain ⟨_, heq⟩ := Option.ite_none_right_eq_some.mp hstep
    cases heq
    exact (onlyTasks_taskWakes s id).turn rfl
  | task id reply =>
    obtain ⟨_, heq⟩ := Option.ite_none_left_eq_some.mp hstep
    exact (onlyTasks_taskReplied heq).turn rfl
  | taskInterrupted id =>
    obtain ⟨_, heq⟩ := Option.ite_none_right_eq_some.mp hstep
    exact (onlyTasks_taskInterrupted heq).turn rfl
  | deliver t message =>
    obtain ⟨_, heq⟩ := Option.ite_none_right_eq_some.mp hstep
    cases heq
    exact turn_handler s t message
  | settled t outcome =>
    obtain ⟨_, heq⟩ := Option.ite_none_right_eq_some.mp hstep
    cases heq
    cases outcome with
    | processed => exact ⟨.same rfl, .same rfl, .settles nofun ⟨rfl, rfl, rfl, rfl, rfl, rfl⟩⟩
    | skipped => exact ⟨.same rfl, .same rfl, .settles nofun ⟨rfl, rfl, rfl, rfl, rfl, rfl⟩⟩
    | failed => exact ⟨.same rfl, .same rfl, .same ⟨rfl, rfl, rfl, rfl, rfl, rfl⟩⟩

/-! ## While `main` opens the connection -/

/-- Nothing but the connection has been made. -/
structure Opening (s : Lifecycle) : Prop where
  tasks : ∀ id, (s.tasks id).pc = .finished
  subscribed : ∀ t, s.subscribed t = false
  inFlight : ∀ t, s.inFlight t = 0
  completedFiles : ∀ t, s.completedFiles t = false
  registeredAt : s.registeredAt = none
  connection : s.activeConnection = s.main.connection
  channel : ∀ c, s.activeChannel = some c → s.main.connection = some c
  declared : ∀ c t rest, s.main = .declaring c t rest → ∀ u, u ∉ t :: rest → s.queues u ≠ none

theorem opening_init (now : Int) : Opening { now := now } :=
  ⟨fun _ => rfl, fun _ => rfl, fun _ => rfl, fun _ => rfl, rfl, rfl, nofun, nofun⟩

theorem Opening.mainReplied (h : s.Opening) {reply : Reply} (hstep : s.mainReplied reply = some s')
    (hopening : s.main.opening = true) (hopening' : s'.main.opening = true) : s'.Opening := by
  cases reply with
  | success =>
    have heq : s.mainSucceeds = some s' := hstep
    rw [mainSucceeds] at heq
    cases hpc : s.main with
    | starting =>
      have hconn := h.connection
      have hchannel := h.channel
      rw [hpc] at heq hconn hchannel
      cases heq
      have hnone : (if s.shutdownRequested then MainPc.exited else .connecting 0).connection = none := by
        split <;> rfl
      refine ⟨h.tasks, h.subscribed, h.inFlight, h.completedFiles, h.registeredAt, hconn.trans hnone.symm,
        fun c hc => (by cases hchannel c hc), fun c t rest hpc' => ?_⟩
      dsimp only at hpc'
      split at hpc' <;> cases hpc'
    | connecting retry =>
      rw [hpc] at heq
      cases heq
      exact ⟨h.tasks, h.subscribed, h.inFlight, h.completedFiles, h.registeredAt, rfl,
        fun c hc => absurd (h.channel c hc) (by rw [hpc]; rintro ⟨⟩), by rintro _ _ _ ⟨⟩⟩
    | openingChannel c =>
      have hconn := h.connection
      rw [hpc] at heq hconn
      cases heq
      exact ⟨h.tasks, h.subscribed, h.inFlight, h.completedFiles, h.registeredAt, hconn, fun _ hc => hc,
        by rintro _ _ _ ⟨⟩⟩
    | settingQos c =>
      have hconn := h.connection
      have hchannel := h.channel
      rw [hpc] at heq hconn hchannel
      cases heq
      refine ⟨h.tasks, h.subscribed, h.inFlight, h.completedFiles, h.registeredAt, hconn, hchannel, ?_⟩
      intro c' t rest hpc' u hu
      cases hpc'
      exact absurd (mem_musicbrainzDataTypes u) hu
    | declaring c t rest =>
      have hconn := h.connection
      have hchannel := h.channel
      have hdeclared := h.declared c t rest hpc
      rw [hpc] at heq hconn hchannel
      cases rest with
      | nil => cases heq; cases hopening'
      | cons v rest =>
        cases heq
        refine ⟨h.tasks, h.subscribed, h.inFlight, h.completedFiles, h.registeredAt, hconn, hchannel, ?_⟩
        intro c' t' rest' hpc' u hu
        cases hpc'
        by_cases hut : u = t
        · rw [hut]
          simp
        · have hold := hdeclared u fun hmem => (List.mem_cons.mp hmem).elim hut hu
          simp only [Function.update_of_ne hut]
          exact hold
    | consuming | running | stoppingTimers | stoppingConsumers | stoppingChecker | closing | exited =>
      rw [hpc] at hopening
      cases hopening
  | failure | timedOut =>
    have heq : s.mainFails _ = some s' := hstep
    rw [mainFails] at heq
    cases hpc : s.main with
    | connecting retry =>
      have hconn := h.connection
      rw [hpc] at heq hconn
      dsimp only at heq
      split at heq
      · cases heq
        exact ⟨h.tasks, h.subscribed, h.inFlight, h.completedFiles, h.registeredAt, hconn,
          fun c hc => absurd (h.channel c hc) (by rw [hpc]; rintro ⟨⟩), by rintro _ _ _ ⟨⟩⟩
      · cases heq
        cases hopening'
    | starting | openingChannel c | settingQos c | declaring c t rest =>
      rw [hpc] at heq
      cases heq
      cases hopening'
    | consuming | running | stoppingTimers | stoppingConsumers | stoppingChecker | closing | exited =>
      rw [hpc] at hopening
      cases hopening

/-- Only `main` and the clock go on. -/
theorem Opening.step (hphases : s.Phases) (h : s.Opening) (hstep : s.step timing e = some s')
    (hopening : s.main.opening = true) (hopening' : s'.main.opening = true) : s'.Opening := by
  have habsent : s.checker = .absent := hphases.startup (MainPc.startup_of_opening hopening)
  cases e with
  | tick seconds | shutdown =>
    cases hstep
    exact ⟨h.tasks, h.subscribed, h.inFlight, h.completedFiles, h.registeredAt, h.connection, h.channel, h.declared⟩
  | main reply => exact h.mainReplied hstep hopening hopening'
  | mainCancelled =>
    cases hstep
    rw [mainCancelled] at hopening'
    cases hpc : s.main with
    | starting | connecting | openingChannel | settingQos | declaring => rw [hpc] at hopening'; cases hopening'
    | consuming | running | stoppingTimers | stoppingConsumers | stoppingChecker | closing | exited =>
      rw [hpc] at hopening
      cases hopening
  | checkerWakes =>
    obtain ⟨⟨hpc, _⟩, _⟩ := Option.ite_none_right_eq_some.mp hstep
    cases habsent.symm.trans hpc
  | checker reply count =>
    obtain ⟨_, heq⟩ := Option.ite_none_left_eq_some.mp hstep
    cases reply with
    | success => rw [checkerReplied, checkerSucceeds, habsent] at heq; cases heq
    | failure | timedOut =>
      have hfails : s.checkerFails _ = some s' := heq
      rw [checkerFails, habsent] at hfails
      cases hfails
  | checkerInterrupted =>
    obtain ⟨hcond, _⟩ := Option.ite_none_right_eq_some.mp hstep
    simp [habsent] at hcond
  | taskWakes id =>
    obtain ⟨⟨hpc, _⟩, _⟩ := Option.ite_none_right_eq_some.mp hstep
    cases (h.tasks id).symm.trans hpc
  | task id reply =>
    obtain ⟨_, heq⟩ := Option.ite_none_left_eq_some.mp hstep
    simp [taskReplied, h.tasks id] at heq
  | taskInterrupted id =>
    obtain ⟨_, heq⟩ := Option.ite_none_right_eq_some.mp hstep
    simp [taskInterrupted, h.tasks id] at heq
  | deliver t message =>
    obtain ⟨hsubscribed, _⟩ := Option.ite_none_right_eq_some.mp hstep
    rw [h.subscribed t] at hsubscribed
    cases hsubscribed
  | settled t outcome =>
    obtain ⟨hflight, _⟩ := Option.ite_none_right_eq_some.mp hstep
    rw [h.inFlight t] at hflight
    cases hflight

theorem MainStep.opening {pc : MainPc} (h : MainStep s s' e pc) (hpc : pc.opening = true) :
    s.main.opening = true := by
  cases h with
  | same => exact hpc
  | opens h _ _ => exact h
  | consumes _ _ | runs _ _ | closes _ | exits _ => cases hpc
  | stops hstopping _ _ => rw [MainPc.opening_of_stopping hstopping] at hpc; cases hpc

end Lifecycle

end Brainzgraphinator
