-- SUMMARY: Which connections there are, who holds a number of one, and who asks for a recovery.
import Brainzgraphinator.Base.Runs
import Brainzgraphinator.Lifecycle.Turns

/-!
# Connections

Connections are numbered as they are opened, by `main` at startup and by a recovery
afterwards, so a number in use is of a connection opened (`Numbered`). `Requests` says
what sets `consumerRecoveryRequested`: nothing but a broker call that did not succeed, or
a handle that was not there.
-/

namespace Brainzgraphinator

/-- The connection a recovery has opened and works with. -/
def CheckerPc.carries : CheckerPc → Option Nat
  | .openingChannel c | .inspecting c _ _ _ | .settingQos c _ | .declaring c _ _ _ _ | .consuming c _ _ _ _
  | .closingTempChannel c | .closingTempConnection c => some c
  | _ => none

/-- A connection that is stored nowhere, and that the recovery has not begun to close. -/
def CheckerPc.temporary : CheckerPc → Option Nat
  | .openingChannel c | .inspecting c _ _ _ | .closingTempChannel c => some c
  | _ => none

theorem CheckerPc.carries_of_opened {pc : CheckerPc} {c : Nat} (h : pc.opened = some c) : pc.carries = some c := by
  cases pc <;> first | exact h | cases h

theorem CheckerPc.carries_of_idle {pc : CheckerPc} (h : pc.idle = true) : pc.carries = none := by
  cases pc <;> first | rfl | cases h

namespace Lifecycle

open Transport

variable {timing : Timing} {s s' : Lifecycle} {e : Event} {id : Nat}

/-! ## Opening connections -/

/-- No connection is opened, and the recovery has no other one. -/
structure Carries (s s' : Lifecycle) : Prop where
  connections : s'.connections = s.connections
  checker : ∀ c, s'.checker.carries = some c → s.checker.carries = some c

inductive ConnectionsStep (s s' : Lifecycle) : Event → Prop
  | same {e : Event} : Carries s s' → ConnectionsStep s s' e
  | startup {retry : Nat} : s.main = .connecting retry → s'.connections = s.connections + 1 →
      s'.checker = s.checker → s'.activeConnection = some s.connections → ConnectionsStep s s' (.main .success)
  | recovery {count : Nat} : s.checker = .connecting → s'.checker = .openingChannel s.connections →
      s'.connections = s.connections + 1 → s'.toTransport = s.toTransport →
      ConnectionsStep s s' (.checker .success count)

theorem Carries.of_eq (hconnections : s'.connections = s.connections) (hchecker : s'.checker = s.checker) :
    Carries s s' := by
  refine ⟨hconnections, fun c hc => ?_⟩
  rwa [← hchecker]

theorem OnlyTasks.carries (h : s.OnlyTasks s') : Carries s s' := by
  obtain ⟨transport, timers, rfl⟩ := h
  exact .of_eq rfl rfl

theorem carries_handler (s : Lifecycle) (t : EntityType) (message : Message) :
    Carries s (s.handler timing t message) := by
  rw [handler]
  split
  · exact .of_eq rfl rfl
  · cases message with
    | fileComplete =>
      have hschedule : Carries s (s.scheduleIfEnabled timing t) := (onlyTasks_scheduleIfEnabled s t).carries
      exact ⟨hschedule.connections, hschedule.checker⟩
    | extractionComplete =>
      have hschedule : Carries (s.complete t) ((s.complete t).scheduleIfEnabled timing t) :=
        (onlyTasks_scheduleIfEnabled (s.complete t) t).carries
      exact ⟨hschedule.connections, hschedule.checker⟩
    | record valid =>
      rw [operation]
      dsimp only
      split <;> exact .of_eq rfl rfl
    | unreadable => exact .of_eq rfl rfl

theorem carries_of_none (hconnections : s'.connections = s.connections) (hnone : s'.checker.carries = none) :
    Carries s s' := by
  refine ⟨hconnections, fun c hc => ?_⟩
  cases hnone.symm.trans hc

theorem carries_checkerSleeps (hconnections : s'.connections = s.connections) : Carries s s'.checkerSleeps :=
  carries_of_none hconnections (CheckerPc.carries_of_idle (idle_checkerSleeps s'))

theorem carries_dropped (hconnections : s'.connections = s.connections) : Carries s s'.dropped := by
  rw [dropped]
  split
  · exact carries_checkerSleeps hconnections
  · exact carries_of_none hconnections rfl

theorem carries_recoverConsumers (hconnections : s'.connections = s.connections) : Carries s s'.recoverConsumers := by
  rw [recoverConsumers]
  split
  · exact carries_of_none hconnections rfl
  · exact carries_of_none hconnections rfl

theorem carries_checkerWakes (s : Lifecycle) : Carries s (s.checkerWakes timing) := by
  rw [checkerWakes]
  split
  · exact carries_recoverConsumers rfl
  · split
    · exact carries_recoverConsumers rfl
    · split
      · exact carries_checkerSleeps rfl
      · split
        · exact carries_checkerSleeps rfl
        · exact carries_recoverConsumers rfl

theorem carries_droppingReplied (s : Lifecycle) (p : ClosePc) (reply : Reply) :
    Carries s (s.droppingReplied p reply) := by
  rw [droppingReplied]
  dsimp only
  split
  · exact carries_of_none rfl rfl
  · exact carries_dropped rfl

theorem carries_failingReplied (s : Lifecycle) (p : ClosePc) (reply : Reply) :
    Carries s (s.failingReplied p reply) := by
  rw [failingReplied]
  dsimp only
  split
  · exact carries_of_none rfl rfl
  · exact carries_checkerSleeps rfl

theorem carries_declareNext {c : Nat} (hcarries : s.checker.carries = some c)
    (hconnections : s'.connections = s.connections) (t : EntityType) (rest pending : List EntityType) :
    Carries s (s'.declareNext c t rest pending) := by
  rw [declareNext]
  split
  · exact ⟨hconnections, fun c' hc' => by cases hc'; exact hcarries⟩
  · exact carries_of_none hconnections rfl

theorem carries_consumeNext {c : Nat} (hcarries : s.checker.carries = some c)
    (hconnections : s'.connections = s.connections) (pending types : List EntityType) :
    Carries s (s'.consumeNext c pending types) := by
  rcases consumeNext_cases s' c pending types with heq | ⟨q, t, rest, _, _, _, heq⟩
  · rw [heq]
    exact carries_checkerSleeps hconnections
  · rw [heq]
    exact ⟨hconnections, fun c' hc' => by cases hc'; exact hcarries⟩

theorem connectionsStep_checkerSucceeds {count : Nat} (hstep : s.checkerSucceeds count = some s') :
    ConnectionsStep s s' (.checker .success count) := by
  rw [checkerSucceeds] at hstep
  cases hpc : s.checker with
  | absent | sleeping | exited => rw [hpc] at hstep; cases hstep
  | connecting =>
    rw [hpc] at hstep
    cases hstep
    exact .recovery hpc rfl rfl rfl
  | dropping p =>
    rw [hpc] at hstep
    cases hstep
    exact .same (carries_droppingReplied s p .success)
  | failing p =>
    rw [hpc] at hstep
    cases hstep
    exact .same (carries_failingReplied s p .success)
  | openingChannel c | closingTempChannel c =>
    rw [hpc] at hstep
    cases hstep
    exact .same ⟨rfl, fun c' hc' => by cases hc'; rw [hpc]; rfl⟩
  | closingTempConnection c =>
    rw [hpc] at hstep
    cases hstep
    exact .same (carries_checkerSleeps rfl)
  | inspecting c t rest pending =>
    rw [hpc] at hstep
    dsimp only at hstep
    generalize (if 0 < count then pending ++ [t] else pending) = pending' at hstep
    cases rest with
    | cons t rest =>
      cases hstep
      exact .same ⟨rfl, fun c' hc' => by cases hc'; rw [hpc]; rfl⟩
    | nil =>
      dsimp only at hstep
      split at hstep
      · cases hstep
        exact .same ⟨rfl, fun c' hc' => by cases hc'; rw [hpc]; rfl⟩
      · cases hstep
        exact .same ⟨rfl, fun c' hc' => by cases hc'; rw [hpc]; rfl⟩
  | settingQos c pending =>
    have hcarries : s.checker.carries = some c := by rw [hpc]; rfl
    rw [hpc] at hstep
    cases hstep
    refine .same (carries_declareNext hcarries ?_ _ _ _)
    rfl
  | declaring c q t rest pending =>
    have hcarries : s.checker.carries = some c := by rw [hpc]; rfl
    rw [hpc] at hstep
    cases rest with
    | cons t rest =>
      cases hstep
      refine .same (carries_declareNext hcarries ?_ _ _ _)
      rfl
    | nil =>
      cases hstep
      refine .same (carries_consumeNext hcarries ?_ _ _)
      rfl
  | consuming c q t rest pending =>
    have hcarries : s.checker.carries = some c := by rw [hpc]; rfl
    rw [hpc] at hstep
    cases hstep
    refine .same (carries_consumeNext hcarries ?_ _ _)
    rfl

theorem carries_checkerFails {reply : Reply} (hstep : s.checkerFails reply = some s') : Carries s s' := by
  rw [checkerFails] at hstep
  cases hpc : s.checker with
  | absent | sleeping | exited => rw [hpc] at hstep; cases hstep
  | dropping p =>
    rw [hpc] at hstep
    cases hstep
    exact carries_droppingReplied s p reply
  | failing p =>
    rw [hpc] at hstep
    cases hstep
    exact carries_failingReplied s p reply
  | connecting | openingChannel c =>
    rw [hpc] at hstep
    cases hstep
    exact carries_checkerSleeps rfl
  | inspecting c t rest pending | settingQos c pending | declaring c q t rest pending
  | consuming c q t rest pending | closingTempChannel c | closingTempConnection c =>
    rw [hpc] at hstep
    cases hstep
    exact carries_of_none rfl rfl

theorem carries_cancelAllConsumers (s : Lifecycle) : Carries s s.cancelAllConsumers := by
  rw [cancelAllConsumers, timersStopped, cancelAll]
  split
  · split <;> exact .of_eq rfl rfl
  · exact .of_eq rfl rfl

theorem carries_timersStopped (s : Lifecycle) : Carries s s.timersStopped := by
  rw [timersStopped, cancelAll]
  split <;> exact .of_eq rfl rfl

theorem carries_mainCloses (s : Lifecycle) (p : ClosePc) (reply : Reply) : Carries s (s.mainCloses p reply) := by
  rw [mainCloses]
  dsimp only
  split <;> exact .of_eq rfl rfl

theorem carries_startConsuming (hconnections : s'.connections = s.connections) (hchecker : s'.checker = s.checker)
    (c : Nat) (types : List EntityType) : Carries s (s'.startConsuming c types) := by
  cases types with
  | nil => exact carries_of_none hconnections rfl
  | cons t rest => exact .of_eq hconnections hchecker

theorem connectionsStep_mainSucceeds (hstep : s.mainSucceeds = some s') : ConnectionsStep s s' (.main .success) := by
  rw [mainSucceeds] at hstep
  cases hpc : s.main with
  | connecting retry =>
    rw [hpc] at hstep
    cases hstep
    exact .startup hpc rfl rfl rfl
  | starting | openingChannel c | settingQos c =>
    rw [hpc] at hstep
    cases hstep
    exact .same (.of_eq rfl rfl)
  | declaring c t rest =>
    rw [hpc] at hstep
    cases rest with
    | cons t rest => cases hstep; exact .same (.of_eq rfl rfl)
    | nil =>
      cases hstep
      refine .same (carries_startConsuming ?_ ?_ _ _)
      · rfl
      · rfl
  | consuming c t rest =>
    rw [hpc] at hstep
    cases hstep
    refine .same (carries_startConsuming ?_ ?_ _ _)
    · rfl
    · rfl
  | running =>
    rw [hpc] at hstep
    cases hstep
    split
    · exact .same (carries_cancelAllConsumers s)
    · exact .same (.of_eq rfl rfl)
  | stoppingTimers pending =>
    rw [hpc] at hstep
    dsimp only at hstep
    split at hstep
    · cases hstep
      exact .same (carries_timersStopped s)
    · cases hstep
  | stoppingConsumers pending =>
    rw [hpc] at hstep
    dsimp only at hstep
    split at hstep
    · cases hstep
      exact .same (.of_eq rfl rfl)
    · cases hstep
  | stoppingChecker =>
    rw [hpc] at hstep
    dsimp only at hstep
    split at hstep
    · split at hstep <;> cases hstep <;> exact .same (.of_eq rfl rfl)
    · cases hstep
  | closing p =>
    rw [hpc] at hstep
    cases hstep
    exact .same (carries_mainCloses s p .success)
  | exited => rw [hpc] at hstep; cases hstep

theorem carries_mainFails {reply : Reply} (hstep : s.mainFails reply = some s') : Carries s s' := by
  rw [mainFails] at hstep
  cases hpc : s.main with
  | connecting retry =>
    rw [hpc] at hstep
    dsimp only at hstep
    split at hstep <;> cases hstep <;> exact .of_eq rfl rfl
  | starting | openingChannel c | settingQos c | declaring c t rest | consuming c t rest =>
    rw [hpc] at hstep
    cases hstep
    exact .of_eq rfl rfl
  | closing p =>
    rw [hpc] at hstep
    cases hstep
    exact carries_mainCloses s p reply
  | running | stoppingTimers pending | stoppingConsumers pending | stoppingChecker | exited =>
    rw [hpc] at hstep
    cases hstep

theorem carries_mainCancelled (s : Lifecycle) : Carries s s.mainCancelled := by
  rw [mainCancelled]
  split
  · exact carries_cancelAllConsumers s
  · exact .of_eq rfl rfl
  · exact .of_eq rfl rfl
  · exact .of_eq rfl rfl

theorem connections_step (hstep : s.step timing e = some s') : ConnectionsStep s s' e := by
  cases e with
  | tick seconds => cases hstep; exact .same (.of_eq rfl rfl)
  | shutdown => cases hstep; exact .same (.of_eq rfl rfl)
  | main reply =>
    cases reply with
    | success => exact connectionsStep_mainSucceeds hstep
    | failure => exact .same (carries_mainFails hstep)
    | timedOut => exact .same (carries_mainFails hstep)
  | mainCancelled => cases hstep; exact .same (carries_mainCancelled s)
  | checkerWakes =>
    obtain ⟨_, heq⟩ := Option.ite_none_right_eq_some.mp hstep
    cases heq
    exact .same (carries_checkerWakes s)
  | checker reply count =>
    obtain ⟨_, heq⟩ := Option.ite_none_left_eq_some.mp hstep
    cases reply with
    | success => exact connectionsStep_checkerSucceeds heq
    | failure => exact .same (carries_checkerFails heq)
    | timedOut => exact .same (carries_checkerFails heq)
  | checkerInterrupted =>
    obtain ⟨_, heq⟩ := Option.ite_none_right_eq_some.mp hstep
    cases heq
    exact .same (carries_of_none rfl rfl)
  | taskWakes id =>
    obtain ⟨_, heq⟩ := Option.ite_none_right_eq_some.mp hstep
    cases heq
    exact .same (onlyTasks_taskWakes s id).carries
  | task id reply =>
    obtain ⟨_, heq⟩ := Option.ite_none_left_eq_some.mp hstep
    exact .same (onlyTasks_taskReplied heq).carries
  | taskInterrupted id =>
    obtain ⟨_, heq⟩ := Option.ite_none_right_eq_some.mp hstep
    exact .same (onlyTasks_taskInterrupted heq).carries
  | deliver t message =>
    obtain ⟨_, heq⟩ := Option.ite_none_right_eq_some.mp hstep
    cases heq
    exact .same (carries_handler s t message)
  | settled t outcome =>
    obtain ⟨_, heq⟩ := Option.ite_none_right_eq_some.mp hstep
    cases heq
    cases outcome <;> exact .same (.of_eq rfl rfl)

theorem ConnectionsStep.le (h : ConnectionsStep s s' e) : s.connections ≤ s'.connections := by
  cases h with
  | same hcarries => exact hcarries.connections.ge
  | startup _ heq _ _ | recovery _ _ heq _ => exact heq ▸ Nat.le_succ _

/-! ## Numbers in use -/

structure Numbered (s : Lifecycle) : Prop where
  activeConnection : ∀ c, s.activeConnection = some c → c < s.connections
  activeChannel : ∀ c, s.activeChannel = some c → c < s.connections
  tags : ∀ t r, s.consumerTags t = some r → r.channel < s.connections
  queues : ∀ t q, s.queues t = some q → q < s.connections
  consuming : ∀ c t rest, s.main = .consuming c t rest → c < s.connections
  carries : ∀ c, s.checker.carries = some c → c < s.connections
  checkerQueue : ∀ q, s.checker.queue = some q → q < s.connections

theorem numbered_init (now : Int) : Numbered { now := now } :=
  ⟨nofun, nofun, nofun, nofun, nofun, nofun, nofun⟩

theorem Numbered.connect {retry : Nat} {reply : Reply} (hpc : s.main = .connecting retry)
    (hstep : s.step timing (.main reply) = some s') {c : Nat} (hconn : s'.activeConnection = some c) : s.activeConnection = some c ∨ c < s'.connections := by
  cases reply with
  | success =>
    have heq : s.mainSucceeds = some s' := hstep
    rw [mainSucceeds, hpc] at heq
    cases heq
    cases hconn
    exact .inr (Nat.lt_succ_self _)
  | failure | timedOut =>
    have heq : s.mainFails _ = some s' := hstep
    rw [mainFails, hpc] at heq
    dsimp only at heq
    split at heq <;> cases heq <;> exact .inl hconn

theorem Numbered.activeConnection_step (hphases : s.Phases) (h : s.Numbered) (hstep : s.step timing e = some s')
    {c : Nat} (hconn : s'.activeConnection = some c) : c < s'.connections := by
  have hle : s.connections ≤ s'.connections := (connections_step hstep).le
  have hold : s.activeConnection = some c → c < s'.connections := fun hc => (h.activeConnection c hc).trans_le hle
  have htransport := transport_step hphases hstep
  generalize ht : s'.toTransport = t at htransport
  have hconn' : t.activeConnection = some c := ht ▸ hconn
  cases htransport with
  | same | request | closeChannel _ _ | reset _ _ _ | openChannel _ _ | startWatch _ _ | register _ _
  | tempChannelClosed _ _ | tempConnectionClosed _ _ => exact hold hconn'
  | cancel _ _ =>
    rw [forgetConsumer] at hconn'
    split at hconn' <;> exact hold hconn'
  | closed _ hcloses | dropped _ _ _ hcloses =>
    cases (hasTransport_eq_false.mp hcloses.hasTransport).1.symm.trans hconn'
  | connect he hpc =>
    cases e with
    | main reply =>
      rcases Numbered.connect hpc hstep hconn with hc | hlt
      · exact hold hc
      · exact hlt
    | _ => cases he
  | adopt _ hpc _ =>
    cases hconn'
    exact (h.carries c (by rw [hpc]; rfl)).trans_le hle
  | adoptFailed _ hopened =>
    cases hconn'
    exact (h.carries c (CheckerPc.carries_of_opened hopened)).trans_le hle

theorem Numbered.activeChannel_step (hphases : s.Phases) (hopen : s.main.opening = true → s.Opening) (h : s.Numbered)
    (hstep : s.step timing e = some s') {c : Nat} (hchannel : s'.activeChannel = some c) : c < s'.connections := by
  have hle : s.connections ≤ s'.connections := (connections_step hstep).le
  have hold : s.activeChannel = some c → c < s'.connections := fun hc => (h.activeChannel c hc).trans_le hle
  have htransport := transport_step hphases hstep
  generalize ht : s'.toTransport = t at htransport
  have hchannel' : t.activeChannel = some c := ht ▸ hchannel
  cases htransport with
  | same | request | connect _ _ | reset _ _ _ | startWatch _ _ | register _ _ | tempChannelClosed _ _
  | tempConnectionClosed _ _ => exact hold hchannel'
  | closeChannel _ _ => cases hchannel'
  | cancel _ _ =>
    rw [forgetConsumer] at hchannel'
    split at hchannel' <;> exact hold hchannel'
  | closed _ hcloses | dropped _ _ _ hcloses =>
    cases (hasTransport_eq_false.mp hcloses.hasTransport).2.symm.trans hchannel'
  | openChannel _ hpc =>
    cases hchannel'
    have hconn := (hopen (by rw [hpc]; rfl)).connection
    rw [hpc] at hconn
    exact (h.activeConnection c hconn).trans_le hle
  | adopt _ hpc _ =>
    cases hchannel'
    exact (h.carries c (by rw [hpc]; rfl)).trans_le hle
  | adoptFailed _ hopened =>
    cases hchannel'
    exact (h.carries c (CheckerPc.carries_of_opened hopened)).trans_le hle

theorem Numbered.queues_step (hopen : s.main.opening = true → s.Opening) (h : s.Numbered)
    (hstep : TablesStep s s' e) {t : EntityType} {q : Nat} (hq : s'.queues t = some q) : q < s.connections := by
  cases hstep with
  | same hkeeps | tick hkeeps | shutdown hkeeps | completes _ hkeeps | uncompletes hkeeps | recovers _ hkeeps =>
    rw [hkeeps.queues] at hq
    exact h.queues t q hq
  | @settles _ outcome _ hkeeps =>
    rw [hkeeps.queues] at hq
    cases outcome <;> exact h.queues t q hq
  | forgets hkeeps _ =>
    rw [hkeeps.queues] at hq
    cases hq
  | @declares _ q' u hkeeps hpc =>
    rw [hkeeps.queues] at hq
    by_cases hu : t = u
    · rw [hu] at hq
      cases (Function.update_self u (some q') s.queues).symm.trans hq
      rcases hpc with ⟨rest, hmain⟩ | ⟨c, rest, pending, hchecker⟩
      · have hconn := (hopen (by rw [hmain]; rfl)).connection
        rw [hmain] at hconn
        exact h.activeConnection q hconn
      · exact h.checkerQueue q (by rw [hchecker]; rfl)
    · exact h.queues t q ((Function.update_of_ne hu _ s.queues).symm.trans hq)

theorem Numbered.step (hphases : s.Phases) (hopen : s.main.opening = true → s.Opening) (h : s.Numbered)
    (hstep : s.step timing e = some s') : s'.Numbered := by
  have hturn := turn_step hstep
  have hconnections := connections_step hstep
  have hle : s.connections ≤ s'.connections := hconnections.le
  have hqueues : ∀ t q, s'.queues t = some q → q < s'.connections :=
    fun t q hq => (h.queues_step hopen hturn.tables hq).trans_le hle
  refine ⟨fun c => h.activeConnection_step hphases hstep, fun c => h.activeChannel_step hphases hopen hstep, ?_, hqueues,
    ?_, ?_, ?_⟩
  · intro t r hr
    rcases (transport_step hphases hstep).registered (u := t) (by rw [hr]; exact nofun) with hsame | ⟨q, hhears, hnew⟩
    · exact (h.tags t r (hsame ▸ hr)).trans_le hle
    · have hregistered : s'.consumerTags t = some ⟨consumerTag t, q⟩ := by
        rw [hnew]
        exact registerConsumer_self s.toTransport s.now t q
      cases hregistered.symm.trans hr
      cases hhears with
      | main hpc => exact (h.consuming _ _ _ hpc).trans_le hle
      | checker hpc => exact (h.checkerQueue q (by rw [hpc]; rfl)).trans_le hle
  · intro c t rest hpc
    have hmain := hturn.main
    rw [hpc] at hmain
    rcases hmain.consuming with ⟨u, hdeclaring, _⟩ | ⟨u, rest', hold, _⟩ | hold
    · have hconn := (hopen (by rw [hdeclaring]; rfl)).connection
      rw [hdeclaring] at hconn
      exact (h.activeConnection c hconn).trans_le hle
    · exact (h.consuming _ _ _ hold).trans_le hle
    · exact (h.consuming _ _ _ hold).trans_le hle
  · intro c hc
    cases hconnections with
    | same hcarries => exact hcarries.connections.symm ▸ h.carries c (hcarries.checker c hc)
    | startup _ heq hchecker _ => exact (h.carries c (hchecker ▸ hc)).trans_le hle
    | recovery _ hpc heq _ =>
      rw [hpc] at hc
      cases hc
      exact heq ▸ Nat.lt_succ_self _
  · intro q hq
    rcases hturn.checker.queue hq with hold | hchannel | ⟨t, ht⟩
    · exact (h.checkerQueue q hold).trans_le hle
    · exact (h.activeChannel q hchannel).trans_le hle
    · exact hqueues t q ht

/-- What every run keeps, whatever the broker does. -/
structure Sound (s : Lifecycle) : Prop where
  phases : s.Phases
  opening : s.main.opening = true → s.Opening
  numbered : s.Numbered
  /-- `main` closes the transport when the checker is gone. -/
  closing : ∀ p, s.main = .closing p → s.checker = .exited ∨ s.checker = .absent

theorem sound_init (now : Int) : Sound { now := now } :=
  ⟨phases_init now, fun _ => opening_init now, numbered_init now, nofun⟩

theorem Sound.step (h : s.Sound) (hstep : s.step timing e = some s') : s'.Sound := by
  have hturn := turn_step hstep
  refine ⟨h.phases.step hstep, fun hopening' => ?_, h.numbered.step h.phases h.opening hstep, fun p hpc => ?_⟩
  · have hopening := hturn.main.opening hopening'
    exact (h.opening hopening).step h.phases hstep hopening hopening'
  · have hmain := hturn.main
    rw [hpc] at hmain
    have hpast : ∀ p₀, s.main = .closing p₀ ∨ s.main = .stoppingChecker → s.main.startup = false := by
      rintro p₀ (hpc' | hpc') <;> rw [hpc'] <;> rfl
    rcases hmain.closing with hold | ⟨⟨hold, hgone⟩ | ⟨p₀, hold⟩, _⟩
    · exact hturn.checker.gone (hpast p (.inl hold)) (h.closing p hold)
    · exact hturn.checker.gone (hpast p (.inr hold)) hgone
    · exact hturn.checker.gone (hpast p₀ (.inl hold)) (h.closing p₀ hold)

theorem sound_of_run {ok : Lifecycle → Event → Prop} {now : Int} {es : List Event}
    (h : Runs.Run (Lifecycle.step timing) ok { now := now } es s) : s.Sound :=
  h.invariant (sound_init now) fun hsound _ hstep => hsound.step hstep

/-! ## Asking for a recovery -/

/-- The task sends a cancel in its first turn. -/
def Cancels (s : Lifecycle) (id : Nat) : Prop :=
  (s.tasks id).kind = .shutdown ∨ s.consumerTags (s.tasks id).dataType ≠ none

/-- A step that asks for a recovery: a broker call has not succeeded, or what it needs is not there. -/
inductive Requests (s : Lifecycle) : Event → Prop
  | missingQueue {id : Nat} : s.Cancels id → (s.tasks id).queue = none → Requests s (.taskWakes id)
  | cancel {id : Nat} {tag : String} {reply : Reply} : (s.tasks id).pc = .cancelling tag →
      (s.tasks id).cancelled = false → reply ≠ .success → Requests s (.task id reply)
  | interrupted {id : Nat} {tag : String} : (s.tasks id).pc = .cancelling tag → Requests s (.taskInterrupted id)
  | close {e : Event} {p : ClosePc} {reply : Reply} : HearsClose s e p reply → reply ≠ .success → Requests s e
  | recovery {reply : Reply} {count : Nat} : reply ≠ .success → Requests s (.checker reply count)
  | channelLost {count : Nat} : s.checker.bare = true → s.activeChannel = none → Requests s (.checker .success count)

theorem requested_closeReplied {t : Transport} {p : ClosePc}
    (hset : (t.closeReplied p .success).1.consumerRecoveryRequested = true) : t.consumerRecoveryRequested = true := by
  cases p with
  | channel c =>
    rw [closeReplied, closeConnection] at hset
    cases hconn : t.activeConnection with
    | some c' => simpa only [hconn] using hset
    | none =>
      simp only [hconn, closeEnds, Option.isSome_none] at hset
      exact hset
  | connection c => exact hset

theorem Requests.of_closeReplied {p : ClosePc} {reply : Reply} (hhears : HearsClose s e p reply)
    (hclear : s.consumerRecoveryRequested = false)
    (hset : (s.closeReplied p reply).1.consumerRecoveryRequested = true) : Requests s e := by
  refine .close hhears fun hreply => ?_
  rw [hreply] at hset
  rw [requested_closeReplied hset] at hclear
  cases hclear

theorem requests_taskWakes (hclear : s.consumerRecoveryRequested = false)
    (hset : (s.taskWakes id).consumerRecoveryRequested = true) : Requests s (.taskWakes id) := by
  have hcancel : ∀ tag, (s.cancelConsumer id tag).consumerRecoveryRequested = true → (s.tasks id).queue = none := by
    intro tag hset
    rw [cancelConsumer] at hset
    split at hset
    · rename_i hqueue
      exact hqueue
    · cases hclear.symm.trans hset
  rw [taskWakes] at hset
  split at hset
  · split at hset
    · rename_i r hr
      exact .missingQueue (.inr (by rw [hr]; rintro ⟨⟩)) (hcancel _ hset)
    · cases hclear.symm.trans hset
  · rename_i hkind
    exact .missingQueue (.inl hkind) (hcancel _ hset)

theorem requests_taskReplied {reply : Reply} (hcancelled : (s.tasks id).cancelled = false)
    (hstep : s.taskReplied id reply = some s') (hclear : s.consumerRecoveryRequested = false)
    (hset : s'.consumerRecoveryRequested = true) : Requests s (.task id reply) := by
  rw [taskReplied] at hstep
  split at hstep
  · rename_i tag q hpc hqueue
    cases reply with
    | success =>
      cases hstep
      rw [toTransport_cancelSucceeds, forgetConsumer] at hset
      split at hset <;> cases hclear.symm.trans hset
    | failure | timedOut => exact .cancel hpc hcancelled (by rintro ⟨⟩)
  · rename_i p hpc
    cases hstep
    rw [toTransport_taskCloses] at hset
    exact .of_closeReplied (.task hpc hcancelled) hclear hset
  · cases hstep

theorem requested_declareNext {c : Nat} {t : EntityType} {rest pending : List EntityType}
    (hset : (s.declareNext c t rest pending).consumerRecoveryRequested = true)
    (hclear : s.consumerRecoveryRequested = false) : s.activeChannel = none := by
  rw [declareNext] at hset
  split at hset
  · cases hclear.symm.trans hset
  · rename_i hnone
    exact hnone

theorem requested_dropped (hclear : s.consumerRecoveryRequested = false) : s.dropped.consumerRecoveryRequested = false := by
  rw [dropped]
  split
  · exact hclear
  · rfl

theorem requests_checkerSucceeds {count : Nat} (hstep : s.checkerSucceeds count = some s')
    (hclear : s.consumerRecoveryRequested = false) (hset : s'.consumerRecoveryRequested = true) :
    Requests s (.checker .success count) := by
  rw [checkerSucceeds] at hstep
  cases hpc : s.checker with
  | absent | sleeping | exited => rw [hpc] at hstep; cases hstep
  | connecting | openingChannel c | closingTempChannel c | closingTempConnection c =>
    rw [hpc] at hstep
    cases hstep
    cases hclear.symm.trans hset
  | dropping p =>
    rw [hpc] at hstep
    cases hstep
    refine .of_closeReplied (.dropping hpc) hclear ?_
    by_contra hnot
    rw [droppingReplied] at hset
    dsimp only at hset
    split at hset
    · exact hnot hset
    · cases (requested_dropped (Bool.not_eq_true _ ▸ hnot)).symm.trans hset
  | failing p =>
    rw [hpc] at hstep
    cases hstep
    rw [failingReplied] at hset
    refine .of_closeReplied (.failing hpc) hclear ?_
    dsimp only at hset
    split at hset <;> exact hset
  | inspecting c t rest pending =>
    rw [hpc] at hstep
    dsimp only at hstep
    generalize (if 0 < count then pending ++ [t] else pending) = pending' at hstep
    cases rest with
    | cons t rest =>
      cases hstep
      cases hclear.symm.trans hset
    | nil =>
      dsimp only at hstep
      split at hstep <;> cases hstep <;> cases hclear.symm.trans hset
  | settingQos c pending =>
    have hbare : s.checker.bare = true := by rw [hpc]; rfl
    rw [hpc] at hstep
    cases hstep
    have hnone := requested_declareNext hset hclear
    exact .channelLost hbare hnone
  | declaring c q t rest pending =>
    have hbare : s.checker.bare = true := by rw [hpc]; rfl
    rw [hpc] at hstep
    cases rest with
    | cons t rest =>
      cases hstep
      have hnone := requested_declareNext hset hclear
      exact .channelLost hbare hnone
    | nil =>
      cases hstep
      rw [toTransport_consumeNext] at hset
      cases hclear.symm.trans hset
  | consuming c q t rest pending =>
    rw [hpc] at hstep
    cases hstep
    rw [toTransport_consumeNext] at hset
    cases hclear.symm.trans hset

theorem requested_recoverConsumers (hclear : s.consumerRecoveryRequested = false) :
    s.recoverConsumers.consumerRecoveryRequested = false := by
  rw [recoverConsumers]
  split
  · exact hclear
  · rfl

theorem requested_checkerWakes (hclear : s.consumerRecoveryRequested = false) :
    (s.checkerWakes timing).consumerRecoveryRequested = false := by
  rw [checkerWakes]
  split
  · exact requested_recoverConsumers hclear
  · split
    · exact requested_recoverConsumers hclear
    · split
      · exact hclear
      · split
        · exact hclear
        · exact requested_recoverConsumers hclear

theorem requests_mainReplied {reply : Reply} (hstep : s.mainReplied reply = some s')
    (hclear : s.consumerRecoveryRequested = false) (hset : s'.consumerRecoveryRequested = true) :
    Requests s (.main reply) := by
  have hcloses : ∀ p, s.main = .closing p → s' = s.mainCloses p reply → Requests s (.main reply) := by
    rintro p hpc rfl
    rw [mainCloses] at hset
    refine .of_closeReplied (.main hpc) hclear ?_
    dsimp only at hset
    split at hset <;> exact hset
  cases reply with
  | success =>
    have heq : s.mainSucceeds = some s' := hstep
    rw [mainSucceeds] at heq
    cases hpc : s.main with
    | closing p =>
      rw [hpc] at heq
      cases heq
      exact hcloses p hpc rfl
    | starting | connecting retry | openingChannel c | settingQos c =>
      rw [hpc] at heq
      cases heq
      cases hclear.symm.trans hset
    | declaring c t rest | consuming c t rest =>
      rw [hpc] at heq
      cases rest <;> cases heq <;> cases hclear.symm.trans hset
    | running =>
      rw [hpc] at heq
      cases heq
      split at hset
      · rw [toTransport_cancelAllConsumers] at hset
        cases hclear.symm.trans hset
      · cases hclear.symm.trans hset
    | stoppingTimers pending =>
      rw [hpc] at heq
      dsimp only at heq
      split at heq
      · cases heq
        rw [timersStopped, toTransport_cancelAll] at hset
        cases hclear.symm.trans hset
      · cases heq
    | stoppingConsumers pending =>
      rw [hpc] at heq
      dsimp only at heq
      split at heq <;> cases heq
      cases hclear.symm.trans hset
    | stoppingChecker =>
      rw [hpc] at heq
      dsimp only at heq
      split at heq
      · split at heq <;> cases heq <;> cases hclear.symm.trans hset
      · cases heq
    | exited => rw [hpc] at heq; cases heq
  | failure | timedOut =>
    have heq : s.mainFails _ = some s' := hstep
    rw [mainFails] at heq
    cases hpc : s.main with
    | closing p =>
      rw [hpc] at heq
      cases heq
      exact hcloses p hpc rfl
    | connecting retry =>
      rw [hpc] at heq
      dsimp only at heq
      split at heq <;> cases heq <;> cases hclear.symm.trans hset
    | starting | openingChannel c | settingQos c | declaring c t rest | consuming c t rest =>
      rw [hpc] at heq
      cases heq
      cases hclear.symm.trans hset
    | running | stoppingTimers pending | stoppingConsumers pending | stoppingChecker | exited =>
      rw [hpc] at heq
      cases heq

theorem requests_step (hstep : s.step timing e = some s') (hclear : s.consumerRecoveryRequested = false)
    (hset : s'.consumerRecoveryRequested = true) : Requests s e := by
  cases e with
  | tick seconds | shutdown => cases hstep; cases hclear.symm.trans hset
  | main reply => exact requests_mainReplied hstep hclear hset
  | mainCancelled =>
    cases hstep
    rw [mainCancelled] at hset
    split at hset
    · rw [toTransport_cancelAllConsumers] at hset
      cases hclear.symm.trans hset
    · cases hclear.symm.trans hset
    · cases hclear.symm.trans hset
    · cases hclear.symm.trans hset
  | checkerWakes =>
    obtain ⟨_, heq⟩ := Option.ite_none_right_eq_some.mp hstep
    cases heq
    cases (requested_checkerWakes hclear).symm.trans hset
  | checker reply count =>
    obtain ⟨_, heq⟩ := Option.ite_none_left_eq_some.mp hstep
    cases reply with
    | success => exact requests_checkerSucceeds heq hclear hset
    | failure | timedOut => exact .recovery (by rintro ⟨⟩)
  | checkerInterrupted =>
    obtain ⟨_, heq⟩ := Option.ite_none_right_eq_some.mp hstep
    cases heq
    cases hclear.symm.trans hset
  | taskWakes id =>
    obtain ⟨_, heq⟩ := Option.ite_none_right_eq_some.mp hstep
    cases heq
    exact requests_taskWakes hclear hset
  | task id reply =>
    obtain ⟨hcancelled, heq⟩ := Option.ite_none_left_eq_some.mp hstep
    exact requests_taskReplied (Bool.not_eq_true _ ▸ hcancelled) heq hclear hset
  | taskInterrupted id =>
    obtain ⟨_, heq⟩ := Option.ite_none_right_eq_some.mp hstep
    have hinterrupted : s.taskInterrupted id = some s' := heq
    rw [Lifecycle.taskInterrupted] at hinterrupted
    split at hinterrupted
    · rename_i tag hpc
      exact .interrupted hpc
    · cases hinterrupted
      cases hclear.symm.trans hset
    · cases hinterrupted
      cases hclear.symm.trans hset
    · cases hinterrupted
  | deliver t message =>
    obtain ⟨_, heq⟩ := Option.ite_none_right_eq_some.mp hstep
    cases heq
    rw [toTransport_handler] at hset
    cases hclear.symm.trans hset
  | settled t outcome =>
    obtain ⟨_, heq⟩ := Option.ite_none_right_eq_some.mp hstep
    cases heq
    cases outcome <;> cases hclear.symm.trans hset

end Lifecycle

end Brainzgraphinator
