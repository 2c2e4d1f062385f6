-- SUMMARY: After a reconnect the recovery request stays cleared, unless an old cancel is still in flight.
import Brainzgraphinator.Lifecycle.Connections
import Brainzgraphinator.Lifecycle.Recovery
import Brainzgraphinator.Lifecycle.StaleTimers

/-!
# The reset of the recovery request

The reconnect cancels the timers and clears the request. A timer whose cancel request is
in flight hears of its own cancellation afterwards, and asks for a recovery once more. If
there is none, and no timer uses a handle of an earlier connection later on, then only a
broker call on the new connection that does not succeed asks for another recovery.
-/

namespace Brainzgraphinator

namespace Timers

variable {s : Timers} {id : Nat}

/-- A stored timer is cancelled when all are dropped. -/
theorem cancelled_dropTimers {t : EntityType} (hstored : s.consumerCancelTasks t = some id) :
    (s.dropTimers.tasks id).cancelled = true := by
  have hkeeps : ∀ (types : List EntityType) (s : Timers), (s.tasks id).cancelled = true →
      ((types.foldl dropTimer s).tasks id).cancelled = true := by
    intro types s hcancelled
    refine List.foldlRecOn (motive := fun s : Timers => (s.tasks id).cancelled = true) _ _ hcancelled ?_
    intro s hs u _
    rcases left_dropTimer s u id with heq | heq
    · rw [heq, hs]
    · rw [heq]
  have hall : ∀ (types : List EntityType) (s : Timers), t ∈ types → s.consumerCancelTasks t = some id →
      ((types.foldl dropTimer s).tasks id).cancelled = true := by
    intro types
    induction types with
    | nil => nofun
    | cons u types ih =>
      intro s ht hstored
      by_cases hu : t = u
      · subst hu
        apply hkeeps types
        rw [dropTimer, hstored]
        exact congrArg CancelTask.cancelled (setTask_self s id _)
      · refine ih (s.dropTimer u) ((List.mem_cons.mp ht).resolve_left hu) ?_
        rw [dropTimer]
        split
        · exact (Function.update_of_ne hu none s.consumerCancelTasks).trans hstored
        · exact hstored
  exact hall musicbrainzDataTypes s (mem_musicbrainzDataTypes t) hstored

end Timers

namespace Lifecycle

open Transport

variable {timing : Timing} {s s' : Lifecycle} {e : Event} {id c : Nat}

/-! ## What tasks do in a step -/

/-- A task is left alone, is new, or takes its turn; what it begins to close is there. -/
theorem TimersStep.task {after : Transport} {timers : Timers} (h : TimersStep s after e timers) (id : Nat) :
    Timers.Left s.toTimers timers id ∨ (timers.tasks id).pc = .waiting ∨
      e.task? = some id ∧ ∃ pc, timers.tasks id = { s.tasks id with pc := pc } ∧ ∀ p, pc = .closing p →
        after.closeRabbitmqConnection = some p ∨ after.activeConnection = some p.number := by
  cases h with
  | same => exact .inl (.refl _ id)
  | @setPc _ id' pc he _ _ hcloses =>
    by_cases hid : id = id'
    · subst hid
      exact .inr (.inr ⟨he, pc, Timers.setTask_self s.toTimers id _, hcloses⟩)
    · exact .inl (.inl (Timers.setTask_of_ne hid _))
  | @finish _ id' he =>
    by_cases hid : id = id'
    · subst hid
      exact .inr (.inr ⟨he, .finished, Timers.setTask_self s.toTimers id _, nofun⟩)
    · exact .inl (.inl (Timers.setTask_of_ne hid _))
  | drop => exact .inl (Timers.left_dropTimer _ _ id)
  | @schedule t _ queue _ _ =>
    by_cases hnew : id = (s.dropTimer t).taskCount
    · refine .inr (.inl ?_)
      rw [hnew]
      have hself := Timers.createTask_self (s.dropTimer t) { kind := .timer, dataType := t, queue := some queue }
      exact congrArg CancelTask.pc hself
    · exact .inl ((Timers.left_dropTimer s.toTimers t id).trans (.inl (Timers.createTask_of_ne hnew _)))
  | dropAll _ _ => exact .inl (Timers.left_dropTimers _ id)
  | cancels _ => exact .inl (Timers.left_cancelTasks _ _ id)
  | clear _ _ =>
    suffices hgoal : Timers.Left s.toTimers s.clearedTimers id ∨ (s.clearedTimers.tasks id).pc = .waiting from
      hgoal.imp_right .inl
    rw [clearedTimers]
    refine List.foldlRecOn (motive := fun timers : Timers =>
      Timers.Left s.toTimers timers id ∨ (timers.tasks id).pc = .waiting) _ _ (.inl (.inl rfl)) ?_
    intro timers hs task htask
    obtain ⟨t, _, rfl⟩ := List.mem_map.mp htask
    by_cases hnew : id = timers.taskCount
    · refine .inr ?_
      rw [hnew, Timers.createTask_self]
    · have hsame := Timers.createTask_of_ne (s := timers) hnew
        { kind := .shutdown, dataType := t, queue := s.queues t, tag := ((s.consumerTags t).map Registration.tag).getD "" }
      rcases hs with hleft | hwaiting
      · exact .inl (hleft.trans (.inl hsame))
      · refine .inr ?_
        rw [hsame, hwaiting]

theorem pc_of_finishTask (h : s'.toTimers = s.finishTask id) : (s'.tasks id).pc = .finished := by
  rw [h]
  exact congrArg CancelTask.pc (Timers.setTask_self s.toTimers id _)

theorem tasks_setPc_self (s : Lifecycle) (id : Nat) (pc : TaskPc) :
    (s.setPc id pc).tasks id = { s.tasks id with pc := pc } :=
  Timers.setTask_self s.toTimers id _

/-- A cancel is sent in the first turn of its task. -/
theorem cancelling_of_step (hstep : s.step timing e = some s') {tag : String}
    (hpc : (s'.tasks id).pc = .cancelling tag) :
    (s.tasks id).pc = .cancelling tag ∧ (s'.tasks id).queue = (s.tasks id).queue ∨
      e = .taskWakes id ∧ s.Cancels id ∧ (s'.tasks id).queue = (s.tasks id).queue := by
  by_cases he : e.task? = some id
  · have hfinished : ∀ s' : Lifecycle, s'.toTimers = s.finishTask id → (s'.tasks id).pc ≠ .cancelling tag := by
      intro s' htimers
      rw [pc_of_finishTask htimers]
      rintro ⟨⟩
    cases e with
    | taskWakes id' =>
      cases he
      obtain ⟨_, heq⟩ := Option.ite_none_right_eq_some.mp hstep
      have hwakes : s' = s.taskWakes id := (Option.some.inj heq).symm
      have hcancel : ∀ tag', s' = s.cancelConsumer id tag' → (s'.tasks id).queue = (s.tasks id).queue := by
        rintro tag' rfl
        rw [cancelConsumer] at hpc ⊢
        split at hpc
        · exact absurd hpc (hfinished _ rfl)
        · rename_i q hq
          rw [hq]
          exact (congrArg CancelTask.queue (tasks_setPc_self s id _)).trans hq
      refine .inr ⟨rfl, ?_⟩
      rw [taskWakes] at hwakes
      split at hwakes
      · split at hwakes
        · rename_i r hr
          exact ⟨.inr (by rw [hr]; rintro ⟨⟩), hcancel _ hwakes⟩
        · exact absurd hpc (hfinished s' (by rw [hwakes]; rfl))
      · rename_i hkind
        exact ⟨.inl hkind, hcancel _ hwakes⟩
    | task id' reply =>
      cases he
      obtain ⟨_, heq⟩ := Option.ite_none_left_eq_some.mp hstep
      have hcloses : ∀ (s₀ : Lifecycle) (next : Option ClosePc), s₀.toTimers = s.toTimers →
          ((s₀.taskCloses id next).tasks id).pc ≠ .cancelling tag := by
        intro s₀ next htimers
        cases next with
        | none => exact hfinished _ (by rw [← htimers]; rfl)
        | some p =>
          rw [taskCloses, tasks_setPc_self]
          rintro ⟨⟩
      have hreplied : s.taskReplied id reply = some s' := heq
      rw [taskReplied] at hreplied
      split at hreplied
      · cases reply with
        | success =>
          cases hreplied
          rw [cancelSucceeds] at hpc
          split at hpc
          · split at hpc
            · exact absurd hpc (hcloses _ _ rfl)
            · exact absurd hpc (hfinished _ rfl)
          · exact absurd hpc (hfinished _ rfl)
        | failure | timedOut =>
          cases hreplied
          exact absurd hpc (hfinished _ rfl)
      · cases hreplied
        exact absurd hpc (hcloses _ _ rfl)
      · cases hreplied
    | taskInterrupted id' =>
      cases he
      obtain ⟨_, heq⟩ := Option.ite_none_right_eq_some.mp hstep
      have hinterrupted : s.taskInterrupted id = some s' := heq
      rw [taskInterrupted] at hinterrupted
      split at hinterrupted
      · cases hinterrupted
        exact absurd hpc (hfinished _ rfl)
      · cases hinterrupted
        exact absurd hpc (hfinished _ rfl)
      · cases hinterrupted
        exact absurd hpc (hfinished _ rfl)
      · cases hinterrupted
    | tick | shutdown | main | mainCancelled | checkerWakes | checker | checkerInterrupted | deliver | settled => cases he
  · rcases (timers_step hstep).task id with hleft | hwaiting | ⟨hturn, _⟩
    · refine .inl ⟨hleft.pc ▸ hpc, ?_⟩
      rcases hleft with heq | heq <;> rw [heq]
    · cases hwaiting.symm.trans hpc
    · exact absurd hturn he

/-- A task begins to close what is there, once its cancel is confirmed or its close goes on. -/
theorem closing_of_step (hstep : s.step timing e = some s') {p : ClosePc} (hpc : (s'.tasks id).pc = .closing p) :
    (s.tasks id).pc = .closing p ∧ ((s.tasks id).cancelled = true → (s'.tasks id).cancelled = true) ∨
      ((∃ tag, (s.tasks id).pc = .cancelling tag) ∨ ∃ p₀, (s.tasks id).pc = .closing p₀ ∧ (s.tasks id).cancelled = false) ∧
        (s'.closeRabbitmqConnection = some p ∨ s'.activeConnection = some p.number) := by
  rcases (timers_step hstep).task id with hleft | hwaiting | ⟨he, pc, htask, hcloses⟩
  · refine .inl ⟨hleft.pc ▸ hpc, fun hcancelled => ?_⟩
    rcases hleft with heq | heq <;> rw [heq]
    exact hcancelled
  · cases hwaiting.symm.trans hpc
  · rw [htask] at hpc
    refine .inr ⟨?_, hcloses p hpc⟩
    have hne : ∀ s' : Lifecycle, (s'.tasks id).pc = .closing p → s'.toTimers ≠ s.finishTask id := by
      intro s' hpc htimers
      rw [pc_of_finishTask htimers] at hpc
      cases hpc
    have hpc' : (s'.tasks id).pc = .closing p := by rw [htask]; exact hpc
    cases e with
    | task id' reply =>
      cases he
      obtain ⟨hcancelled, heq⟩ := Option.ite_none_left_eq_some.mp hstep
      have hreplied : s.taskReplied id reply = some s' := heq
      rw [taskReplied] at hreplied
      split at hreplied
      · rename_i tag q hold _
        exact .inl ⟨tag, hold⟩
      · rename_i p₀ hold
        exact .inr ⟨p₀, hold, Bool.not_eq_true _ ▸ hcancelled⟩
      · cases hreplied
    | taskWakes id' =>
      cases he
      obtain ⟨_, heq⟩ := Option.ite_none_right_eq_some.mp hstep
      cases heq
      have hcancel : ∀ tag', ((s.cancelConsumer id tag').tasks id).pc ≠ .closing p := by
        intro tag' hclosing
        rw [cancelConsumer] at hclosing
        split at hclosing
        · exact hne _ hclosing rfl
        · rw [tasks_setPc_self] at hclosing
          cases hclosing
      rw [taskWakes] at hpc'
      split at hpc'
      · split at hpc'
        · exact absurd hpc' (hcancel _)
        · exact absurd rfl (hne _ hpc')
      · exact absurd hpc' (hcancel _)
    | taskInterrupted id' =>
      cases he
      obtain ⟨_, heq⟩ := Option.ite_none_right_eq_some.mp hstep
      have hinterrupted : s.taskInterrupted id = some s' := heq
      rw [taskInterrupted] at hinterrupted
      split at hinterrupted
      · cases hinterrupted
        exact absurd rfl (hne _ hpc')
      · cases hinterrupted
        exact absurd rfl (hne _ hpc')
      · cases hinterrupted
        exact absurd rfl (hne _ hpc')
      · cases hinterrupted
    | tick | shutdown | main | mainCancelled | checkerWakes | checker | checkerInterrupted | deliver | settled => cases he

/-! ## The reconnect -/

theorem checker_ne_connecting {count : Nat} (hstep : s.checkerSucceeds count = some s')
    (hunplugged : s.checker.unplugged = true) : s'.checker ≠ .connecting := by
  rw [checkerSucceeds] at hstep
  cases hpc : s.checker with
  | connecting | openingChannel c | closingTempChannel c =>
    rw [hpc] at hstep
    cases hstep
    rintro ⟨⟩
  | closingTempConnection c =>
    rw [hpc] at hstep
    cases hstep
    intro hconnecting
    have hidle := idle_checkerSleeps { s with connectionClosed := Function.update s.connectionClosed c true }
    rw [← hpc] at hconnecting
    rw [hconnecting] at hidle
    cases hidle
  | inspecting c t rest pending =>
    rw [hpc] at hstep
    dsimp only at hstep
    generalize (if 0 < count then pending ++ [t] else pending) = pending' at hstep
    cases rest with
    | cons t rest => cases hstep; rintro ⟨⟩
    | nil =>
      dsimp only at hstep
      split at hstep <;> cases hstep <;> rintro ⟨⟩
  | absent | sleeping | dropping | settingQos | declaring | consuming | failing | exited =>
    rw [hpc] at hunplugged
    cases hunplugged

/-- The reconnect begins: all timers are dropped, and the request is cleared. -/
theorem connecting_of_step (hstep : s.step timing e = some s') (hpc : s'.checker = .connecting) :
    s.checker = .connecting ∨ (e = .checkerWakes ∨ ∃ p, s.checker = .dropping p) ∧
      s'.toTimers = s.dropTimers ∧ s'.consumerRecoveryRequested = false := by
  have hchecker := (turn_step hstep).checker
  rw [hpc] at hchecker
  generalize hc : CheckerPc.connecting = pc at hchecker
  cases hchecker with
  | same _ => exact .inl rfl
  | stays _ hidle _ | covered _ hidle _ | recovered _ hidle _ | failed _ hidle | closes _ hidle | requests _ hidle _ =>
    rw [← hc] at hidle
    cases hidle
  | starts _ | interrupted _ | drops _ _ _ _ | adopts _ _ | declares _ _ _ | consumes _ _ _ _ | fails _ _ _
  | failsOn _ _ => cases hc
  | @opens _ count hunplugged _ =>
    obtain ⟨_, heq⟩ := Option.ite_none_left_eq_some.mp hstep
    exact absurd hpc (checker_ne_connecting heq hunplugged)
  | reconnects he hold htimers =>
    -- The request is cleared in the same turn in which the reconnect begins.
    have hrecover : ∀ s : Lifecycle, s.recoverConsumers.checker = .connecting →
        s.recoverConsumers.consumerRecoveryRequested = false := by
      intro s hconnecting
      rw [recoverConsumers] at hconnecting ⊢
      split at hconnecting
      · cases hconnecting
      · rfl
    have hsleeps : ∀ s : Lifecycle, s.checkerSleeps.checker ≠ .connecting := by
      intro s hconnecting
      have hidle := idle_checkerSleeps s
      rw [hconnecting] at hidle
      cases hidle
    cases e with
    | checkerWakes =>
      -- Asked for, after an alarm, or because no consumer is left.
      obtain ⟨_, heq⟩ := Option.ite_none_right_eq_some.mp hstep
      refine .inr ⟨.inl rfl, htimers, ?_⟩
      cases heq
      rw [checkerWakes] at hpc ⊢
      split at hpc
      · rename_i hrequested
        rw [if_pos hrequested]
        exact hrecover s hpc
      · rename_i hrequested
        rw [if_neg hrequested]
        split at hpc
        · rename_i halarm
          rw [if_pos halarm]
          exact hrecover s hpc
        · rename_i halarm
          rw [if_neg halarm]
          split at hpc
          · exact absurd hpc (hsleeps s)
          · rename_i hdue
            rw [if_neg hdue]
            split at hpc
            · exact absurd hpc (hsleeps s)
            · rename_i hgone
              rw [if_neg hgone]
              exact hrecover _ hpc
    | checker reply count =>
      obtain ⟨_, heq⟩ := Option.ite_none_left_eq_some.mp hstep
      rcases hold with hsleeping | ⟨p, hdropping⟩
      · have hidle := idle_eq_false_of_recoveryStep (r := (reply, count)) heq
        rw [hsleeping] at hidle
        cases hidle
      · refine .inr ⟨.inr ⟨p, hdropping⟩, htimers, ?_⟩
        have hreplied : s' = s.droppingReplied p reply := by
          cases reply with
          | success =>
            have heq' : s.checkerSucceeds count = some s' := heq
            rw [checkerSucceeds, hdropping] at heq'
            exact (Option.some.inj heq').symm
          | failure | timedOut =>
            have heq' : s.checkerFails _ = some s' := heq
            rw [checkerFails, hdropping] at heq'
            exact (Option.some.inj heq').symm
        rw [hreplied, droppingReplied] at hpc ⊢
        dsimp only at hpc ⊢
        split at hpc
        · cases hpc
        · rw [dropped] at hpc ⊢
          split at hpc
          · exact absurd hpc (hsleeps _)
          · rename_i hgone
            rw [if_neg hgone]
            rfl
    | tick | shutdown | main | mainCancelled | checkerInterrupted | taskWakes | task | taskInterrupted | deliver
    | settled => cases he

/-! ## On the new connection -/

/-- A broker operation on the connection `c` fails, times out or is interrupted. -/
inductive Disturbs (c : Nat) (s : Lifecycle) : Event → Prop
  | cancel {id : Nat} {tag : String} {reply : Reply} : (s.tasks id).pc = .cancelling tag →
      (s.tasks id).queue = some c → reply ≠ .success → Disturbs c s (.task id reply)
  | interrupted {id : Nat} {tag : String} : (s.tasks id).pc = .cancelling tag → (s.tasks id).queue = some c →
      Disturbs c s (.taskInterrupted id)
  | close {e : Event} {p : ClosePc} {reply : Reply} : HearsClose s e p reply → p.number = c → reply ≠ .success →
      Disturbs c s e

/-- The broker calls of the recovery succeed, no other recovery follows, and nothing goes
wrong on the connection `c`. Who sends a cancel does so on `c`, where its consumer is. -/
structure Undisturbed (timing : Timing) (c : Nat) (s : Lifecycle) (e : Event) : Prop where
  own : ∀ reply count, e = .checker reply count → reply = .success
  alone : e = .checkerWakes → (s.checkerWakes timing).checker.idle = true
  handles : ∀ id, e = .taskWakes id → s.Cancels id → (s.tasks id).queue = some c ∧
    ∃ r, s.consumerTags (s.tasks id).dataType = some r ∧ r.channel = c
  healthy : ¬Disturbs c s e

/-- The state since the reconnect that opens the connection `c`. -/
structure Renewed (c : Nat) (s : Lifecycle) : Prop where
  request : s.consumerRecoveryRequested = false
  started : s.main.startup = false
  connection : ∀ c', s.activeConnection = some c' → c' = c
  channel : ∀ c', s.activeChannel = some c' → c' = c
  connecting : s.checker = .connecting → s.connections = c
  carries : ∀ c', s.checker.carries = some c' → c' = c
  closes : s.checker.closes = none
  bare : s.checker.bare = true → s.activeChannel = some c
  cancelling : ∀ id tag, (s.tasks id).pc = .cancelling tag → (s.tasks id).queue = some c
  closing : ∀ id p, (s.tasks id).pc = .closing p → (s.tasks id).cancelled = true ∨ p.number = c
  main : ∀ p, s.main = .closing p → p.number = c
  /-- Nobody uses the new connection before the recovery consumes on it. -/
  unused : s.checker.unplugged = true ∨ s.checker.bare = true →
    (∀ t r, s.consumerTags t = some r → r.channel ≠ c) ∧ (∀ id tag, (s.tasks id).pc ≠ .cancelling tag) ∧
      ∀ id p, (s.tasks id).pc = .closing p → (s.tasks id).cancelled = true

/-- A transport that is closed is the new one. -/
theorem Renewed.number (h : ∀ c', s.activeConnection = some c' → c' = c) (h' : ∀ c', s.activeChannel = some c' → c' = c)
    {p : ClosePc} (hclose : s.closeRabbitmqConnection = some p ∨ s.activeConnection = some p.number) : p.number = c := by
  rcases hclose with hclose | hconn
  · rw [Transport.closeRabbitmqConnection] at hclose
    cases hchannel : s.activeChannel with
    | some c' =>
      rw [hchannel] at hclose
      cases hclose
      exact h' c' hchannel
    | none =>
      rw [hchannel] at hclose
      obtain ⟨c', hc', rfl⟩ := Option.map_eq_some_iff.mp hclose
      exact h c' hc'
  · exact h p.number hconn

theorem Renewed.request_step (h : Renewed c s) (hok : Undisturbed timing c s e) (hstep : s.step timing e = some s') :
    s'.consumerRecoveryRequested = false := by
  rw [Bool.eq_false_iff]
  intro hset
  cases requests_step hstep h.request hset with
  | missingQueue hcancels hnone =>
    cases hnone.symm.trans (hok.handles _ rfl hcancels).1
  | cancel hpc _ hreply => exact hok.healthy (.cancel hpc (h.cancelling _ _ hpc) hreply)
  | interrupted hpc => exact hok.healthy (.interrupted hpc (h.cancelling _ _ hpc))
  | close hhears hreply =>
    refine hok.healthy (.close hhears ?_ hreply)
    cases hhears with
    | main hpc => exact h.main _ hpc
    | dropping hpc | failing hpc =>
      have hcloses := h.closes
      rw [hpc] at hcloses
      cases hcloses
    | task hpc hcancelled =>
      refine (h.closing _ _ hpc).resolve_left ?_
      rw [hcancelled]
      exact Bool.false_ne_true
  | recovery hreply => exact absurd (hok.own _ _ rfl) hreply
  | channelLost hbare hnone => cases hnone.symm.trans (h.bare hbare)

/-- The handles of the transport are those of the new connection. -/
theorem Renewed.transport_step (h : Renewed c s) (hsound : s.Sound) (hstep : s.step timing e = some s') :
    (∀ c', s'.activeConnection = some c' → c' = c) ∧ ∀ c', s'.activeChannel = some c' → c' = c := by
  have hpast := h.started
  have htransport := Lifecycle.transport_step hsound.phases hstep
  generalize s'.toTransport = t at htransport
  cases htransport with
  | same | request | reset _ _ _ | startWatch _ _ | register _ _ | tempChannelClosed _ _ | tempConnectionClosed _ _ =>
    exact ⟨h.connection, h.channel⟩
  | cancel _ _ =>
    rw [forgetConsumer]
    split <;> exact ⟨h.connection, h.channel⟩
  | closeChannel _ _ => exact ⟨h.connection, by rintro _ ⟨⟩⟩
  | closed _ hcloses | dropped _ _ _ hcloses =>
    obtain ⟨hconn, hchannel⟩ := hasTransport_eq_false.mp hcloses.hasTransport
    exact ⟨fun c' hc' => (by cases hconn.symm.trans hc'), fun c' hc' => (by cases hchannel.symm.trans hc')⟩
  | connect _ hpc | openChannel _ hpc =>
    rw [hpc] at hpast
    cases hpast
  | adopt _ hpc _ =>
    have hc := h.carries _ (by rw [hpc]; rfl)
    exact ⟨fun c' hc' => (by cases hc'; exact hc), fun c' hc' => (by cases hc'; exact hc)⟩
  | adoptFailed _ hopened =>
    have hc := h.carries _ (CheckerPc.carries_of_opened hopened)
    exact ⟨fun c' hc' => (by cases hc'; exact hc), fun c' hc' => (by cases hc'; exact hc)⟩

/-- Nothing but the checker touches the channel before the recovery consumes on it. -/
theorem Renewed.channel_of_other (h : Renewed c s) (hsound : s.Sound) (hstep : s.step timing e = some s')
    (hbare : s.checker.bare = true) (he : e.ofChecker = false) : s'.activeChannel = s.activeChannel := by
  have hpast := h.started
  have hclose : ∀ {p reply}, ¬HearsClose s e p reply := by
    intro p reply hhears
    cases hhears with
    | main hpc =>
      rcases hsound.closing p hpc with hgone | hgone <;> rw [hgone] at hbare <;> cases hbare
    | dropping _ | failing _ => cases he
    | task hpc hcancelled => cases hcancelled.symm.trans ((h.unused (.inr hbare)).2.2 _ p hpc)
  have htransport := Lifecycle.transport_step hsound.phases hstep
  generalize s'.toTransport = t at htransport
  cases htransport with
  | same | request | reset _ _ _ | startWatch _ _ | register _ _ | tempChannelClosed _ _ | tempConnectionClosed _ _
  | connect _ _ => rfl
  | cancel _ _ =>
    rw [forgetConsumer]
    split <;> rfl
  | closeChannel hhears _ => exact absurd hhears hclose
  | closed hhears _ => exact absurd hhears hclose
  | dropped hhears _ _ _ => exact absurd hhears hclose
  | openChannel _ hpc =>
    rw [hpc] at hpast
    cases hpast
  | adopt he' _ _ | adoptFailed he' _ => cases he.symm.trans he'

theorem Renewed.bare_step (h : Renewed c s) (hsound : s.Sound) (hstep : s.step timing e = some s')
    (hcarries : ∀ c', s'.checker.carries = some c' → c' = c) (hbare : s'.checker.bare = true) :
    s'.activeChannel = some c := by
  have hchecker := (turn_step hstep).checker
  have hadopted : s'.checker.adopted ≠ none := by
    intro hnone
    cases hpc : s'.checker <;> rw [hpc] at hbare hnone <;> cases hbare <;> cases hnone
  obtain ⟨c', hc'⟩ := Option.ne_none_iff_exists'.mp hadopted
  have hc : c' = c := hcarries c' (CheckerPc.carries_of_opened (CheckerPc.opened_of_adopted hc'))
  rcases hchecker.adopted hc' with hold | ⟨_, hadopt⟩
  · have hplugged : s.checker.unplugged = false := by
      rw [Bool.eq_false_iff]
      intro hunplugged
      cases (CheckerPc.of_unplugged hunplugged).1.symm.trans hold
    have hbare₀ : s.checker.bare = true := by
      rcases hchecker.bare hbare with hb | hu
      · exact hb
      · cases hplugged.symm.trans hu
    rcases hchecker.registering hadopted with ⟨c₁, hadopt⟩ | ⟨_, he | hsame | ⟨u, q, hregister⟩⟩
    · rw [hadopt]
      have hc₁ : s'.activeConnection = some c₁ := by rw [hadopt]; rfl
      exact congrArg some ((h.transport_step hsound hstep).1 c₁ hc₁)
    · rw [h.channel_of_other hsound hstep hbare₀ he, h.bare hbare₀]
    · rw [hsame, h.bare hbare₀]
    · rw [hregister]
      exact h.bare hbare₀
  · rw [hadopt, ← hc]
    rfl

theorem startup_step (hstep : MainStep s s' e s'.main) (hstarted : s.main.startup = false) :
    s'.main.startup = false := by
  generalize s'.main = pc at hstep
  cases hstep with
  | same _ => exact hstarted
  | opens hopening _ _ =>
    rw [MainPc.startup_of_opening hopening] at hstarted
    cases hstarted
  | consumes hold _ =>
    rcases hold with ⟨u, hold, _⟩ | ⟨u, hold, _⟩ <;> rw [hold] at hstarted <;> cases hstarted
  | runs _ _ | closes _ | exits _ => rfl
  | stops hstopping _ _ => cases pc <;> first | rfl | cases hstopping

theorem Renewed.closes_step (h : Renewed c s) (hok : Undisturbed timing c s e) (hstep : s.step timing e = some s')
    (hrequest : s'.consumerRecoveryRequested = false) : s'.checker.closes = none := by
  have hchecker := (turn_step hstep).checker
  have halone : e = .checkerWakes → s'.checker.idle = true := by
    rintro rfl
    obtain ⟨_, heq⟩ := Option.ite_none_right_eq_some.mp hstep
    cases heq
    exact hok.alone rfl
  generalize s'.checker = pc at hchecker halone
  cases hchecker with
  | same _ => exact h.closes
  | starts _ | interrupted _ | reconnects _ _ _ | adopts _ _ | declares _ _ _ | consumes _ _ _ _ => rfl
  | stays _ hidle _ | covered _ hidle _ | recovered _ hidle _ | failed _ hidle | closes _ hidle | requests _ hidle _ =>
    exact (CheckerPc.of_idle hidle).2.1
  | opens _ hunplugged => exact (CheckerPc.of_unplugged hunplugged).2.1
  | drops he hold _ _ =>
    cases e with
    | checkerWakes => cases halone rfl
    | checker reply count =>
      obtain ⟨_, heq⟩ := Option.ite_none_left_eq_some.mp hstep
      have hbusy := idle_eq_false_of_recoveryStep (r := (reply, count)) heq
      have hcloses := h.closes
      rcases hold with hold | ⟨p, hold⟩
      · rw [hold] at hbusy
        cases hbusy
      · rw [hold] at hcloses
        cases hcloses
    | tick | shutdown | main | mainCancelled | checkerInterrupted | taskWakes | task | taskInterrupted | deliver
    | settled => cases he
  | fails _ _ htransport =>
    rw [htransport] at hrequest
    cases hrequest
  | failsOn hold _ =>
    have hcloses := h.closes
    rw [hold] at hcloses
    cases hcloses

theorem Renewed.connecting_step (h : Renewed c s) (hok : Undisturbed timing c s e) (hstep : s.step timing e = some s')
    (hpc : s'.checker = .connecting) : s.checker = .connecting := by
  rcases connecting_of_step hstep hpc with hold | ⟨rfl | ⟨p, hold⟩, _⟩
  · exact hold
  · obtain ⟨_, heq⟩ := Option.ite_none_right_eq_some.mp hstep
    cases heq
    have hidle := hok.alone rfl
    rw [hpc] at hidle
    cases hidle
  · have hcloses := h.closes
    rw [hold] at hcloses
    cases hcloses

/-- Before the recovery consumes it does not, and it does not begin anew. -/
theorem Renewed.unused_before (h : Renewed c s) (hok : Undisturbed timing c s e) (hstep : s.step timing e = some s')
    (hpc : s'.checker.unplugged = true ∨ s'.checker.bare = true) :
    s.checker.unplugged = true ∨ s.checker.bare = true := by
  have hchecker := (turn_step hstep).checker
  rcases hpc with hunplugged | hbare
  · by_cases hconnecting : s'.checker = .connecting
    · exact .inl (by rw [h.connecting_step hok hstep hconnecting]; rfl)
    · generalize s'.checker = pc at hchecker hunplugged hconnecting
      cases hchecker with
      | same _ | opens _ _ => first | exact .inl hunplugged | exact .inl ‹_›
      | reconnects _ _ _ => exact absurd rfl hconnecting
      | starts _ | interrupted _ | drops _ _ _ _ | adopts _ _ | declares _ _ _ | consumes _ _ _ _ | fails _ _ _
      | failsOn _ _ => cases hunplugged
      | stays _ hidle _ | covered _ hidle _ | recovered _ hidle _ | failed _ hidle | closes _ hidle
      | requests _ hidle _ =>
        rw [(CheckerPc.of_idle hidle).2.2.2] at hunplugged
        cases hunplugged
  · exact (hchecker.bare hbare).symm

theorem Renewed.unused_step (h : Renewed c s) (hsound : s.Sound) (hok : Undisturbed timing c s e)
    (hstep : s.step timing e = some s') (hpc : s'.checker.unplugged = true ∨ s'.checker.bare = true) :
    (∀ t r, s'.consumerTags t = some r → r.channel ≠ c) ∧ (∀ id tag, (s'.tasks id).pc ≠ .cancelling tag) ∧
      ∀ id p, (s'.tasks id).pc = .closing p → (s'.tasks id).cancelled = true := by
  have hbefore := h.unused_before hok hstep hpc
  obtain ⟨htags, hcancelling, hclosing⟩ := h.unused hbefore
  refine ⟨fun t r hr => ?_, fun id tag htask => ?_, fun id p htask => ?_⟩
  · have hregistered : s'.consumerTags t ≠ none := by rw [hr]; exact nofun
    rcases (Lifecycle.transport_step hsound.phases hstep).registered hregistered with hsame | ⟨q, hhears, _⟩
    · exact htags t r (hsame ▸ hr)
    · cases hhears with
      | main hold =>
        have hstarted := h.started
        rw [hold] at hstarted
        cases hstarted
      | checker hold => rcases hbefore with hb | hb <;> rw [hold] at hb <;> cases hb
  · rcases cancelling_of_step hstep htask with ⟨hold, _⟩ | ⟨he, hcancels, _⟩
    · exact hcancelling id tag hold
    · obtain ⟨_, r, hr, hchannel⟩ := hok.handles id he hcancels
      exact htags _ r hr hchannel
  · rcases closing_of_step hstep htask with ⟨hold, hkept⟩ | ⟨⟨tag, hold⟩ | ⟨p₀, hold, hlive⟩, _⟩
    · exact hkept (hclosing id p hold)
    · exact absurd hold (hcancelling id tag)
    · cases hlive.symm.trans (hclosing id p₀ hold)

theorem Renewed.step (h : Renewed c s) (hsound : s.Sound) (hok : Undisturbed timing c s e)
    (hstep : s.step timing e = some s') : Renewed c s' := by
  have hrequest := h.request_step hok hstep
  have hturn := turn_step hstep
  obtain ⟨hconn, hchannel⟩ := h.transport_step hsound hstep
  have hcarries : ∀ c', s'.checker.carries = some c' → c' = c := by
    intro c' hc'
    cases connections_step hstep with
    | same hcarries => exact h.carries c' (hcarries.checker c' hc')
    | startup _ _ hsame _ => exact h.carries c' (hsame ▸ hc')
    | recovery hold hnew _ _ =>
      rw [hnew] at hc'
      cases hc'
      exact h.connecting hold
  refine ⟨hrequest, startup_step hturn.main h.started, hconn, hchannel, fun hpc => ?_, hcarries,
    h.closes_step hok hstep hrequest, h.bare_step hsound hstep hcarries, fun id tag hpc => ?_, fun id p hpc => ?_,
    fun p hpc => ?_, h.unused_step hsound hok hstep⟩
  · have hold := h.connecting_step hok hstep hpc
    cases connections_step hstep with
    | same hcarries => exact hcarries.connections.trans (h.connecting hold)
    | startup hmain _ _ _ =>
      have hstarted := h.started
      rw [hmain] at hstarted
      cases hstarted
    | recovery _ hnew _ _ => cases hpc.symm.trans hnew
  · rcases cancelling_of_step hstep hpc with ⟨hold, hqueue⟩ | ⟨he, hcancels, hqueue⟩
    · exact hqueue.trans (h.cancelling id tag hold)
    · exact hqueue.trans (hok.handles id he hcancels).1
  · rcases closing_of_step hstep hpc with ⟨hold, hkept⟩ | ⟨_, hclose⟩
    · exact (h.closing id p hold).imp_left hkept
    · exact .inr (Renewed.number hconn hchannel hclose)
  · have hmain := hturn.main
    rw [hpc] at hmain
    rcases hmain.closing with hold | ⟨_, hclose⟩
    · exact h.main p hold
    · exact Renewed.number hconn hchannel hclose

theorem renewed_reconnect (hsound : s.Sound) (hstep : s.step timing e = some s') (hbefore : s.checker ≠ .connecting)
    (hpc : s'.checker = .connecting) (hcancelling : ∀ id tag, (s.tasks id).pc ≠ .cancelling tag)
    (hclosing : ∀ id p, (s.tasks id).pc = .closing p →
      (s.tasks id).cancelled = true ∨ ∃ t, s.consumerCancelTasks t = some id) : Renewed s.connections s' := by
  have hsound' := hsound.step hstep
  have hturn := turn_step hstep
  obtain ⟨_, htimers, hrequest⟩ := (connecting_of_step hstep hpc).resolve_left hbefore
  have hconnections : s'.connections = s.connections := by
    cases connections_step hstep with
    | same hcarries => exact hcarries.connections
    | startup _ _ hsame _ => exact absurd (hsame ▸ hpc) hbefore
    | recovery _ hnew _ _ => cases hpc.symm.trans hnew
  obtain ⟨hconn, hchannel⟩ := hasTransport_eq_false.mp (hsound'.phases.unplugged (by rw [hpc]; rfl))
  have hpcs : ∀ id, (s'.tasks id).pc = (s.tasks id).pc := by
    intro id
    rw [htimers]
    exact (Timers.left_dropTimers s.toTimers id).pc
  have hcancelled : ∀ id p, (s'.tasks id).pc = .closing p → (s'.tasks id).cancelled = true := by
    intro id p hp
    rw [htimers]
    rcases hclosing id p (hpcs id ▸ hp) with hold | ⟨t, hstored⟩
    · rcases Timers.left_dropTimers s.toTimers id with heq | heq
      · rw [heq, hold]
      · rw [heq]
    · exact Timers.cancelled_dropTimers hstored
  have hnone : ∀ id tag, (s'.tasks id).pc ≠ .cancelling tag := fun id tag hp => hcancelling id tag (hpcs id ▸ hp)
  refine ⟨hrequest, ?_, fun c' hc' => (by cases hconn.symm.trans hc'), fun c' hc' => (by cases hchannel.symm.trans hc'),
    fun _ => hconnections, ?_, by rw [hpc]; rfl, ?_, fun id tag hp => absurd hp (hnone id tag),
    fun id p hp => .inl (hcancelled id p hp), ?_, fun _ => ⟨fun t r hr => ?_, hnone, hcancelled⟩⟩
  · refine Bool.eq_false_iff.mpr fun hstartup => ?_
    cases hpc.symm.trans (hsound'.phases.startup hstartup)
  · rw [hpc]
    exact nofun
  · rw [hpc]
    exact nofun
  · intro p hp
    rcases hsound'.closing p hp with hgone | hgone <;> cases hpc.symm.trans hgone
  · exact Nat.ne_of_lt (hconnections ▸ hsound'.numbered.tags t r hr)

/-- A recovery that reconnects while no cancel request is in flight leaves no request behind,
from then on and until something goes wrong on the new connection. -/
theorem request_stays_cleared {timing : Timing} {now : Int} {es : List Event} {s : Lifecycle}
    (hrun : Runs.Run (step timing) (fun _ _ => True) { now := now } es s) {e : Event} {s₁ : Lifecycle}
    (hstep : s.step timing e = some s₁) (hbefore : s.checker ≠ .connecting) (hreconnects : s₁.checker = .connecting)
    (hcancelling : ∀ id tag, (s.tasks id).pc ≠ .cancelling tag)
    (hclosing : ∀ id p, (s.tasks id).pc = .closing p →
      (s.tasks id).cancelled = true ∨ ∃ t, s.consumerCancelTasks t = some id) {es' : List Event} {s₂ : Lifecycle}
    (hrun' : Runs.Run (step timing) (Undisturbed timing s.connections) s₁ es' s₂) :
    s₂.consumerRecoveryRequested = false := by
  have hsound := sound_of_run hrun
  have hinv : s₂.Sound ∧ Renewed s.connections s₂ :=
    hrun'.invariant (I := fun s' => s'.Sound ∧ Renewed s.connections s')
      ⟨hsound.step hstep, renewed_reconnect hsound hstep hbefore hreconnects hcancelling hclosing⟩
      fun h hok hstep => ⟨h.1.step hstep, h.2.step h.1 hok hstep⟩
  exact hinv.2.request

/-- A broker call of the recovery that succeeds. -/
def Event.recovers : Event → Bool
  | .checker .success _ => true
  | _ => false

theorem undisturbed_of_recovers (h : e.recovers = true) : Undisturbed timing c s e := by
  cases e with
  | checker reply count =>
    cases reply with
    | success =>
      refine ⟨fun reply count he => (by cases he; rfl), nofun, nofun, fun hdisturbs => ?_⟩
      generalize he : Event.checker .success count = e at hdisturbs
      cases hdisturbs with
      | cancel _ _ _ | interrupted _ _ => cases he
      | close hhears _ hreply =>
        cases hhears with
        | main _ | task _ _ => cases he
        | dropping _ | failing _ => cases he; exact hreply rfl
    | failure | timedOut => cases h
  | tick | shutdown | main | mainCancelled | checkerWakes | checkerInterrupted | taskWakes | task | taskInterrupted
  | deliver | settled => cases h

theorem undisturbed_run {s₁ : Lifecycle} {es : List Event} {P : Lifecycle → Prop} [DecidablePred P]
    (h : (Runs.exec (Runs.guarded (step timing) fun _ e => e.recovers = true) s₁ es).any (fun s => decide (P s)) = true) :
    ∃ s₂, Runs.Run (step timing) (Undisturbed timing c) s₁ es s₂ ∧ P s₂ := by
  obtain ⟨s₂, hrun, hP⟩ := Runs.exists_run h
  exact ⟨s₂, (Runs.run_of_guarded hrun).mono fun _ _ => undisturbed_of_recovers, hP⟩

/-- The cancel of the artists' consumer fails, and the checker drops the connection. -/
def dropAfterFailedCancel : List Event :=
  List.replicate 12 (.main .success) ++ [.deliver .artists .fileComplete, .tick 300, .taskWakes 0, .task 0 .failure,
    .checkerWakes, .checker .success 0]

/-- The recovery connects and finds messages in every queue. -/
def recoverAll : List Event := List.replicate 15 (.checker .success 1)

theorem request_stays_cleared_all : ∃ s : Lifecycle, s.checker = .sleeping ∧ s.activeConnection = some 1 ∧
    s.consumerRecoveryRequested = false := by
  obtain ⟨s, hrun, hpc, hcount, hfinished, hnext⟩ : ∃ s,
      Runs.Run (step {}) (fun _ _ => True) { now := 1 } dropAfterFailedCancel s ∧
      s.checker = .dropping (.connection 0) ∧ s.taskCount = 1 ∧ (s.tasks 0).pc = .finished ∧
      (s.step {} (.checker .success 0)).any (fun s₁ => decide (s₁.checker = .connecting) &&
        (Runs.exec (Runs.guarded (step {}) fun _ e => e.recovers = true) s₁ recoverAll).any fun s₂ =>
          decide (s₂.checker = .sleeping ∧ s₂.activeConnection = some 1)) = true :=
    Runs.exists_run (by decide +kernel)
  obtain ⟨s₁, hstep, hreconnects⟩ := (Option.any_eq_true _ _).mp hnext
  obtain ⟨hconnecting, hrecovers⟩ := Bool.and_eq_true_iff.mp hreconnects
  obtain ⟨s₂, hrun', hsleeping, hconn⟩ := undisturbed_run (c := s.connections) hrecovers
  have htasks : ∀ id, (s.tasks id).pc = .finished := by
    intro id
    by_cases hid : id = 0
    · rw [hid, hfinished]
    · exact (sound_of_run hrun).phases.timers.fresh id (hcount ▸ Nat.pos_of_ne_zero hid)
  refine ⟨s₂, hsleeping, hconn, ?_⟩
  exact request_stays_cleared hrun hstep (by rw [hpc]; exact nofun) (of_decide_eq_true hconnecting)
    (fun id tag hid => (by cases (htasks id).symm.trans hid)) (fun id p hid => (by cases (htasks id).symm.trans hid)) hrun'

/-- As before, while the cancel of the labels' consumer is in flight. -/
def dropDuringCancel : List Event :=
  List.replicate 12 (.main .success) ++ [.deliver .artists .fileComplete, .deliver .labels .fileComplete, .tick 300,
    .taskWakes 0, .taskWakes 1, .task 0 .failure, .checkerWakes, .checker .success 0]

/-- The interrupted cancel asks for a recovery of the healthy connection. -/
theorem interrupted_cancel_requests_again : ¬∀ (es es' : List Event) (e : Event) (s s₁ s₂ : Lifecycle),
    Runs.Run (step {}) (fun _ _ => True) { now := 1 } es s → s.step {} e = some s₁ → s.checker ≠ .connecting →
      s₁.checker = .connecting → (∀ id p, (s.tasks id).pc ≠ .closing p) →
      Runs.Run (step {}) (Undisturbed {} s.connections) s₁ es' s₂ → s₂.checker = .sleeping →
      s₂.consumerRecoveryRequested = false := by
  intro h
  obtain ⟨s, hrun, hpc, hcount, hconnections, ⟨h0, h1⟩, hnext⟩ : ∃ s,
      Runs.Run (step {}) (fun _ _ => True) { now := 1 } dropDuringCancel s ∧
      s.checker = .dropping (.connection 0) ∧ s.taskCount = 2 ∧ s.connections = 1 ∧
      ((s.tasks 0).pc = .finished ∧ (s.tasks 1).pc = .cancelling (consumerTag .labels)) ∧
      (s.step {} (.checker .success 0)).any (fun s₁ => decide (s₁.checker = .connecting) &&
        (Runs.exec (Runs.guarded (step {}) fun _ e => e.recovers = true) s₁ recoverAll).any fun s₂ =>
          decide (s₂.checker = .sleeping ∧ (s₂.tasks 1).pc = .cancelling (consumerTag .labels) ∧
            (s₂.tasks 1).queue = some 0 ∧ (s₂.tasks 1).cancelled = true)) = true :=
    Runs.exists_run (by decide +kernel)
  obtain ⟨s₁, hstep, hreconnects⟩ := (Option.any_eq_true _ _).mp hnext
  obtain ⟨hconnecting, hrecovers⟩ := Bool.and_eq_true_iff.mp hreconnects
  obtain ⟨s₂, hrun', hsleeping, hcancelling, hqueue, hcancelled⟩ := undisturbed_run (c := s.connections) hrecovers
  have hclosing : ∀ id p, (s.tasks id).pc ≠ .closing p := by
    intro id p hid
    by_cases hlt : id < 2
    · rcases (by omega : id = 0 ∨ id = 1) with rfl | rfl
      · cases h0.symm.trans hid
      · cases h1.symm.trans hid
    · cases ((sound_of_run hrun).phases.timers.fresh id (hcount ▸ Nat.le_of_not_lt hlt)).symm.trans hid
  have hinterrupted : s₂.step {} (.taskInterrupted 1) = some (s₂.cancelFails 1) := by
    rw [step, if_pos hcancelled, taskInterrupted, hcancelling]
  have hundisturbed : Undisturbed {} s.connections s₂ (.taskInterrupted 1) := by
    refine ⟨by rintro _ _ ⟨⟩, by rintro ⟨⟩, by rintro _ ⟨⟩, fun hdisturbs => ?_⟩
    generalize he : Event.taskInterrupted 1 = e at hdisturbs
    cases hdisturbs with
    | cancel _ _ _ => cases he
    | interrupted _ hq =>
      cases he
      rw [hqueue, hconnections] at hq
      cases hq
    | close hhears _ _ => cases hhears <;> cases he
  cases h _ _ _ _ _ _ hrun hstep (by rw [hpc]; rintro ⟨⟩) (of_decide_eq_true hconnecting) hclosing
    (.snoc hrun' hundisturbed hinterrupted) hsleeping

end Lifecycle

end Brainzgraphinator
