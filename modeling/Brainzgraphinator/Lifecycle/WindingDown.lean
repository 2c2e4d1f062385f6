-- SUMMARY: A requested shutdown comes to its end, whatever the broker replies.
import Mathlib.Algebra.BigOperators.Intervals
import Mathlib.Algebra.Order.BigOperators.Group.Finset
import Mathlib.Algebra.Ring.Nat
import Brainzgraphinator.Base.Descent
import Brainzgraphinator.Lifecycle.Serving

/-!
# Winding down

Once a shutdown is requested, `main`, the checker and the tasks have only so many awaits
before them (`load`): a recovery that is under way ends and is the last one, and a task
cancels its consumer once. Each turn takes one of these awaits off, and the only state in
which nobody has a turn left is the one in which all of them have ended.
-/

namespace Brainzgraphinator

open Descent

/-! ## The awaits that are left -/

def ClosePc.load : ClosePc → Nat
  | .channel _ => 2
  | .connection _ => 1

def TaskPc.load : TaskPc → Nat
  | .waiting => 4
  | .cancelling _ => 3
  | .closing p => p.load
  | .finished => 0

def CheckerPc.load : CheckerPc → Nat
  | .absent | .exited => 0
  | .failing p => p.load
  | .closingTempConnection _ => 3
  | .closingTempChannel _ => 4
  | .consuming _ _ _ rest _ => rest.length + 3
  | .declaring _ _ _ rest _ => rest.length + 7
  | .settingQos _ _ => 11
  | .inspecting _ _ rest _ => rest.length + 12
  | .openingChannel _ => 16
  | .connecting => 17
  | .dropping p => p.load + 17
  | .sleeping => 20

/-- The awaits of `main`, with those of the tasks and the checker that it starts. -/
def MainPc.load : MainPc → Nat
  | .exited => 0
  | .closing p => p.load
  | .stoppingChecker => 3
  | .stoppingConsumers _ => 4
  | .stoppingTimers _ => 21
  | .running => 22
  | .consuming _ _ rest => rest.length + 43
  | .declaring _ _ rest => rest.length + 47
  | .settingQos _ => 51
  | .openingChannel _ => 52
  | .connecting retry => 5 - retry + 53
  | .starting => 59

theorem ClosePc.load_le (p : ClosePc) : p.load ≤ 2 := by
  cases p with
  | channel c => exact Nat.le_refl 2
  | connection c => exact Nat.le_succ 1

theorem ClosePc.load_pos (p : ClosePc) : 0 < p.load := by
  cases p with
  | channel c => exact Nat.zero_lt_two
  | connection c => exact Nat.zero_lt_one

namespace Transport

/-- A close goes on with less before it. -/
theorem load_closeReplied {s : Transport} {p p' : ClosePc} {reply : Reply} (h : (s.closeReplied p reply).2 = some p') :
    p'.load < p.load := by
  rcases closeReplied_cases s p reply with
    ⟨c, c₀, rfl, _, ⟨_, heq⟩ | ⟨_, heq⟩⟩ | heq | ⟨s', _, heq⟩
  · rw [heq] at h
    cases h
    exact Nat.one_lt_two
  · rw [heq] at h
    cases h
    exact Nat.one_lt_two
  · rw [heq] at h
    cases h
  · rw [heq] at h
    cases h

end Transport

namespace Timers

variable {s : Timers} {id : Nat}

/-- The awaits that the tasks have before them. -/
def load (s : Timers) : Nat := ∑ id ∈ Finset.range s.taskCount, (s.tasks id).pc.load

theorem load_congr {s' : Timers} (hcount : s'.taskCount = s.taskCount) (hpc : ∀ id, (s'.tasks id).pc = (s.tasks id).pc) :
    s'.load = s.load := by
  rw [load, load, hcount]
  exact Finset.sum_congr rfl fun id _ => by rw [hpc id]

/-- A cancelled task is where it was. -/
theorem load_cancelTask (s : Timers) (id : Nat) : (s.cancelTask id).load = s.load := by
  refine load_congr rfl fun id' => ?_
  by_cases heq : id' = id
  · rw [heq, cancelTask, setTask_self]
  · rw [cancelTask, setTask_of_ne heq]

theorem load_cancelTasks (s : Timers) (ids : List Nat) : (ids.foldl cancelTask s).load = s.load := by
  induction ids generalizing s with
  | nil => rfl
  | cons id ids ih => exact (ih _).trans (load_cancelTask s id)

theorem load_dropTimer (s : Timers) (t : EntityType) : (s.dropTimer t).load = s.load := by
  rw [dropTimer]
  split
  · exact load_cancelTask s _
  · rfl

theorem load_dropTimers (s : Timers) : s.dropTimers.load = s.load :=
  List.foldlRecOn (motive := fun s' : Timers => s'.load = s.load) _ _ rfl fun _ hs t _ => (load_dropTimer _ t).trans hs

theorem load_createTask (s : Timers) (task : CancelTask) : (s.createTask task).load = s.load + task.pc.load := by
  rw [load, load]
  change ∑ id ∈ Finset.range (s.taskCount + 1), ((s.createTask task).tasks id).pc.load = _
  rw [Finset.sum_range_succ, createTask_self]
  congr 1
  refine Finset.sum_congr rfl fun id hid => ?_
  rw [createTask_of_ne (Nat.ne_of_lt (Finset.mem_range.mp hid))]

/-- A task that goes on takes its await off. -/
theorem load_setPc {pc : TaskPc} (hid : id < s.taskCount) (hlt : pc.load < (s.tasks id).pc.load) :
    (s.setPc id pc).load < s.load := by
  rw [load, load]
  refine Finset.sum_lt_sum (fun id' _ => ?_) ⟨id, Finset.mem_range.mpr hid, ?_⟩
  · by_cases heq : id' = id
    · subst heq
      rw [setPc, setTask_self]
      exact Nat.le_of_lt hlt
    · rw [setPc, setTask_of_ne heq]
  · rw [setPc, setTask_self]
    exact hlt

theorem load_finishTask (hid : id < s.taskCount) (hlt : 0 < (s.tasks id).pc.load) : (s.finishTask id).load < s.load :=
  load_setPc hid hlt

end Timers

namespace Lifecycle

variable {timing : Timing} {s s' : Lifecycle} {e : Event} {id : Nat}

/-- The awaits that are left once a shutdown is requested. -/
def load (s : Lifecycle) : Nat := s.main.load + s.checker.load + s.toTimers.load

/-! ## The tasks -/

/-- A task that waits for a cancel has the queue it cancels on. -/
def Handled (s : Lifecycle) : Prop := ∀ id tag, (s.tasks id).pc = .cancelling tag → (s.tasks id).queue ≠ none

theorem stable_handled : Timers.Stable fun task : CancelTask => ∀ tag, task.pc = .cancelling tag → task.queue ≠ none :=
  ⟨fun _ htask => htask, fun _ _ => nofun⟩

theorem Handled.setTask (h : s.Handled) {task : CancelTask} (htask : ∀ tag, task.pc = .cancelling tag → task.queue ≠ none) :
    Handled { s with toTimers := s.toTimers.setTask id task } :=
  Timers.forall_setTask (P := fun task => ∀ tag, task.pc = .cancelling tag → task.queue ≠ none) h htask

/-- A task takes its turn: `main` and the checker are where they were. -/
structure TaskTurn (s s' : Lifecycle) : Prop where
  only : s.OnlyTasks s'
  load : s'.toTimers.load < s.toTimers.load
  handled : s.Handled → s'.Handled

theorem TaskTurn.lt (h : TaskTurn s s') : s'.load < s.load := by
  obtain ⟨transport, timers, rfl⟩ := h.only
  exact Nat.add_lt_add_left h.load _

/-- The task ends; what it leaves of the transport does not matter. -/
theorem taskTurn_finish (hid : id < s.taskCount) (hpos : 0 < (s.tasks id).pc.load) (transport : Transport) :
    TaskTurn s ({ s with toTransport := transport }.finish id) :=
  ⟨⟨_, _, rfl⟩, Timers.load_finishTask hid hpos, fun h => stable_handled.finishTask h id⟩

theorem taskTurn_cancelConsumer (hid : id < s.taskCount) (hpc : (s.tasks id).pc = .waiting) (tag : String) :
    TaskTurn s (s.cancelConsumer id tag) := by
  have hload : (s.tasks id).pc.load = 4 := by rw [hpc]; rfl
  rw [cancelConsumer]
  split
  · exact taskTurn_finish hid (by rw [hload]; exact Nat.succ_pos 3) _
  · rename_i q hqueue
    refine ⟨⟨_, _, rfl⟩, Timers.load_setPc hid (by rw [hload]; exact Nat.lt_succ_self 3), fun h => h.setTask ?_⟩
    rintro _ _ hnone
    cases hqueue.symm.trans hnone

theorem taskTurn_taskWakes (hid : id < s.taskCount) (hpc : (s.tasks id).pc = .waiting) : TaskTurn s (s.taskWakes id) := by
  rw [taskWakes]
  split
  · split
    · exact taskTurn_cancelConsumer hid hpc _
    · exact taskTurn_finish hid (by rw [hpc]; exact Nat.succ_pos 3) s.toTransport
  · exact taskTurn_cancelConsumer hid hpc _

/-- The task goes on to close the transport, or ends. -/
theorem taskTurn_taskCloses (hid : id < s.taskCount) {transport : Transport} {next : Option ClosePc}
    (hpos : 0 < (s.tasks id).pc.load) (hnext : ∀ p, next = some p → p.load < (s.tasks id).pc.load) :
    TaskTurn s ({ s with toTransport := transport }.taskCloses id next) := by
  cases next with
  | none => exact taskTurn_finish hid hpos transport
  | some p => exact ⟨⟨_, _, rfl⟩, Timers.load_setPc hid (hnext p rfl), fun h => h.setTask (by rintro _ ⟨⟩)⟩

theorem taskTurn_taskReplied (hid : id < s.taskCount) {reply : Reply} (hstep : s.taskReplied id reply = some s') :
    TaskTurn s s' := by
  rw [taskReplied] at hstep
  split at hstep
  · rename_i tag q hpc _
    have hload : (s.tasks id).pc.load = 3 := by rw [hpc]; rfl
    have hpos : 0 < (s.tasks id).pc.load := by rw [hload]; exact Nat.succ_pos 2
    cases reply with
    | success =>
      cases hstep
      rw [cancelSucceeds]
      split
      · split
        · refine taskTurn_taskCloses hid hpos fun p _ => ?_
          rw [hload]
          exact Nat.lt_succ_of_le p.load_le
        · exact taskTurn_finish hid hpos _
      · exact taskTurn_finish hid hpos _
    | failure => cases hstep; exact taskTurn_finish hid hpos _
    | timedOut => cases hstep; exact taskTurn_finish hid hpos _
  · rename_i p hpc
    have hload : (s.tasks id).pc.load = p.load := by rw [hpc]; rfl
    cases hstep
    refine taskTurn_taskCloses hid ?_ fun p' hp' => ?_
    · rw [hload]
      exact p.load_pos
    · rw [hload]
      exact Transport.load_closeReplied hp'
  · cases hstep

theorem taskTurn_taskInterrupted (hid : id < s.taskCount) (hstep : s.taskInterrupted id = some s') : TaskTurn s s' := by
  rw [taskInterrupted] at hstep
  split at hstep
  · rename_i hpc
    cases hstep
    exact taskTurn_finish hid (by rw [hpc]; exact Nat.succ_pos 2) _
  · rename_i hpc
    cases hstep
    exact taskTurn_finish hid (by rw [hpc]; exact Nat.succ_pos 3) s.toTransport
  · rename_i p hpc
    cases hstep
    exact taskTurn_finish hid (by rw [hpc]; exact p.load_pos) s.toTransport
  · cases hstep

/-- A task that takes a turn has not ended. -/
theorem taskTurn_step (hphases : s.Phases) (he : e.task? ≠ none) (hstep : s.step timing e = some s') : TaskTurn s s' := by
  have hlt : ∀ {id}, (s.tasks id).pc ≠ .finished → id < s.taskCount := fun hpc => hphases.timers.lt hpc
  cases e with
  | taskWakes id =>
    obtain ⟨⟨hpc, _⟩, heq⟩ := Option.ite_none_right_eq_some.mp hstep
    cases heq
    exact taskTurn_taskWakes (hlt (by rw [hpc]; rintro ⟨⟩)) hpc
  | task id reply =>
    obtain ⟨_, heq⟩ := Option.ite_none_left_eq_some.mp hstep
    refine taskTurn_taskReplied (hlt fun hpc => ?_) heq
    simp [taskReplied, hpc] at heq
  | taskInterrupted id =>
    obtain ⟨_, heq⟩ := Option.ite_none_right_eq_some.mp hstep
    refine taskTurn_taskInterrupted (hlt fun hpc => ?_) heq
    simp [taskInterrupted, hpc] at heq
  | _ => exact absurd rfl he

theorem Handled.step (h : s.Handled) (hphases : s.Phases) (hstep : s.step timing e = some s') : s'.Handled := by
  by_cases he : e.task? = none
  · have htimers := timers_step hstep
    change ∀ id tag, (s'.toTimers.tasks id).pc = .cancelling tag → (s'.toTimers.tasks id).queue ≠ none
    generalize s'.toTimers = timers at htimers
    cases htimers with
    | same => exact h
    | setPc he' _ _ _ | finish he' => cases he.symm.trans he'
    | drop => exact stable_handled.dropTimer h _
    | schedule _ _ =>
      exact Timers.forall_createTask (P := fun task => ∀ tag, task.pc = .cancelling tag → task.queue ≠ none)
        (stable_handled.dropTimer h _) (by rintro _ ⟨⟩)
    | dropAll _ _ => exact stable_handled.dropTimers h
    | cancels _ =>
      exact List.foldlRecOn (motive := fun s' : Timers => ∀ id tag, (s'.tasks id).pc = .cancelling tag →
        (s'.tasks id).queue ≠ none) _ _ h fun _ hs id _ => stable_handled.cancelTask hs id
    | clear _ _ =>
      refine List.foldlRecOn (motive := fun s' : Timers => ∀ id tag, (s'.tasks id).pc = .cancelling tag →
        (s'.tasks id).queue ≠ none) _ _ h fun _ hs task htask => ?_
      obtain ⟨t, _, rfl⟩ := List.mem_map.mp htask
      exact Timers.forall_createTask (P := fun task => ∀ tag, task.pc = .cancelling tag → task.queue ≠ none)
        hs (by rintro _ ⟨⟩)
  · exact (taskTurn_step hphases he hstep).handled h

/-! ## The checker -/

/-- The checker takes its turn and has less than this before it. -/
structure CheckerTurn (n : Nat) (s s' : Lifecycle) : Prop where
  main : s'.main = s.main
  timers : s'.toTimers.load = s.toTimers.load
  load : s'.checker.load < n

theorem CheckerTurn.lt (h : CheckerTurn s.checker.load s s') : s'.load < s.load := by
  have hload := h.load
  rw [Lifecycle.load, Lifecycle.load, h.main, h.timers]
  omega

theorem checkerTurn_checkerSleeps (hshutdown : s.shutdownRequested = true) {n : Nat} (hn : 0 < n) :
    CheckerTurn n s s.checkerSleeps := by
  refine ⟨rfl, rfl, ?_⟩
  rw [checkerSleeps, if_pos hshutdown]
  exact hn

theorem checkerTurn_reconnect {n : Nat} (hn : 17 < n) : CheckerTurn n s s.reconnect :=
  ⟨rfl, Timers.load_dropTimers _, hn⟩

theorem checkerTurn_recoverConsumers {n : Nat} (hn : 19 < n) : CheckerTurn n s s.recoverConsumers := by
  rw [recoverConsumers]
  split
  · rename_i p _
    have hle := p.load_le
    refine ⟨rfl, rfl, ?_⟩
    rw [CheckerPc.load]
    omega
  · exact checkerTurn_reconnect (Nat.lt_of_le_of_lt (by decide) hn)

theorem checkerTurn_checkerWakes (hshutdown : s.shutdownRequested = true) : CheckerTurn 20 s (s.checkerWakes timing) := by
  rw [checkerWakes]
  split
  · exact checkerTurn_recoverConsumers (by decide)
  · split
    · exact checkerTurn_recoverConsumers (by decide)
    · split
      · exact checkerTurn_checkerSleeps hshutdown (by decide)
      · split
        · exact checkerTurn_checkerSleeps hshutdown (by decide)
        · have hrecover : CheckerTurn 20 { s with lastFullCheck := s.now } _ := checkerTurn_recoverConsumers (by decide)
          exact ⟨hrecover.main, hrecover.timers, hrecover.load⟩

theorem checkerTurn_droppingReplied (hshutdown : s.shutdownRequested = true) (p : ClosePc) (reply : Reply) :
    CheckerTurn (p.load + 17) s (s.droppingReplied p reply) := by
  have hpos := p.load_pos
  rw [droppingReplied]
  dsimp only
  split
  · rename_i p' hp'
    exact ⟨rfl, rfl, Nat.add_lt_add_right (Transport.load_closeReplied hp') 17⟩
  · rw [dropped]
    split
    · have hsleeps := checkerTurn_checkerSleeps (s := { s with toTransport := (s.closeReplied p reply).1 })
        hshutdown (Nat.lt_add_right 17 hpos)
      exact ⟨hsleeps.main, hsleeps.timers, hsleeps.load⟩
    · exact ⟨rfl, Timers.load_dropTimers _, Nat.lt_add_of_pos_left hpos⟩

theorem checkerTurn_failingReplied (hshutdown : s.shutdownRequested = true) (p : ClosePc) (reply : Reply) :
    CheckerTurn p.load s (s.failingReplied p reply) := by
  rw [failingReplied]
  dsimp only
  split
  · rename_i p' hp'
    exact ⟨rfl, rfl, Transport.load_closeReplied hp'⟩
  · have hsleeps := checkerTurn_checkerSleeps (s := { s with toTransport := (s.closeReplied p reply).1 })
      hshutdown p.load_pos
    exact ⟨hsleeps.main, hsleeps.timers, hsleeps.load⟩

theorem checkerTurn_recoveryFailed (c : Nat) {n : Nat} (hn : 2 < n) : CheckerTurn n s (s.recoveryFailed c) :=
  ⟨rfl, rfl, hn⟩

theorem checkerTurn_declareNext (c : Nat) (t : EntityType) (rest pending : List EntityType) {n : Nat}
    (hn : rest.length + 7 < n) : CheckerTurn n s (s.declareNext c t rest pending) := by
  rw [declareNext]
  split
  · exact ⟨rfl, rfl, hn⟩
  · exact checkerTurn_recoveryFailed c (by omega)

theorem checkerTurn_consumeNext (hshutdown : s.shutdownRequested = true) (c : Nat) (pending types : List EntityType) :
    CheckerTurn (types.length + 3) s (s.consumeNext c pending types) := by
  induction types with
  | nil => exact checkerTurn_checkerSleeps hshutdown (Nat.succ_pos _)
  | cons t rest ih =>
    rw [consumeNext]
    split
    · exact ⟨rfl, rfl, Nat.lt_succ_self _⟩
    · exact ⟨ih.main, ih.timers, Nat.lt_succ_of_lt ih.load⟩

theorem checkerTurn_checkerSucceeds (hshutdown : s.shutdownRequested = true) {count : Nat}
    (hstep : s.checkerSucceeds count = some s') : CheckerTurn s.checker.load s s' := by
  rw [checkerSucceeds] at hstep
  cases hpc : s.checker with
  | absent | sleeping | exited =>
    rw [hpc] at hstep
    cases hstep
  | dropping p =>
    rw [hpc] at hstep
    cases hstep
    exact checkerTurn_droppingReplied hshutdown p .success
  | failing p =>
    rw [hpc] at hstep
    cases hstep
    exact checkerTurn_failingReplied hshutdown p .success
  | connecting | openingChannel c | closingTempChannel c =>
    rw [hpc] at hstep
    cases hstep
    exact ⟨rfl, rfl, Nat.lt_succ_self _⟩
  | inspecting c t rest pending =>
    rw [hpc] at hstep
    dsimp only at hstep
    generalize (if 0 < count then pending ++ [t] else pending) = found at hstep
    cases rest with
    | cons u rest =>
      cases hstep
      exact ⟨rfl, rfl, Nat.lt_succ_self _⟩
    | nil =>
      dsimp only at hstep
      split at hstep
      · cases hstep
        exact ⟨rfl, rfl, of_decide_eq_true rfl⟩
      · cases hstep
        exact ⟨rfl, rfl, Nat.lt_succ_self _⟩
  | settingQos c pending =>
    rw [hpc] at hstep
    cases hstep
    have hdeclares : CheckerTurn 11 { s with queues := fun _ => none } _ :=
      checkerTurn_declareNext c .artists musicbrainzDataTypes.tail pending (by decide)
    exact ⟨hdeclares.main, hdeclares.timers, hdeclares.load⟩
  | declaring c q t rest pending =>
    rw [hpc] at hstep
    dsimp only at hstep
    cases rest with
    | cons u rest =>
      cases hstep
      have hdeclares : CheckerTurn (rest.length + 8) { s with queues := Function.update s.queues t (some q) } _ :=
        checkerTurn_declareNext c u rest pending (Nat.lt_succ_self _)
      exact ⟨hdeclares.main, hdeclares.timers, hdeclares.load⟩
    | nil =>
      cases hstep
      have hconsumes := checkerTurn_consumeNext (s := { s with queues := Function.update s.queues t (some q) })
        hshutdown c pending musicbrainzDataTypes
      exact ⟨hconsumes.main, hconsumes.timers, hconsumes.load⟩
  | consuming c q t rest pending =>
    rw [hpc] at hstep
    cases hstep
    have hconsumes := checkerTurn_consumeNext (s := s.consumerRecovered q t pending) hshutdown c pending rest
    exact ⟨hconsumes.main, hconsumes.timers, hconsumes.load⟩
  | closingTempConnection c =>
    rw [hpc] at hstep
    cases hstep
    have hsleeps := checkerTurn_checkerSleeps (n := 3)
      (s := { s with connectionClosed := Function.update s.connectionClosed c true }) hshutdown (Nat.succ_pos 2)
    exact ⟨hsleeps.main, hsleeps.timers, hsleeps.load⟩

theorem checkerTurn_checkerFails (hshutdown : s.shutdownRequested = true) {reply : Reply}
    (hstep : s.checkerFails reply = some s') : CheckerTurn s.checker.load s s' := by
  rw [checkerFails] at hstep
  cases hpc : s.checker with
  | absent | sleeping | exited =>
    rw [hpc] at hstep
    cases hstep
  | dropping p =>
    rw [hpc] at hstep
    cases hstep
    exact checkerTurn_droppingReplied hshutdown p reply
  | failing p =>
    rw [hpc] at hstep
    cases hstep
    exact checkerTurn_failingReplied hshutdown p reply
  | connecting | openingChannel c =>
    rw [hpc] at hstep
    cases hstep
    have hsleeps := checkerTurn_checkerSleeps (n := 16) (s := { s with toTransport := s.requestRecovery }) hshutdown
      (Nat.succ_pos 15)
    exact ⟨hsleeps.main, hsleeps.timers, Nat.lt_of_lt_of_le hsleeps.load (of_decide_eq_true rfl)⟩
  | settingQos c | closingTempChannel c | closingTempConnection c =>
    rw [hpc] at hstep
    cases hstep
    exact checkerTurn_recoveryFailed c (of_decide_eq_true rfl)
  | inspecting c t rest pending | declaring c q t rest pending | consuming c q t rest pending =>
    rw [hpc] at hstep
    cases hstep
    exact checkerTurn_recoveryFailed c (Nat.lt_of_lt_of_le (by decide) (Nat.le_add_left _ _))

/-! ## `main` -/

/-- `main` takes its turn and has less than this before it, with the tasks and the checker
that it starts. -/
structure MainTurn (n : Nat) (s s' : Lifecycle) : Prop where
  load : s'.main.load + s'.checker.load + s'.toTimers.load < n + s.checker.load + s.toTimers.load

theorem mainTurn_of_main {n : Nat} (hmain : s'.main.load < n) (hchecker : s'.checker = s.checker)
    (htimers : s'.toTimers.load = s.toTimers.load) : MainTurn n s s' := by
  refine ⟨?_⟩
  rw [hchecker, htimers]
  omega

theorem load_createTasks (tasks : List CancelTask) (htasks : ∀ task ∈ tasks, task.pc = .waiting) (timers : Timers) :
    (tasks.foldl Timers.createTask timers).load = timers.load + 4 * tasks.length := by
  induction tasks generalizing timers with
  | nil => rfl
  | cons task tasks ih =>
    rw [List.foldl_cons, ih (fun task' h => htasks task' (List.mem_cons_of_mem _ h)), Timers.load_createTask,
      htasks task List.mem_cons_self, TaskPc.load, List.length_cons]
    omega

/-- There are four consumers to cancel at most. -/
theorem mainTurn_cancelAll : MainTurn 21 s s.cancelAll := by
  have hlength : s.shutdownCancels.length ≤ 4 := by
    rw [shutdownCancels, List.length_map]
    exact List.length_filter_le _ _
  have htimers : s.cancelAll.toTimers.load ≤ s.toTimers.load + 16 := by
    rw [toTimers_cancelAll, load_createTasks]
    · omega
    · intro task htask
      obtain ⟨t, _, rfl⟩ := List.mem_map.mp htask
      rfl
  have hmain : s.cancelAll.main.load ≤ 4 := by
    rw [cancelAll]
    split
    · exact Nat.le_succ 3
    · exact Nat.le_refl 4
  have hchecker : s.cancelAll.checker = s.checker := by
    rw [cancelAll]
    split <;> rfl
  refine ⟨?_⟩
  rw [hchecker]
  omega

theorem mainTurn_timersStopped : MainTurn 21 s s.timersStopped := by
  have hcancels : MainTurn 21 { s with consumerCancelTasks := fun _ => none } _ := mainTurn_cancelAll
  exact ⟨hcancels.load⟩

theorem mainTurn_cancelAllConsumers : MainTurn 22 s s.cancelAllConsumers := by
  rw [cancelAllConsumers]
  split
  · have hload := (mainTurn_timersStopped (s := s)).load
    refine ⟨?_⟩
    omega
  · exact mainTurn_of_main (of_decide_eq_true rfl) rfl (Timers.load_cancelTasks _ _)

theorem mainTurn_mainCloses (p : ClosePc) (reply : Reply) : MainTurn p.load s (s.mainCloses p reply) := by
  rw [mainCloses]
  dsimp only
  split
  · rename_i p' hp'
    exact mainTurn_of_main (Transport.load_closeReplied hp') rfl rfl
  · exact mainTurn_of_main p.load_pos rfl rfl

theorem mainTurn_startConsuming (c : Nat) (types : List EntityType) :
    MainTurn (types.length + 43) s (s.startConsuming c types) := by
  cases types with
  | nil =>
    refine ⟨?_⟩
    rw [startConsuming, MainPc.load, CheckerPc.load]
    dsimp only [List.length_nil]
    omega
  | cons t rest => exact mainTurn_of_main (Nat.lt_succ_self _) rfl rfl

theorem mainTurn_mainSucceeds (hshutdown : s.shutdownRequested = true) (hstep : s.mainSucceeds = some s') :
    MainTurn s.main.load s s' := by
  rw [mainSucceeds] at hstep
  cases hpc : s.main with
  | exited =>
    rw [hpc] at hstep
    cases hstep
  | starting =>
    rw [hpc] at hstep
    cases hstep
    refine mainTurn_of_main ?_ rfl rfl
    rw [if_pos hshutdown]
    exact Nat.succ_pos 58
  | connecting retry =>
    rw [hpc] at hstep
    cases hstep
    exact mainTurn_of_main (Nat.lt_of_lt_of_le (of_decide_eq_true rfl) (Nat.le_add_left _ _)) rfl rfl
  | openingChannel c | settingQos c =>
    rw [hpc] at hstep
    cases hstep
    exact mainTurn_of_main (of_decide_eq_true rfl) rfl rfl
  | declaring c t rest =>
    rw [hpc] at hstep
    dsimp only at hstep
    cases rest with
    | cons u rest =>
      cases hstep
      exact mainTurn_of_main (Nat.lt_succ_self _) rfl rfl
    | nil =>
      cases hstep
      have hconsumes : MainTurn 47 { s with
          queues := Function.update s.queues t (some c)
          toTransport := s.startWatch s.now } _ := mainTurn_startConsuming c musicbrainzDataTypes
      exact ⟨hconsumes.load⟩
  | consuming c t rest =>
    rw [hpc] at hstep
    cases hstep
    have hconsumes : MainTurn (rest.length + 43) { s with toTransport := s.registerConsumer s.now t c } _ :=
      mainTurn_startConsuming c rest
    exact ⟨hconsumes.load⟩
  | running =>
    rw [hpc] at hstep
    dsimp only at hstep
    rw [if_pos hshutdown] at hstep
    cases hstep
    exact mainTurn_cancelAllConsumers
  | stoppingTimers pending =>
    rw [hpc] at hstep
    obtain ⟨_, heq⟩ := Option.ite_none_right_eq_some.mp hstep
    cases heq
    exact mainTurn_timersStopped
  | stoppingConsumers pending =>
    rw [hpc] at hstep
    obtain ⟨_, heq⟩ := Option.ite_none_right_eq_some.mp hstep
    cases heq
    exact mainTurn_of_main (of_decide_eq_true rfl) rfl rfl
  | stoppingChecker =>
    rw [hpc] at hstep
    obtain ⟨_, heq⟩ := Option.ite_none_right_eq_some.mp hstep
    split at heq
    · rename_i p _
      cases heq
      exact mainTurn_of_main (Nat.lt_succ_of_le p.load_le) rfl rfl
    · cases heq
      exact mainTurn_of_main (of_decide_eq_true rfl) rfl rfl
  | closing p =>
    rw [hpc] at hstep
    cases hstep
    exact mainTurn_mainCloses p .success

theorem mainTurn_mainFails {reply : Reply} (hstep : s.mainFails reply = some s') : MainTurn s.main.load s s' := by
  rw [mainFails] at hstep
  cases hpc : s.main with
  | running | stoppingTimers | stoppingConsumers | stoppingChecker | exited =>
    rw [hpc] at hstep
    cases hstep
  | connecting retry =>
    rw [hpc] at hstep
    dsimp only at hstep
    split at hstep
    · rename_i hagain
      have hretry : retry + 1 < 5 := of_decide_eq_true (Bool.and_eq_true_iff.mp hagain).1
      cases hstep
      refine mainTurn_of_main ?_ rfl rfl
      rw [MainPc.load, MainPc.load]
      omega
    · cases hstep
      exact mainTurn_of_main (Nat.lt_of_lt_of_le (of_decide_eq_true rfl) (Nat.le_add_left _ _)) rfl rfl
  | starting | openingChannel c | settingQos c =>
    rw [hpc] at hstep
    cases hstep
    exact mainTurn_of_main (of_decide_eq_true rfl) rfl rfl
  | declaring c t rest | consuming c t rest =>
    rw [hpc] at hstep
    cases hstep
    exact mainTurn_of_main (Nat.lt_of_lt_of_le (of_decide_eq_true rfl) (Nat.le_add_left _ _)) rfl rfl
  | closing p =>
    rw [hpc] at hstep
    cases hstep
    exact mainTurn_mainCloses p reply

/-! ## Turns -/

/-- A turn of a coroutine; nobody interrupts a checker that has ended. -/
def OwnTurn (s : Lifecycle) : Event → Prop
  | .main _ | .checkerWakes | .checker _ _ | .taskWakes _ | .task _ _ | .taskInterrupted _ => True
  | .checkerInterrupted => s.checker ≠ .exited
  | .tick _ | .shutdown | .mainCancelled | .deliver _ _ | .settled _ _ => False

/-- One of the coroutines takes its turn. -/
def Works (timing : Timing) (s s' : Lifecycle) : Prop := ∃ e, s.OwnTurn e ∧ s.step timing e = some s'

/-- The checker is told to stop, and waits for nothing any more. -/
theorem load_interrupted (hpc : s.checker ≠ .exited) (habsent : s.checker ≠ .absent) :
    CheckerTurn s.checker.load s { s with checker := .exited } := by
  refine ⟨rfl, rfl, ?_⟩
  cases h : s.checker with
  | exited => exact absurd h hpc
  | absent => exact absurd h habsent
  | dropping p => exact Nat.add_pos_left p.load_pos 17
  | failing p => exact p.load_pos
  | inspecting | declaring | consuming => exact Nat.succ_pos _
  | sleeping | connecting | openingChannel | settingQos | closingTempChannel | closingTempConnection =>
    exact Nat.succ_pos _

theorem load_works (hphases : s.Phases) (hshutdown : s.shutdownRequested = true) (h : Works timing s s') :
    s'.load < s.load := by
  obtain ⟨e, hown, hstep⟩ := h
  cases e with
  | tick | shutdown | mainCancelled | deliver | settled => cases hown
  | taskWakes | task | taskInterrupted => exact (taskTurn_step hphases (by rintro ⟨⟩) hstep).lt
  | main reply =>
    have hturn : MainTurn s.main.load s s' := by
      cases reply with
      | success => exact mainTurn_mainSucceeds hshutdown hstep
      | failure => exact mainTurn_mainFails hstep
      | timedOut => exact mainTurn_mainFails hstep
    exact hturn.load
  | checkerWakes =>
    obtain ⟨⟨hpc, _⟩, heq⟩ := Option.ite_none_right_eq_some.mp hstep
    cases heq
    refine CheckerTurn.lt ?_
    rw [hpc]
    exact checkerTurn_checkerWakes hshutdown
  | checker reply count =>
    obtain ⟨_, heq⟩ := Option.ite_none_left_eq_some.mp hstep
    cases reply with
    | success => exact (checkerTurn_checkerSucceeds hshutdown heq).lt
    | failure => exact (checkerTurn_checkerFails hshutdown heq).lt
    | timedOut => exact (checkerTurn_checkerFails hshutdown heq).lt
  | checkerInterrupted =>
    obtain ⟨hcond, heq⟩ := Option.ite_none_right_eq_some.mp hstep
    cases heq
    exact (load_interrupted hown (of_decide_eq_true (Bool.and_eq_true_iff.mp hcond).2)).lt

/-- What the descent rests on. -/
structure Stopping (s : Lifecycle) : Prop where
  phases : s.Phases
  handled : s.Handled
  shutdown : s.shutdownRequested = true

theorem works_descends : Descends (Works timing) Stopping load where
  keeps h hworks := by
    obtain ⟨e, hown, hstep⟩ := hworks
    refine ⟨h.phases.step hstep, h.handled.step h.phases hstep, ?_⟩
    rw [shutdownRequested_step (turn_step hstep).tables, h.shutdown]
    rintro rfl
    cases hown
  lt h hworks := load_works h.phases h.shutdown hworks

/-! ## The end -/

/-- Everybody has ended. -/
structure Ended (s : Lifecycle) : Prop where
  main : s.main = .exited
  checker : s.checker = .exited ∨ s.checker = .absent
  tasks : ∀ id, (s.tasks id).pc = .finished

/-- A task that has not ended has a turn left. -/
theorem Stopping.finished (h : s.Stopping) (hstuck : Stuck (Works timing) s) (id : Nat) : (s.tasks id).pc = .finished := by
  by_contra hpc
  cases hcancelled : (s.tasks id).cancelled with
  | true =>
    obtain ⟨s', hs'⟩ : ∃ s', s.taskInterrupted id = some s' := by
      rw [taskInterrupted]
      cases hwhere : (s.tasks id).pc with
      | finished => exact absurd hwhere hpc
      | waiting | cancelling | closing => exact ⟨_, rfl⟩
    exact hstuck s' ⟨.taskInterrupted id, trivial, (if_pos hcancelled).trans hs'⟩
  | false =>
    by_cases hwaiting : (s.tasks id).pc = .waiting
    · exact hstuck _ ⟨.taskWakes id, trivial, if_pos ⟨hwaiting, hcancelled⟩⟩
    · obtain ⟨s', hs'⟩ : ∃ s', s.taskReplied id .failure = some s' := by
        rw [taskReplied]
        cases hwhere : (s.tasks id).pc with
        | finished => exact absurd hwhere hpc
        | waiting => exact absurd hwhere hwaiting
        | closing p => exact ⟨_, rfl⟩
        | cancelling tag =>
          cases hqueue : (s.tasks id).queue with
          | none => exact absurd hqueue (h.handled id tag hwhere)
          | some q => exact ⟨_, rfl⟩
      exact hstuck s' ⟨.task id .failure, trivial, (if_neg (by rw [hcancelled]; rintro ⟨⟩)).trans hs'⟩

/-- A checker that is there has a turn left, or is told to stop. -/
theorem checker_of_stuck (hstuck : Stuck (Works timing) s) : s.checker = .exited ∨ s.checker = .absent := by
  by_contra hpc
  obtain ⟨hexited, habsent⟩ := not_or.mp hpc
  cases hcancelled : s.checkerCancelled with
  | true =>
    refine hstuck _ ⟨.checkerInterrupted, hexited, if_pos ?_⟩
    rw [hcancelled, Bool.true_and]
    exact decide_eq_true habsent
  | false =>
    by_cases hsleeping : s.checker = .sleeping
    · exact hstuck _ ⟨.checkerWakes, trivial, if_pos ⟨hsleeping, hcancelled⟩⟩
    · obtain ⟨s', hs'⟩ : ∃ s', s.checkerFails .failure = some s' := by
        rw [checkerFails]
        cases hwhere : s.checker with
        | exited => exact absurd hwhere hexited
        | absent => exact absurd hwhere habsent
        | sleeping => exact absurd hwhere hsleeping
        | _ => exact ⟨_, rfl⟩
      exact hstuck s' ⟨.checker .failure 0, trivial, (if_neg (by rw [hcancelled]; rintro ⟨⟩)).trans hs'⟩

theorem Stopping.ended (h : s.Stopping) (hstuck : Stuck (Works timing) s) : s.Ended := by
  have htasks := h.finished hstuck
  have hchecker := checker_of_stuck hstuck
  refine ⟨?_, hchecker, htasks⟩
  have hgathered : ∀ pending, s.allFinished pending = true := by
    intro pending
    exact List.all_eq_true.mpr fun id _ => decide_eq_true (htasks id)
  by_contra hpc
  have hnone : s.mainSucceeds = none := by
    by_contra hne
    obtain ⟨s', hs'⟩ := Option.ne_none_iff_exists'.mp hne
    exact hstuck s' ⟨.main .success, trivial, hs'⟩
  rw [mainSucceeds] at hnone
  cases hwhere : s.main with
  | exited => exact hpc hwhere
  | starting | connecting | openingChannel | settingQos | consuming | running | closing =>
    rw [hwhere] at hnone
    cases hnone
  | declaring c t rest =>
    rw [hwhere] at hnone
    cases rest <;> cases hnone
  | stoppingTimers pending | stoppingConsumers pending =>
    rw [hwhere] at hnone
    dsimp only at hnone
    rw [if_pos (hgathered pending)] at hnone
    cases hnone
  | stoppingChecker =>
    rw [hwhere] at hnone
    dsimp only at hnone
    rw [if_pos hchecker] at hnone
    split at hnone <;> cases hnone

theorem handled_init (now : Int) : Handled { now := now } := by rintro _ _ ⟨⟩

/-- Once a shutdown is requested, in any run and whatever the awaits come out with: the
coroutines have at most `load` turns left, they can come to an end, and wherever none of
them has a turn left `main` has exited, and so have the checker and all tasks. -/
theorem shutdown_ends {ok : Lifecycle → Event → Prop} {now : Int} {es : List Event}
    (hrun : Runs.Run (step timing) ok { now := now } es s) (hshutdown : s.shutdownRequested = true) :
    (∀ n s', Path (Works timing) n s s' → n ≤ s.load) ∧
      (∃ n s', Path (Works timing) n s s' ∧ Stuck (Works timing) s') ∧
      ∀ n s', Path (Works timing) n s s' → Stuck (Works timing) s' → s'.Ended := by
  have hinv : s.Phases ∧ s.Handled := by
    refine hrun.invariant (I := fun s => s.Phases ∧ s.Handled) ⟨phases_init now, handled_init now⟩ ?_
    rintro s s' e ⟨hphases, hhandled⟩ _ hstep
    exact ⟨hphases.step hstep, hhandled.step hphases hstep⟩
  have hstopping : s.Stopping := ⟨hinv.1, hinv.2, hshutdown⟩
  have hdescends : Descends (Works timing) Stopping load := works_descends
  refine ⟨fun n s' hpath => ?_, hdescends.exists_stuck hstopping, fun n s' hpath hstuck => ?_⟩
  · exact Nat.le_of_add_right_le (hdescends.length_add_le hstopping hpath)
  · exact (hdescends.inv_of_path hstopping hpath).ended hstuck

/-- The service is started, a file is complete, and a shutdown is requested. -/
def stopAfterFile : List Event :=
  List.replicate 12 (.main .success) ++ [.deliver .artists .fileComplete, .shutdown]

/-- `main` and the checker are asleep, and so is a completion timer. -/
theorem shutdown_ends_afterFile : ∃ s, Runs.Run (step {}) (fun _ _ => True) { now := 1 } stopAfterFile s ∧
    s.main = .running ∧ s.checker = .sleeping ∧ (s.tasks 0).pc = .waiting ∧
      ∃ n s', n ≤ 46 ∧ Path (Works {}) n s s' ∧ s'.Ended := by
  obtain ⟨s, hrun, hmain, hchecker, htask, hshutdown, hload⟩ : ∃ s,
      Runs.Run (step {}) (fun _ _ => True) { now := 1 } stopAfterFile s ∧ s.main = .running ∧ s.checker = .sleeping ∧
        (s.tasks 0).pc = .waiting ∧ s.shutdownRequested = true ∧ s.load = 46 :=
    Runs.exists_run (by decide +kernel)
  obtain ⟨hbound, ⟨n, s', hpath, hstuck⟩, hended⟩ := shutdown_ends hrun hshutdown
  exact ⟨s, hrun, hmain, hchecker, htask, n, s', hload ▸ hbound n s' hpath, hpath, hended n s' hpath hstuck⟩

end Lifecycle

end Brainzgraphinator
