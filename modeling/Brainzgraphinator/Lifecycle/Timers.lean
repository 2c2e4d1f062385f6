-- SUMMARY: The tasks that cancel consumers, and which of them are stored as completion timers.
import Brainzgraphinator.Lifecycle.Transport

/-!
# Completion timers

Tasks are numbered as they are created. `consumerCancelTasks` stores one timer for a
data type; `cancel_all_consumers` creates cancels of its own, which it does not store.
-/

namespace Brainzgraphinator

inductive TaskKind where
  /-- `cancel_after_delay`. -/
  | timer
  /-- A cancel that `cancel_all_consumers` gathers. -/
  | shutdown
  deriving DecidableEq

inductive TaskPc where
  /-- A timer sleeps, a shutdown cancel has not begun. -/
  | waiting
  /-- `await queue.cancel(consumer_tag, …)`. -/
  | cancelling (tag : String)
  | closing (pc : ClosePc)
  | finished
  deriving DecidableEq

/-- A task that cancels a consumer. -/
structure CancelTask where
  kind : TaskKind
  dataType : EntityType
  queue : Option Nat
  /-- The tag a shutdown cancel was created with. -/
  tag : String := ""
  pc : TaskPc := .waiting
  /-- `task.cancel()` was called: it gets `CancelledError` at its await. -/
  cancelled : Bool := false
  deriving DecidableEq

/-- A task that runs, and has not been cancelled. -/
def CancelTask.live (task : CancelTask) : Bool := decide (task.pc ≠ .finished) && !task.cancelled

theorem CancelTask.live_iff {task : CancelTask} :
    task.live = true ↔ task.pc ≠ .finished ∧ task.cancelled = false := by
  simp [live]

structure Timers where
  tasks : Nat → CancelTask :=
    fun _ => { kind := .timer, dataType := .artists, queue := none, pc := .finished }
  taskCount : Nat := 0
  consumerCancelTasks : EntityType → Option Nat := fun _ => none

namespace Timers

variable (s : Timers)

def setTask (id : Nat) (task : CancelTask) : Timers :=
  { s with tasks := Function.update s.tasks id task }

/-- The task waits somewhere else. -/
def setPc (id : Nat) (pc : TaskPc) : Timers := s.setTask id { s.tasks id with pc := pc }

/-- `task.cancel()`; a finished task does not notice. -/
def cancelTask (id : Nat) : Timers := s.setTask id { s.tasks id with cancelled := true }

/-- A new task, with the next number. -/
def createTask (task : CancelTask) : Timers :=
  { s.setTask s.taskCount task with taskCount := s.taskCount + 1 }

/-- The `finally` clause: a timer pops itself if it is still the one stored. -/
def finishTask (id : Nat) : Timers :=
  let t := (s.tasks id).dataType
  { s.setPc id .finished with
    consumerCancelTasks :=
      if s.consumerCancelTasks t = some id then Function.update s.consumerCancelTasks t none
      else s.consumerCancelTasks }

/-- Pop the stored timer of `t` and cancel it. -/
def dropTimer (t : EntityType) : Timers :=
  match s.consumerCancelTasks t with
  | some id =>
    { s.cancelTask id with consumerCancelTasks := Function.update s.consumerCancelTasks t none }
  | none => s

def dropTimers : Timers := musicbrainzDataTypes.foldl dropTimer s

/-- `schedule_consumer_cancellation`: a new timer takes the place of the stored one. -/
def scheduleConsumerCancellation (t : EntityType) (queue : Nat) : Timers :=
  let s := s.dropTimer t
  { s.createTask { kind := .timer, dataType := t, queue := some queue } with
    consumerCancelTasks := Function.update s.consumerCancelTasks t (some s.taskCount) }

def allFinished (pending : List Nat) : Bool :=
  pending.all fun id => decide ((s.tasks id).pc = .finished)

/-! ## Task numbers -/

/-- Numbers are given once, and what is stored is a timer of its data type. -/
structure WellFormed : Prop where
  fresh : ∀ id, s.taskCount ≤ id → (s.tasks id).pc = .finished
  stored : ∀ t id, s.consumerCancelTasks t = some id →
    id < s.taskCount ∧ (s.tasks id).kind = .timer ∧ (s.tasks id).dataType = t

/-- Every timer that still runs uncancelled is the one stored for its data type. -/
def StoresLive : Prop :=
  ∀ id, (s.tasks id).kind = .timer → (s.tasks id).live = true →
    s.consumerCancelTasks (s.tasks id).dataType = some id

variable {s} {t : EntityType} {id : Nat}

@[simp] theorem setTask_self (s : Timers) (id : Nat) (task : CancelTask) :
    (s.setTask id task).tasks id = task := by
  simp [setTask]

theorem setTask_of_ne {id' : Nat} (h : id' ≠ id) (task : CancelTask) :
    (s.setTask id task).tasks id' = s.tasks id' := by
  simp [setTask, h]

@[simp] theorem createTask_self (s : Timers) (task : CancelTask) :
    (s.createTask task).tasks s.taskCount = task :=
  setTask_self s s.taskCount task

theorem createTask_of_ne (h : id ≠ s.taskCount) (task : CancelTask) :
    (s.createTask task).tasks id = s.tasks id :=
  setTask_of_ne h task

theorem WellFormed.lt (h : s.WellFormed) (hpc : (s.tasks id).pc ≠ .finished) : id < s.taskCount := by
  by_contra hge
  exact hpc (h.fresh id (Nat.le_of_not_lt hge))

/-- A task keeps its number, kind and data type. -/
theorem WellFormed.setTask (h : s.WellFormed) {task : CancelTask}
    (hfresh : s.taskCount ≤ id → task.pc = .finished)
    (hkind : task.kind = (s.tasks id).kind) (htype : task.dataType = (s.tasks id).dataType) :
    (s.setTask id task).WellFormed := by
  constructor
  · intro id' hid'
    by_cases heq : id' = id
    · subst heq
      rw [setTask_self]
      exact hfresh hid'
    · rw [setTask_of_ne heq]
      exact h.fresh id' hid'
  · intro t id' hstored
    obtain ⟨hlt, hk, ht⟩ := h.stored t id' hstored
    refine ⟨hlt, ?_⟩
    by_cases heq : id' = id
    · subst heq
      rw [setTask_self, hkind, htype]
      exact ⟨hk, ht⟩
    · rw [setTask_of_ne heq]
      exact ⟨hk, ht⟩

/-- Forgetting what is stored does no harm. -/
theorem WellFormed.of_stored (h : s.WellFormed) {stored : EntityType → Option Nat}
    (hsub : ∀ t id, stored t = some id → s.consumerCancelTasks t = some id) :
    { s with consumerCancelTasks := stored }.WellFormed :=
  ⟨h.fresh, fun t id hid => h.stored t id (hsub t id hid)⟩

theorem WellFormed.finishTask (h : s.WellFormed) (id : Nat) : (s.finishTask id).WellFormed := by
  have hset : (s.setPc id .finished).WellFormed := h.setTask (fun _ => rfl) rfl rfl
  apply hset.of_stored
  intro u id' hid'
  split at hid'
  · exact eq_some_of_update_none hid'
  · exact hid'

theorem WellFormed.setPc (h : s.WellFormed) (hpc : (s.tasks id).pc ≠ .finished) (pc : TaskPc) :
    (s.setPc id pc).WellFormed :=
  h.setTask (fun hle => absurd (h.lt hpc) (Nat.not_lt.mpr hle)) rfl rfl

theorem WellFormed.cancelTask (h : s.WellFormed) (id : Nat) : (s.cancelTask id).WellFormed :=
  h.setTask (h.fresh id) rfl rfl

theorem WellFormed.dropTimer (h : s.WellFormed) (t : EntityType) : (s.dropTimer t).WellFormed := by
  rw [Timers.dropTimer]
  split
  · rename_i id hstored
    exact (h.cancelTask id).of_stored fun _ _ => eq_some_of_update_none
  · exact h

theorem WellFormed.dropTimers (h : s.WellFormed) : s.dropTimers.WellFormed :=
  List.foldlRecOn musicbrainzDataTypes Timers.dropTimer h fun _ hs t _ => hs.dropTimer t

theorem WellFormed.createTask (h : s.WellFormed) (task : CancelTask) : (s.createTask task).WellFormed := by
  constructor
  · intro id hid
    have hid' : s.taskCount < id := hid
    rw [createTask_of_ne (Nat.ne_of_gt hid')]
    exact h.fresh id (Nat.le_of_lt hid')
  · intro t id hstored
    obtain ⟨hlt, hk, ht⟩ := h.stored t id hstored
    rw [createTask_of_ne (Nat.ne_of_lt hlt)]
    exact ⟨Nat.lt_succ_of_lt hlt, hk, ht⟩

theorem taskCount_dropTimer (t : EntityType) : (s.dropTimer t).taskCount = s.taskCount := by
  rw [dropTimer]
  split <;> rfl

theorem WellFormed.schedule (h : s.WellFormed) (t : EntityType) (queue : Nat) :
    (s.scheduleConsumerCancellation t queue).WellFormed := by
  have hdrop := h.dropTimer t
  have hcreate := hdrop.createTask { kind := .timer, dataType := t, queue := some queue }
  refine ⟨hcreate.fresh, fun u id hstored => ?_⟩
  by_cases hu : u = t
  · subst hu
    simp only [scheduleConsumerCancellation, Function.update_self, Option.some.injEq] at hstored
    subst hstored
    refine ⟨Nat.lt_succ_self _, ?_⟩
    simp [scheduleConsumerCancellation]
  · simp only [scheduleConsumerCancellation, Function.update_of_ne hu] at hstored
    exact hcreate.stored u id hstored

/-! ## Live timers -/

/-- A task goes on waiting somewhere else, or is cancelled, and stays stored. -/
theorem StoresLive.setTask (h : s.StoresLive) {task : CancelTask}
    (hkind : task.kind = (s.tasks id).kind) (htype : task.dataType = (s.tasks id).dataType)
    (hlive : task.live = true → (s.tasks id).live = true) : (s.setTask id task).StoresLive := by
  intro id' hk hl
  by_cases heq : id' = id
  · subst heq
    rw [setTask_self] at hk hl ⊢
    rw [htype]
    exact h id' (hkind ▸ hk) (hlive hl)
  · rw [setTask_of_ne heq] at hk hl ⊢
    exact h id' hk hl

/-- A stored task that is no longer live can be popped. -/
theorem StoresLive.pop (h : s.StoresLive) (hid : s.consumerCancelTasks t = some id)
    (hdone : (s.tasks id).live = false) :
    { s with consumerCancelTasks := Function.update s.consumerCancelTasks t none }.StoresLive := by
  intro id' hk hl
  have hstored := h id' hk hl
  have hne : (s.tasks id').dataType ≠ t := by
    intro heq
    rw [heq, hid] at hstored
    have hsame : id' = id := (Option.some.inj hstored).symm
    have hlive : (s.tasks id').live = true := hl
    rw [hsame, hdone] at hlive
    cases hlive
  exact (Function.update_of_ne hne none s.consumerCancelTasks).trans hstored

theorem StoresLive.setPc (h : s.StoresLive) (hlive : (s.tasks id).live = true) (pc : TaskPc) :
    (s.setPc id pc).StoresLive :=
  h.setTask rfl rfl fun _ => hlive

theorem StoresLive.cancelTask (h : s.StoresLive) (id : Nat) : (s.cancelTask id).StoresLive :=
  h.setTask rfl rfl fun hl => absurd (CancelTask.live_iff.mp hl).2 (by simp)

theorem StoresLive.finishTask (h : s.StoresLive) (id : Nat) : (s.finishTask id).StoresLive := by
  have hset : (s.setPc id .finished).StoresLive :=
    h.setTask rfl rfl fun hl => absurd rfl (CancelTask.live_iff.mp hl).1
  have hdone : ((s.setPc id .finished).tasks id).live = false := by
    rw [Timers.setPc, setTask_self]
    rfl
  by_cases hstored : s.consumerCancelTasks (s.tasks id).dataType = some id
  · have hpop := StoresLive.pop (t := (s.tasks id).dataType) hset hstored hdone
    rw [Timers.finishTask, if_pos hstored]
    exact hpop
  · rw [Timers.finishTask, if_neg hstored]
    exact hset

theorem StoresLive.dropTimer (h : s.StoresLive) (t : EntityType) : (s.dropTimer t).StoresLive := by
  rw [Timers.dropTimer]
  split
  · rename_i id hstored
    have hdone : ((s.cancelTask id).tasks id).live = false := by
      rw [Timers.cancelTask, setTask_self]
      simp [CancelTask.live]
    exact StoresLive.pop (h.cancelTask id) hstored hdone
  · exact h

theorem dropTimer_stored (s : Timers) (t : EntityType) : (s.dropTimer t).consumerCancelTasks t = none := by
  rw [Timers.dropTimer]
  split
  · simp
  · assumption

/-- No timer is stored once all were dropped. -/
theorem dropTimers_stored (s : Timers) (t : EntityType) : s.dropTimers.consumerCancelTasks t = none := by
  have hkeeps : ∀ (types : List EntityType) (s : Timers), s.consumerCancelTasks t = none →
      (types.foldl Timers.dropTimer s).consumerCancelTasks t = none := by
    intro types
    induction types with
    | nil => exact fun _ hnone => hnone
    | cons u types ih =>
      intro s hnone
      apply ih
      rw [Timers.dropTimer]
      split
      · by_cases htu : t = u
        · rw [htu]
          exact Function.update_self u none s.consumerCancelTasks
        · exact (Function.update_of_ne htu none s.consumerCancelTasks).trans hnone
      · exact hnone
  have hall : ∀ (types : List EntityType) (s : Timers), t ∈ types →
      (types.foldl Timers.dropTimer s).consumerCancelTasks t = none := by
    intro types
    induction types with
    | nil => nofun
    | cons u types ih =>
      intro s ht
      rcases List.mem_cons.mp ht with rfl | hmem
      · exact hkeeps types _ (dropTimer_stored s t)
      · exact ih _ hmem
  exact hall musicbrainzDataTypes s (mem_musicbrainzDataTypes t)

theorem StoresLive.schedule (h : s.StoresLive) (t : EntityType) (queue : Nat) :
    (s.scheduleConsumerCancellation t queue).StoresLive := by
  intro id hk hl
  by_cases hid : id = (s.dropTimer t).taskCount
  · subst hid
    simp [scheduleConsumerCancellation]
  · have hold : (s.scheduleConsumerCancellation t queue).tasks id = (s.dropTimer t).tasks id :=
      createTask_of_ne hid _
    rw [hold] at hk hl ⊢
    have hstored := (h.dropTimer t) id hk hl
    have hne : ((s.dropTimer t).tasks id).dataType ≠ t := by
      intro heq
      rw [heq, dropTimer_stored] at hstored
      cases hstored
    simp only [scheduleConsumerCancellation, Function.update_of_ne hne]
    exact hstored

/-- A shutdown cancel is no timer. -/
theorem StoresLive.createTask (h : s.StoresLive) {task : CancelTask} (hkind : task.kind = .shutdown) :
    (s.createTask task).StoresLive := by
  intro id hk hl
  by_cases hid : id = s.taskCount
  · subst hid
    rw [createTask_self, hkind] at hk
    cases hk
  · rw [createTask_of_ne hid] at hk hl ⊢
    exact h id hk hl

theorem StoresLive.dropTimers (h : s.StoresLive) : s.dropTimers.StoresLive :=
  List.foldlRecOn musicbrainzDataTypes Timers.dropTimer h fun _ hs t _ => hs.dropTimer t

/-! ## Timers of other types -/

theorem dropTimer_stored_of_ne (s : Timers) {u : EntityType} (hne : u ≠ t) :
    (s.dropTimer t).consumerCancelTasks u = s.consumerCancelTasks u := by
  rw [Timers.dropTimer]
  split
  · exact Function.update_of_ne hne none s.consumerCancelTasks
  · rfl

theorem WellFormed.dropTimer_of_ne (h : s.WellFormed) (hne : (s.tasks id).dataType ≠ t) :
    (s.dropTimer t).tasks id = s.tasks id := by
  rw [Timers.dropTimer]
  split
  · rename_i id' hstored
    refine setTask_of_ne (fun heq => ?_) _
    rw [heq] at hne
    exact hne (h.stored t id' hstored).2.2
  · rfl

theorem WellFormed.schedule_of_ne (h : s.WellFormed) (hid : id < s.taskCount) (hne : (s.tasks id).dataType ≠ t)
    (queue : Nat) : (s.scheduleConsumerCancellation t queue).tasks id = s.tasks id := by
  have hlt : id ≠ (s.dropTimer t).taskCount := by
    rw [taskCount_dropTimer]
    exact Nat.ne_of_lt hid
  have hold : (s.scheduleConsumerCancellation t queue).tasks id = (s.dropTimer t).tasks id :=
    createTask_of_ne hlt _
  rw [hold]
  exact h.dropTimer_of_ne hne

theorem schedule_stored_of_ne (s : Timers) {u : EntityType} (hne : u ≠ t) (queue : Nat) :
    (s.scheduleConsumerCancellation t queue).consumerCancelTasks u = s.consumerCancelTasks u :=
  (Function.update_of_ne hne _ _).trans (s.dropTimer_stored_of_ne hne)

/-! ## What holds of every task -/

/-- What is said of a task does not depend on how it ends. -/
structure Stable (P : CancelTask → Prop) : Prop where
  cancel : ∀ task, P task → P { task with cancelled := true }
  finish : ∀ task, P task → P { task with pc := .finished }

variable {P : CancelTask → Prop}

theorem forall_setTask (h : ∀ id, P (s.tasks id)) {task : CancelTask} (htask : P task) :
    ∀ id', P ((s.setTask id task).tasks id') := by
  intro id'
  by_cases heq : id' = id
  · subst heq
    rwa [setTask_self]
  · rw [setTask_of_ne heq]
    exact h id'

theorem forall_createTask (h : ∀ id, P (s.tasks id)) {task : CancelTask} (htask : P task) :
    ∀ id, P ((s.createTask task).tasks id) :=
  forall_setTask h htask

theorem Stable.finishTask (hP : Stable P) (h : ∀ id, P (s.tasks id)) (id : Nat) :
    ∀ id', P ((s.finishTask id).tasks id') := by
  have htask : P { s.tasks id with pc := .finished } := hP.finish _ (h id)
  exact forall_setTask h htask

theorem Stable.cancelTask (hP : Stable P) (h : ∀ id, P (s.tasks id)) (id : Nat) :
    ∀ id', P ((s.cancelTask id).tasks id') := by
  have htask : P { s.tasks id with cancelled := true } := hP.cancel _ (h id)
  exact forall_setTask h htask

theorem Stable.dropTimer (hP : Stable P) (h : ∀ id, P (s.tasks id)) (t : EntityType) :
    ∀ id, P ((s.dropTimer t).tasks id) := by
  rw [Timers.dropTimer]
  split
  · exact hP.cancelTask h _
  · exact h

theorem Stable.dropTimers (hP : Stable P) (h : ∀ id, P (s.tasks id)) : ∀ id, P (s.dropTimers.tasks id) := by
  rw [Timers.dropTimers]
  exact List.foldlRecOn (motive := fun s' : Timers => ∀ id, P (s'.tasks id)) _ _ h fun _ hs t _ => hP.dropTimer hs t

/-! ## Stored closers -/

/-- A stored timer, not cancelled, is closing the transport. -/
def StoredCloser (s : Timers) (p : ClosePc) : Prop :=
  ∃ t id, s.consumerCancelTasks t = some id ∧ (s.tasks id).pc = .closing p ∧ (s.tasks id).cancelled = false

variable {p : ClosePc}

theorem StoredCloser.of_setTask {task : CancelTask} (h : (s.setTask id task).StoredCloser p)
    (hlive : task.pc = .closing p → task.cancelled = false →
      (s.tasks id).pc = .closing p ∧ (s.tasks id).cancelled = false) : s.StoredCloser p := by
  obtain ⟨t, id', hstored, hpc, hcancelled⟩ := h
  by_cases heq : id' = id
  · subst heq
    rw [setTask_self] at hpc hcancelled
    exact ⟨t, id', hstored, hlive hpc hcancelled⟩
  · rw [setTask_of_ne heq] at hpc hcancelled
    exact ⟨t, id', hstored, hpc, hcancelled⟩

theorem StoredCloser.of_stored {stored : EntityType → Option Nat}
    (h : Timers.StoredCloser { s with consumerCancelTasks := stored } p)
    (hsub : ∀ t id, stored t = some id → s.consumerCancelTasks t = some id) : s.StoredCloser p := by
  obtain ⟨t, id, hstored, hcloser⟩ := h
  exact ⟨t, id, hsub t id hstored, hcloser⟩

theorem StoredCloser.of_cancelTask (h : (s.cancelTask id).StoredCloser p) : s.StoredCloser p :=
  h.of_setTask fun _ hcancelled => absurd hcancelled (by simp)

theorem StoredCloser.of_finishTask (h : (s.finishTask id).StoredCloser p) : s.StoredCloser p := by
  have hset : (s.setPc id .finished).StoredCloser p := by
    refine StoredCloser.of_stored h fun t id' hid' => ?_
    split at hid'
    · exact eq_some_of_update_none hid'
    · exact hid'
  exact hset.of_setTask fun hpc => absurd hpc nofun

theorem StoredCloser.of_dropTimer {t : EntityType} (h : (s.dropTimer t).StoredCloser p) :
    s.StoredCloser p := by
  rw [Timers.dropTimer] at h
  split at h
  · exact StoredCloser.of_cancelTask (StoredCloser.of_stored h fun _ _ => eq_some_of_update_none)
  · exact h

theorem not_storedCloser_dropTimers (s : Timers) (p : ClosePc) : ¬s.dropTimers.StoredCloser p := by
  rintro ⟨t, id, hstored, _⟩
  rw [dropTimers_stored] at hstored
  cases hstored

theorem StoredCloser.of_cancelTasks (ids : List Nat) (h : (ids.foldl Timers.cancelTask s).StoredCloser p) :
    s.StoredCloser p := by
  induction ids generalizing s with
  | nil => exact h
  | cons id ids ih => exact (ih h).of_cancelTask

theorem StoredCloser.of_schedule {t : EntityType} {queue : Nat}
    (h : (s.scheduleConsumerCancellation t queue).StoredCloser p) : s.StoredCloser p := by
  obtain ⟨u, id, hstored, hpc, hcancelled⟩ := h
  have hne : id ≠ (s.dropTimer t).taskCount := by
    intro heq
    subst heq
    simp [scheduleConsumerCancellation] at hpc
  have hold : (s.scheduleConsumerCancellation t queue).tasks id = (s.dropTimer t).tasks id :=
    createTask_of_ne hne _
  rw [hold] at hpc hcancelled
  have hu : u ≠ t := by
    intro heq
    subst heq
    simp only [scheduleConsumerCancellation, Function.update_self, Option.some.injEq] at hstored
    exact hne hstored.symm
  simp only [scheduleConsumerCancellation, Function.update_of_ne hu] at hstored
  exact StoredCloser.of_dropTimer ⟨u, id, hstored, hpc, hcancelled⟩

end Timers

end Brainzgraphinator
