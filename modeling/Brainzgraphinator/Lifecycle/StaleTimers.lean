-- SUMMARY: A record that is handled leaves no earlier timer of its type able to do anything.
import Brainzgraphinator.Lifecycle.Dormancy

/-!
# Stale timers

A record cancels the stored timer of its type, and no other timer of the type runs
uncancelled. A task that is finished or cancelled is dead: its last turn ends it, and if
its cancel request was in flight then this turn asks for a recovery.
-/

namespace Brainzgraphinator

namespace Timers

variable {s s' : Timers} {id : Nat}

/-! ## Dead tasks -/

/-- The task is as it was, but perhaps cancelled. -/
def Left (s s' : Timers) (id : Nat) : Prop :=
  s'.tasks id = s.tasks id ∨ s'.tasks id = { s.tasks id with cancelled := true }

theorem Left.refl (s : Timers) (id : Nat) : Left s s id := .inl rfl

theorem Left.trans {s'' : Timers} (h : Left s s' id) (h' : Left s' s'' id) : Left s s'' id := by
  rcases h with heq | heq
  · rw [Left, ← heq]
    exact h'
  · refine .inr ?_
    rcases h' with heq' | heq'
    · rw [heq', heq]
    · rw [heq', heq]

theorem left_cancelTask (s : Timers) (id id' : Nat) : Left s (s.cancelTask id') id := by
  by_cases heq : id = id'
  · subst heq
    exact .inr (setTask_self s id _)
  · exact .inl (setTask_of_ne heq _)

theorem left_dropTimer (s : Timers) (t : EntityType) (id : Nat) : Left s (s.dropTimer t) id := by
  rw [dropTimer]
  split
  · exact left_cancelTask s id _
  · exact .refl s id

theorem left_dropTimers (s : Timers) (id : Nat) : Left s s.dropTimers id :=
  List.foldlRecOn (motive := fun s' : Timers => Left s s' id) _ _ (.refl s id)
    fun s' hs t _ => hs.trans (left_dropTimer s' t id)

theorem left_cancelTasks (s : Timers) (ids : List Nat) (id : Nat) : Left s (ids.foldl cancelTask s) id :=
  List.foldlRecOn (motive := fun s' : Timers => Left s s' id) _ _ (.refl s id)
    fun s' hs id' _ => hs.trans (left_cancelTask s' id id')

theorem left_schedule (hid : id < s.taskCount) (t : EntityType) (queue : Nat) :
    Left s (s.scheduleConsumerCancellation t queue) id := by
  have hne : id ≠ (s.dropTimer t).taskCount := by
    rw [taskCount_dropTimer]
    exact Nat.ne_of_lt hid
  exact (left_dropTimer s t id).trans (.inl (createTask_of_ne hne _))

theorem Left.live (h : Left s s' id) (hdead : (s.tasks id).live = false) : (s'.tasks id).live = false := by
  rcases h with heq | heq
  · rw [heq, hdead]
  · rw [heq]
    simp [CancelTask.live]

theorem Left.pc (h : Left s s' id) : (s'.tasks id).pc = (s.tasks id).pc := by
  rcases h with heq | heq <;> rw [heq]

/-! ## Task numbers only grow -/

theorem taskCount_dropTimers (s : Timers) : s.dropTimers.taskCount = s.taskCount :=
  List.foldlRecOn (motive := fun s' : Timers => s'.taskCount = s.taskCount) _ _ rfl
    fun _ hs t _ => (taskCount_dropTimer t).trans hs

theorem taskCount_cancelTasks (s : Timers) (ids : List Nat) : (ids.foldl cancelTask s).taskCount = s.taskCount :=
  List.foldlRecOn (motive := fun s' : Timers => s'.taskCount = s.taskCount) _ _ rfl fun _ hs _ _ => hs

theorem le_taskCount_createTasks (s : Timers) (tasks : List CancelTask) :
    s.taskCount ≤ (tasks.foldl createTask s).taskCount :=
  List.foldlRecOn (motive := fun s' : Timers => s.taskCount ≤ s'.taskCount) _ _ (Nat.le_refl _)
    fun _ hs _ _ => Nat.le_succ_of_le hs

/-- A timer that was dropped, and every timer of its type when the live ones are stored. -/
theorem StoresLive.not_live_dropTimer (h : s.StoresLive) {t : EntityType} (hkind : (s.tasks id).kind = .timer)
    (htype : (s.tasks id).dataType = t) : ((s.dropTimer t).tasks id).live = false := by
  cases hlive : (s.tasks id).live with
  | false => exact (left_dropTimer s t id).live hlive
  | true =>
    have hstored := h id hkind hlive
    rw [htype] at hstored
    have hcancelled : (s.dropTimer t).tasks id = { s.tasks id with cancelled := true } := by
      rw [Timers.dropTimer, hstored]
      exact setTask_self s id _
    rw [hcancelled]
    simp [CancelTask.live]

end Timers

namespace Lifecycle

open Transport

variable {timing : Timing} {s s' : Lifecycle} {e : Event} {id : Nat}

/-- Nobody but a dead task itself does anything to it. -/
theorem TimersStep.left {after : Transport} {timers : Timers} (h : TimersStep s after e timers)
    (hid : id < s.taskCount) (hdead : (s.tasks id).live = false) :
    s.taskCount ≤ timers.taskCount ∧
      (Timers.Left s.toTimers timers id ∨ e.task? = some id ∧ timers.tasks id = { s.tasks id with pc := .finished }) := by
  cases h with
  | same => exact ⟨Nat.le_refl _, .inl (.refl _ id)⟩
  | @setPc _ id' pc he hlive _ _ =>
    have hne : id ≠ id' := by
      rintro rfl
      cases hlive.symm.trans hdead
    exact ⟨Nat.le_refl _, .inl (.inl (Timers.setTask_of_ne hne _))⟩
  | @finish _ id' he =>
    refine ⟨Nat.le_refl _, ?_⟩
    by_cases heq : id = id'
    · subst heq
      exact .inr ⟨he, Timers.setTask_self s.toTimers id _⟩
    · exact .inl (.inl (Timers.setTask_of_ne heq _))
  | drop => exact ⟨(Timers.taskCount_dropTimer _).ge, .inl (Timers.left_dropTimer _ _ id)⟩
  | schedule _ _ =>
    refine ⟨?_, .inl (Timers.left_schedule hid _ _)⟩
    exact (Timers.taskCount_dropTimer (s := s.toTimers) _).ge.trans (Nat.le_succ _)
  | dropAll _ _ => exact ⟨(Timers.taskCount_dropTimers _).ge, .inl (Timers.left_dropTimers _ id)⟩
  | cancels _ => exact ⟨(Timers.taskCount_cancelTasks _ _).ge, .inl (Timers.left_cancelTasks _ _ id)⟩
  | clear _ _ =>
    have hle : s.taskCount ≤ s.clearedTimers.taskCount :=
      Timers.le_taskCount_createTasks { s.toTimers with consumerCancelTasks := fun _ => none } s.shutdownCancels
    exact ⟨hle, .inl (.inl (tasks_clearedTimers hid))⟩

/-- The only turn of a dead task ends it. -/
theorem turn_of_dead (hstep : s.step timing e = some s') (he : e.task? = some id)
    (hdead : (s.tasks id).live = false) :
    e = .taskInterrupted id ∧ ((∃ tag, (s.tasks id).pc = .cancelling tag) ∧ s' = s.cancelFails id ∨
      (∀ tag, (s.tasks id).pc ≠ .cancelling tag) ∧ s' = s.finish id) := by
  have hended : (s.tasks id).cancelled = false → (s.tasks id).pc = .finished := by
    intro hcancelled
    by_contra hpc
    have hlive := CancelTask.live_iff.mpr ⟨hpc, hcancelled⟩
    cases hlive.symm.trans hdead
  cases e with
  | taskWakes id' =>
    cases he
    obtain ⟨⟨hpc, hcancelled⟩, _⟩ := Option.ite_none_right_eq_some.mp hstep
    cases hpc.symm.trans (hended hcancelled)
  | task id' reply =>
    cases he
    obtain ⟨hcancelled, heq⟩ := Option.ite_none_left_eq_some.mp hstep
    have hreplied : s.taskReplied id reply = some s' := heq
    rw [taskReplied, hended (Bool.not_eq_true _ ▸ hcancelled)] at hreplied
    cases hreplied
  | taskInterrupted id' =>
    cases he
    obtain ⟨_, heq⟩ := Option.ite_none_right_eq_some.mp hstep
    have hinterrupted : s.taskInterrupted id = some s' := heq
    refine ⟨rfl, ?_⟩
    rw [taskInterrupted] at hinterrupted
    split at hinterrupted
    · rename_i tag hpc
      cases hinterrupted
      exact .inl ⟨⟨tag, hpc⟩, rfl⟩
    · rename_i hpc
      cases hinterrupted
      exact .inr ⟨fun tag htag => (by cases hpc.symm.trans htag), rfl⟩
    · rename_i p hpc
      cases hinterrupted
      exact .inr ⟨fun tag htag => (by cases hpc.symm.trans htag), rfl⟩
    · cases hinterrupted
  | tick | shutdown | main | mainCancelled | checkerWakes | checker | checkerInterrupted | deliver | settled => cases he

/-! ## Live timers while the service runs -/

/-- Before `main` is told to stop, every timer that runs is stored. -/
theorem storesLive_of_run {now : Int} {es : List Event}
    (h : Runs.Run (step timing) (fun _ e => e ≠ .mainCancelled) { now := now } es s)
    (hrunning : s.shutdownRequested = false) : s.toTimers.StoresLive := by
  have hinv : s.Phases ∧ (s.shutdownRequested = false → s.main.stopping = false ∧ s.toTimers.StoresLive) := by
    refine h.invariant (I := fun s => s.Phases ∧
      (s.shutdownRequested = false → s.main.stopping = false ∧ s.toTimers.StoresLive))
      ⟨phases_init now, fun _ => ⟨rfl, (bookkeeping_init now).timers⟩⟩ ?_
    rintro s s' e ⟨hphases, hlive⟩ hok hstep
    refine ⟨hphases.step hstep, fun hrunning' => ?_⟩
    have hturn := turn_step hstep
    have hshutdown : e ≠ .shutdown := by
      rintro rfl
      cases hstep
      cases hrunning'
    have hrunning : s.shutdownRequested = false := by
      rw [← shutdownRequested_step hturn.tables hshutdown, hrunning']
    obtain ⟨hmain, hstores⟩ := hlive hrunning
    exact ⟨(hturn.main.serving hmain hrunning hok).1,
      storesLive_step hstores (fun hclears t id hid => hclears.not_live hmain hid) (timers_step hstep)⟩
  exact (hinv.2 hrunning).2

/-! ## After a record -/

/-- The task ends its turn without having touched the consumers or the transport. -/
structure EndsIdly (s s' : Lifecycle) (id : Nat) : Prop where
  consumerTags : s'.consumerTags = s.consumerTags
  activeConnection : s'.activeConnection = s.activeConnection
  activeChannel : s'.activeChannel = s.activeChannel
  finished : (s'.tasks id).pc = .finished

theorem endsIdly_of_dead (hstep : s.step timing e = some s') (he : e.task? = some id)
    (hdead : (s.tasks id).live = false) : EndsIdly s s' id := by
  have hfinished : (s.finishTask id).tasks id = { s.tasks id with pc := .finished } :=
    Timers.setTask_self s.toTimers id _
  rcases (turn_of_dead hstep he hdead).2 with ⟨_, rfl⟩ | ⟨_, rfl⟩
  · exact ⟨rfl, rfl, rfl, congrArg CancelTask.pc hfinished⟩
  · exact ⟨rfl, rfl, rfl, congrArg CancelTask.pc hfinished⟩

/-- A dead task stays dead, and one whose cancel is in flight keeps it until it has asked for a recovery. -/
theorem dead_of_run {es : List Event} {s₀ : Lifecycle}
    (h : Runs.Run (step timing) (fun _ _ => True) s₀ es s) (hid : id < s₀.taskCount)
    (hdead : (s₀.tasks id).live = false) :
    id < s.taskCount ∧ (s.tasks id).live = false ∧ ∀ tag, (s₀.tasks id).pc = .cancelling tag →
      (s.tasks id).pc = .cancelling tag ∨
        Runs.Visits (step timing) s₀ es fun s => s.consumerRecoveryRequested = true := by
  induction h with
  | nil => exact ⟨hid, hdead, fun tag htag => .inl htag⟩
  | @snoc es e s s' hrun _ hstep ih =>
    obtain ⟨hid', hdead', hpending⟩ := ih
    obtain ⟨hle, hleft⟩ := (timers_step hstep).left hid' hdead'
    rcases hleft with hleft | ⟨he, hended⟩
    · refine ⟨hid'.trans_le hle, hleft.live hdead', fun tag htag => ?_⟩
      rcases hpending tag htag with hpc | hvisits
      · exact .inl (hleft.pc.trans hpc)
      · exact .inr (hvisits.append [e])
    · refine ⟨hid'.trans_le hle, ?_, fun tag htag => ?_⟩
      · rw [hended]
        rfl
      · refine .inr ?_
        rcases hpending tag htag with hpc | hvisits
        · rcases (turn_of_dead hstep he hdead').2 with ⟨_, hs'⟩ | ⟨hne, _⟩
          · have hasks : s'.consumerRecoveryRequested = true := by
              rw [hs']
              rfl
            exact (Runs.Run.snoc hrun trivial hstep).visits hasks
          · exact absurd hpc (hne tag)
        · exact hvisits.append [e]

/-- A record that is handled cancels every timer of its type that runs. -/
theorem dead_of_record {t : EntityType} {valid : Bool} (hlive : s.toTimers.StoresLive)
    (hrunning : s.shutdownRequested = false) (hstep : s.step timing (.deliver t (.record valid)) = some s')
    (hid : id < s.taskCount) (hkind : (s.tasks id).kind = .timer) (htype : (s.tasks id).dataType = t) :
    id < s'.taskCount ∧ (s'.tasks id).live = false ∧ (s'.tasks id).pc = (s.tasks id).pc := by
  obtain ⟨_, heq⟩ := Option.ite_none_right_eq_some.mp hstep
  have htimers : s'.toTimers = s.dropTimer t := by
    cases heq
    rw [handler, if_neg (by rw [hrunning]; exact Bool.false_ne_true), operation]
    dsimp only
    split <;> rfl
  rw [htimers]
  refine ⟨?_, hlive.not_live_dropTimer hkind htype, (Timers.left_dropTimer s.toTimers t id).pc⟩
  rw [Timers.taskCount_dropTimer]
  exact hid

/-- Once a record was handled, no timer of its type that was armed before takes the consumer
away or begins to close the transport. One whose cancel request is in flight asks for a
recovery in its last turn. -/
theorem record_stops_earlier_timers {timing : Timing} {now : Int} {es : List Event} {s s₁ : Lifecycle}
    {t : EntityType} {valid : Bool}
    (hrun : Runs.Run (step timing) (fun _ e => e ≠ .mainCancelled) { now := now } es s)
    (hrunning : s.shutdownRequested = false)
    (hrecord : s.step timing (.deliver t (.record valid)) = some s₁) {id : Nat} (hid : id < s.taskCount)
    (hkind : (s.tasks id).kind = .timer) (htype : (s.tasks id).dataType = t) {es' : List Event} {s₂ : Lifecycle}
    (hrun' : Runs.Run (step timing) (fun _ _ => True) s₁ es' s₂) :
    (∀ e s₃, e.task? = some id → s₂.step timing e = some s₃ → EndsIdly s₂ s₃ id) ∧
    ∀ tag, (s.tasks id).pc = .cancelling tag →
      Runs.Visits (step timing) s₁ es' (fun s => s.consumerRecoveryRequested = true) ∨
      (s₂.tasks id).pc = .cancelling tag ∧
        ∃ s₃, s₂.step timing (.taskInterrupted id) = some s₃ ∧ s₃.consumerRecoveryRequested = true := by
  obtain ⟨hid₁, hdead₁, hpc₁⟩ := dead_of_record (storesLive_of_run hrun hrunning) hrunning hrecord hid hkind htype
  obtain ⟨_, hdead, hpending⟩ := dead_of_run hrun' hid₁ hdead₁
  refine ⟨fun e s₃ he hstep => endsIdly_of_dead hstep he hdead, fun tag htag => ?_⟩
  rcases hpending tag (hpc₁.trans htag) with hpc | hvisits
  · refine .inr ⟨hpc, s₂.cancelFails id, ?_, rfl⟩
    have hcancelled : (s₂.tasks id).cancelled = true := by
      by_contra hnot
      have hlive := CancelTask.live_iff.mpr ⟨by rw [hpc]; exact nofun, Bool.not_eq_true _ ▸ hnot⟩
      cases hlive.symm.trans hdead
    rw [step, if_pos hcancelled, taskInterrupted, hpc]
  · exact .inl hvisits

/-- The artists complete, and their timer has sent its cancel request. -/
def cancelInFlight : List Event :=
  List.replicate 12 (.main .success) ++ [.deliver .artists .fileComplete, .tick 300, .taskWakes 0]

/-- The artists complete once more, which arms another timer, and it waits. -/
def completeAgain : List Event := [.tick 5, .deliver .artists .fileComplete, .tick 60]

theorem record_stops_earlier_timers_artists : ∃ s s₁ s₂ : Lifecycle,
    (s.tasks 0).pc = .cancelling (consumerTag .artists) ∧ s.step {} (.deliver .artists (.record true)) = some s₁ ∧
      Runs.Run (step {}) (fun _ _ => True) s₁ completeAgain s₂ ∧ (s₂.tasks 1).live = true ∧
      (∀ e s₃, e.task? = some 0 → s₂.step {} e = some s₃ → EndsIdly s₂ s₃ 0) ∧
      (Runs.Visits (step {}) s₁ completeAgain (fun s => s.consumerRecoveryRequested = true) ∨
        (s₂.tasks 0).pc = .cancelling (consumerTag .artists) ∧
          ∃ s₃, s₂.step {} (.taskInterrupted 0) = some s₃ ∧ s₃.consumerRecoveryRequested = true) := by
  obtain ⟨s, hrun, hrunning, hsubscribed, hid, hkind, htype, hpc, hlater⟩ : ∃ s,
      Runs.Run (Runs.guarded (step {}) fun _ e => e ≠ .mainCancelled) (fun _ _ => True) { now := 1 } cancelInFlight s ∧
      s.shutdownRequested = false ∧ s.subscribed .artists = true ∧ 0 < s.taskCount ∧
      (s.tasks 0).kind = .timer ∧ (s.tasks 0).dataType = .artists ∧
      (s.tasks 0).pc = .cancelling (consumerTag .artists) ∧
      (Runs.exec (step {}) (s.handler {} .artists (.record true)) completeAgain).any
        (fun s₂ => decide ((s₂.tasks 1).live = true)) = true :=
    Runs.exists_run (by decide +kernel)
  have hrecord : s.step {} (.deliver .artists (.record true)) = some (s.handler {} .artists (.record true)) :=
    if_pos hsubscribed
  obtain ⟨s₂, hrun', hlive⟩ := Runs.exists_run hlater
  obtain ⟨hidle, hpending⟩ := record_stops_earlier_timers (Runs.run_of_guarded hrun) hrunning hrecord hid hkind htype
    hrun'
  exact ⟨s, _, s₂, hpc, hrecord, hrun', hlive, hidle, hpending _ hpc⟩

end Lifecycle

end Brainzgraphinator
