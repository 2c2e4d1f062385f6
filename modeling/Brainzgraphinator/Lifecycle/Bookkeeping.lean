-- SUMMARY: The consumer bookkeeping agrees with itself in every state, but for two schedules.
import Brainzgraphinator.Lifecycle.Effects

/-!
# Consumer bookkeeping

The gauge, the two tables of tags, the handles and the stored timers agree (`Bookkeeping`)
as long as no registration arrives after its transport was closed under it, and
`cancel_all_consumers` clears no timer that still runs (`Tidy`). Both do happen.
-/

namespace Brainzgraphinator

namespace Transport

/-- The gauge counts the consumers, each of which is on record, and on a transport. -/
structure Booked (s : Transport) : Prop where
  active : s.consumersActive = s.consumerCount
  recorded : ∀ t r, s.consumerTags t = some r → s.connectionConsumerTags t = some r.tag
  transport : ∀ t, s.consumerTags t ≠ none → s.hasTransport = true

variable {s s' : Transport} {pc : ClosePc} {reply : Reply}

theorem consumerCount_update (tags : EntityType → Option Registration) (t : EntityType)
    (value : Option Registration) :
    musicbrainzDataTypes.countP (fun u => (Function.update tags t value u).isSome) + (tags t).isSome.toNat =
      musicbrainzDataTypes.countP (fun u => (tags u).isSome) + value.isSome.toNat := by
  have hne : ∀ u, u ≠ t → (Function.update tags t value u).isSome = (tags u).isSome :=
    fun u hu => by rw [Function.update_of_ne hu]
  have hcount : ∀ types : List EntityType, types.Nodup →
      types.countP (fun u => (Function.update tags t value u).isSome) +
          (if t ∈ types then (tags t).isSome.toNat else 0) =
        types.countP (fun u => (tags u).isSome) + (if t ∈ types then value.isSome.toNat else 0) := by
    intro types hnodup
    induction types with
    | nil => rfl
    | cons u types ih =>
      obtain ⟨hu, hnodup⟩ := List.nodup_cons.mp hnodup
      have ih' := ih hnodup
      rw [List.countP_cons, List.countP_cons]
      by_cases heq : u = t
      · subst heq
        rw [if_neg hu, if_neg hu] at ih'
        rw [if_pos List.mem_cons_self, if_pos List.mem_cons_self, Function.update_self]
        cases (tags u).isSome <;> cases value.isSome <;> simp <;> omega
      · have hmem : t ∈ u :: types ↔ t ∈ types := by
          rw [List.mem_cons]
          exact ⟨fun h => h.resolve_left fun h' => heq h'.symm, .inr⟩
        simp only [hmem, hne u heq]
        omega
  have hall := hcount musicbrainzDataTypes (by decide)
  rwa [if_pos (mem_musicbrainzDataTypes t), if_pos (mem_musicbrainzDataTypes t)] at hall

theorem Booked.forgetConnection (h : s.Booked)
    (hactive : s'.consumersActive = s.consumersActive) (htags : s'.consumerTags = s.consumerTags) :
    s'.forgetConnection.Booked := by
  refine ⟨?_, nofun, fun t ht => absurd rfl ht⟩
  have hzero : (0 : Int) = s'.forgetConnection.consumerCount := rfl
  rw [← hzero]
  have hcount : s'.consumerCount = s.consumerCount := by
    simp only [consumerCount, htags]
  have hall : s'.forgetConnection.consumersActive = s'.consumersActive - s'.consumerCount := rfl
  rw [hall, hcount, hactive, h.active, Int.sub_self]

theorem Booked.of_closes (h : s.Booked) (hcloses : Closes s pc reply s') : s'.forgetConnection.Booked := by
  cases hcloses with
  | connection c => exact h.forgetConnection rfl rfl
  | channel c _ => exact h.forgetConnection rfl rfl
  | noop c _ _ => exact h.forgetConnection rfl rfl

theorem Booked.registerConsumer (h : s.Booked) {t : EntityType} (ht : s.consumerTags t = none)
    (htransport : s.hasTransport = true) (now : Int) (q : Nat) : (s.registerConsumer now t q).Booked := by
  refine ⟨?_, fun u r hr => ?_, fun _ _ => htransport⟩
  · have hcount := consumerCount_update s.consumerTags t (some ⟨consumerTag t, q⟩)
    rw [ht] at hcount
    have hactive := h.active
    simp only [Transport.registerConsumer, consumerCount, Option.isSome_none, Option.isSome_some,
      Bool.toNat_false, Bool.toNat_true] at hcount hactive ⊢
    omega
  · by_cases hu : u = t
    · subst hu
      simp only [Transport.registerConsumer, Function.update_self, Option.some.injEq] at hr ⊢
      rw [← hr]
    · simp only [Transport.registerConsumer, Function.update_of_ne hu] at hr ⊢
      exact h.recorded u r hr

theorem Booked.forgetConsumer (h : s.Booked) (t : EntityType) (tag : String) :
    (s.forgetConsumer t tag).Booked := by
  rw [Transport.forgetConsumer]
  split
  · rename_i htag
    obtain ⟨r, hr, _⟩ := Option.map_eq_some_iff.mp htag
    refine ⟨?_, fun u r' hr' => ?_, fun u hu => ?_⟩
    · have hcount := consumerCount_update s.consumerTags t none
      rw [hr] at hcount
      have hactive := h.active
      simp only [consumerCount, Option.isSome_none, Option.isSome_some, Bool.toNat_false,
        Bool.toNat_true] at hcount hactive ⊢
      omega
    · exact h.recorded u r' (eq_some_of_update_none hr')
    · obtain ⟨r', hr'⟩ := Option.ne_none_iff_exists'.mp hu
      have hr'' : s.consumerTags u = some r' := eq_some_of_update_none hr'
      exact h.transport u (by rw [hr'']; rintro ⟨⟩)
  · exact h

end Transport

namespace Lifecycle

open Transport

variable {timing : Timing} {s s' : Lifecycle} {e : Event}

/-! ## When a step keeps the books -/

structure Bookkeeping (s : Lifecycle) : Prop where
  /-- The gauge is the number of consumers. -/
  active : s.consumersActive = s.consumerCount
  /-- Every consumer is on record for the connection, with the same tag. -/
  recorded : ∀ t r, s.consumerTags t = some r → s.connectionConsumerTags t = some r.tag
  /-- Consumers need a transport. -/
  transport : ∀ t, s.consumerTags t ≠ none → s.hasTransport = true
  /-- A timer that runs uncancelled is the one stored for its data type, so there is no other. -/
  timers : s.StoresLive

/-- A consumer is confirmed only while there is a transport, and no timer that still
runs uncancelled is cleared. -/
structure Tidy (s : Lifecycle) (e : Event) : Prop where
  consumes : ∀ t q, HearsConsume s e t q → s.hasTransport = true
  clears : Clears s e → ∀ t id, s.consumerCancelTasks t = some id → (s.tasks id).live = false

theorem Bookkeeping.booked (h : s.Bookkeeping) : s.toTransport.Booked := ⟨h.active, h.recorded, h.transport⟩

theorem booked_step (hphases : s.Phases) (h : s.toTransport.Booked) (htidy : s.Tidy e) {t : Transport}
    (hstep : TransportStep s e t) : t.Booked := by
  have hrequest : ∀ {t : Transport}, t.Booked → t.requestRecovery.Booked := fun h => ⟨h.active, h.recorded, h.transport⟩
  have hunused : s.hasTransport = false → ∀ t, s.consumerTags t = none := by
    intro hgone t
    by_contra ht
    rw [h.transport t ht] at hgone
    cases hgone
  cases hstep with
  | same => exact h
  | request => exact hrequest h
  | @cancel id q tag hpc hqueue =>
    have hconfirm : (s.confirmCancel q (s.tasks id).dataType).Booked := ⟨h.active, h.recorded, h.transport⟩
    exact hconfirm.forgetConsumer _ _
  | closeChannel _ hconn =>
    refine ⟨h.active, h.recorded, fun t _ => ?_⟩
    simp [hasTransport, hconn]
  | closed _ hcloses => exact h.of_closes hcloses
  | dropped _ _ _ hcloses =>
    have hclosed := h.of_closes hcloses
    exact ⟨hclosed.active, hclosed.recorded, hclosed.transport⟩
  | reset _ _ _ => exact ⟨h.active, h.recorded, h.transport⟩
  | connect _ _ => exact ⟨h.active, h.recorded, fun _ _ => rfl⟩
  | openChannel _ _ => exact ⟨h.active, h.recorded, fun _ _ => by simp [hasTransport]⟩
  | startWatch _ hpc =>
    have hopening : s.main.opening = true := by rw [hpc]; rfl
    exact ⟨h.active, fun t r hr => (by cases (hphases.opening hopening t).symm.trans hr), h.transport⟩
  | register hhears ht => exact h.registerConsumer ht (htidy.consumes _ _ hhears) _ _
  | adopt _ _ hgone =>
    exact ⟨h.active, fun t r hr => (by cases (hunused hgone t).symm.trans hr), fun _ _ => rfl⟩
  | adoptFailed _ _ => exact ⟨h.active, h.recorded, fun _ _ => rfl⟩
  | tempChannelClosed _ _ => exact ⟨h.active, h.recorded, h.transport⟩
  | tempConnectionClosed _ _ => exact ⟨h.active, h.recorded, h.transport⟩

theorem storesLive_clearedTimers (h : s.StoresLive)
    (hdone : ∀ t id, s.consumerCancelTasks t = some id → (s.tasks id).live = false) :
    s.clearedTimers.StoresLive := by
  rw [clearedTimers, shutdownCancels, List.foldl_map]
  refine List.foldlRecOn _ _ ?_ fun _ hs t _ => hs.createTask rfl
  intro id hk hl
  have hlive : (s.tasks id).live = true := hl
  rw [hdone _ id (h id hk hl)] at hlive
  cases hlive

/-- Before it stops, `main` clears nothing. -/
theorem Clears.not_live (h : Clears s e) (hmain : s.main.stopping = false) {t : EntityType} {id : Nat}
    (hid : s.consumerCancelTasks t = some id) : (s.tasks id).live = false := by
  cases h with
  | gathered hpc _ =>
    rw [hpc] at hmain
    cases hmain
  | noTimers hnone => cases (hnone t).symm.trans hid

theorem storesLive_step (h : s.StoresLive)
    (hclears : Clears s e → ∀ t id, s.consumerCancelTasks t = some id → (s.tasks id).live = false)
    {after : Transport} {t : Timers} (hstep : TimersStep s after e t) : t.StoresLive := by
  cases hstep with
  | same => exact h
  | setPc _ hlive _ _ => exact h.setPc hlive _
  | finish _ => exact h.finishTask _
  | drop => exact h.dropTimer _
  | schedule _ _ => exact h.schedule _ _
  | dropAll _ _ => exact h.dropTimers
  | cancels _ => exact List.foldlRecOn _ _ h fun _ hs id _ => hs.cancelTask id
  | clear _ hcleared => exact storesLive_clearedTimers h (hclears hcleared)

theorem Bookkeeping.step (hphases : s.Phases) (h : s.Bookkeeping) (htidy : s.Tidy e)
    (hstep : s.step timing e = some s') : s'.Bookkeeping := by
  have hbooked := booked_step hphases h.booked htidy (transport_step hphases hstep)
  exact ⟨hbooked.active, hbooked.recorded, hbooked.transport,
    storesLive_step h.timers htidy.clears (timers_step hstep)⟩

/-! ## The two schedules break them -/

/-- A consumer that is heard of is registered. -/
theorem HearsConsume.registers {t : EntityType} {q : Nat} (h : HearsConsume s e t q)
    (hstep : s.step timing e = some s') : s'.toTransport = s.registerConsumer s.now t q := by
  cases h with
  | main hpc =>
    rename_i rest
    have heq : s.mainSucceeds = some s' := hstep
    rw [mainSucceeds, hpc] at heq
    cases rest <;> cases heq <;> rfl
  | checker hpc =>
    obtain ⟨_, heq⟩ := Option.ite_none_left_eq_some.mp hstep
    have hsucceeds : s.checkerSucceeds _ = some s' := heq
    rw [checkerSucceeds, hpc] at hsucceeds
    cases hsucceeds
    rw [toTransport_consumeNext]
    rfl

theorem Clears.clearedTimers (h : Clears s e) (hstep : s.step timing e = some s') :
    s'.toTimers = s.clearedTimers ∨ ∀ t, s.consumerCancelTasks t = none := by
  cases h with
  | noTimers hnone => exact .inr hnone
  | gathered hpc hfinished =>
    have heq : s.mainSucceeds = some s' := hstep
    rw [mainSucceeds, hpc] at heq
    dsimp only at heq
    rw [if_pos hfinished] at heq
    cases heq
    exact .inl (toTimers_cancelAll _)

theorem consumerCancelTasks_clearedTimers (s : Lifecycle) (t : EntityType) :
    s.clearedTimers.consumerCancelTasks t = none := by
  have hcreate : ∀ (tasks : List CancelTask) (timers : Timers),
      (tasks.foldl Timers.createTask timers).consumerCancelTasks = timers.consumerCancelTasks := by
    intro tasks
    induction tasks with
    | nil => exact fun _ => rfl
    | cons task tasks ih =>
      intro timers
      exact ih _
  exact congrFun (hcreate s.shutdownCancels _) t

/-- The tasks created at shutdown have new numbers. -/
theorem tasks_clearedTimers {id : Nat} (hid : id < s.taskCount) : s.clearedTimers.tasks id = s.tasks id := by
  have hcreate : ∀ (tasks : List CancelTask) (timers : Timers), id < timers.taskCount →
      (tasks.foldl Timers.createTask timers).tasks id = timers.tasks id := by
    intro tasks
    induction tasks with
    | nil => exact fun _ _ => rfl
    | cons task tasks ih =>
      intro timers hlt
      rw [List.foldl_cons, ih _ (Nat.lt_succ_of_lt hlt), Timers.createTask_of_ne (Nat.ne_of_lt hlt)]
  exact hcreate s.shutdownCancels _ hid

theorem tidy_of_bookkeeping (hphases : s.Phases) (h : s'.Bookkeeping) (hstep : s.step timing e = some s') :
    s.Tidy e := by
  constructor
  · intro t q hhears
    have heq := hhears.registers hstep
    have htag : s'.consumerTags t ≠ none := by
      rw [heq]
      simp [Transport.registerConsumer]
    have htransport := h.transport t htag
    rw [heq] at htransport
    exact htransport
  · intro hclears t id hstored
    rcases hclears.clearedTimers hstep with heq | hnone
    · obtain ⟨hlt, hkind, _⟩ := hphases.timers.stored t id hstored
      have hsame : s'.tasks id = s.tasks id := by
        rw [heq, tasks_clearedTimers hlt]
      rw [Bool.eq_false_iff]
      intro hlive
      have hcleared := h.timers id (by rw [hsame]; exact hkind) (by rw [hsame]; exact hlive)
      rw [heq, consumerCancelTasks_clearedTimers] at hcleared
      cases hcleared
    · rw [hnone t] at hstored
      cases hstored

theorem bookkeeping_init (now : Int) : Bookkeeping { now := now } :=
  ⟨rfl, nofun, fun _ ht => absurd rfl ht, fun _ _ hlive => absurd rfl (CancelTask.live_iff.mp hlive).1⟩

theorem phases_of_run {ok : Lifecycle → Event → Prop} {now : Int} {es : List Event}
    (h : Runs.Run (step timing) ok { now := now } es s) : s.Phases :=
  h.invariant (phases_init now) fun hphases _ hstep => hphases.step hstep

/-- The books agree in every state of a run exactly when each of its steps is tidy. -/
theorem bookkeeping_iff_tidy (timing : Timing) (now : Int) (es : List Event) (s : Lifecycle) :
    (Runs.Run (step timing) (fun s _ => s.Bookkeeping) { now := now } es s ∧ s.Bookkeeping) ↔
      Runs.Run (step timing) Tidy { now := now } es s :=
  Runs.Run.always_iff (bookkeeping_init now) fun hrun h hstep =>
    ⟨fun h' => tidy_of_bookkeeping (phases_of_run hrun) h' hstep,
      fun htidy => h.step (phases_of_run hrun) htidy hstep⟩

/-! ## The two schedules -/

/-- `main` waits for the consumer of the releases while the other types complete: the
last timer closes the connection, and then the consumer is confirmed. -/
def lateConsume : List Event :=
  List.replicate 11 (.main .success) ++ musicbrainzDataTypes.map (.deliver · .fileComplete) ++
    [.tick 300] ++ [0, 1, 2].flatMap (fun id => [.taskWakes id, .task id .success]) ++
    [.task 2 .success, .task 2 .success, .main .success]

/-- While `cancel_all_consumers` waits for the timer of the artists, the labels complete. -/
def lateTimer : List Event :=
  List.replicate 12 (.main .success) ++ [.deliver .artists .fileComplete, .mainCancelled,
    .deliver .labels .fileComplete, .taskInterrupted 0, .main .success]

theorem bookkeeping_broken :
    (∃ s, Runs.Run (step {}) (fun _ _ => True) { now := 1 } lateConsume s ∧
      s.consumerTags .releases ≠ none ∧ s.hasTransport = false) ∧
    ∃ s, Runs.Run (step {}) (fun _ _ => True) { now := 1 } lateTimer s ∧
      (s.tasks 1).kind = .timer ∧ (s.tasks 1).live = true ∧
      s.consumerCancelTasks (s.tasks 1).dataType = none := by
  constructor
  · obtain ⟨s, hrun, hsee⟩ : ∃ s, Runs.Run (step {}) (fun _ _ => True) { now := 1 } lateConsume s ∧
        ((s.consumerTags .releases).isSome, s.hasTransport) = (true, false) :=
      Runs.exists_run_of_exec (by decide +kernel)
    obtain ⟨htag, hgone⟩ := Prod.mk.inj hsee
    refine ⟨s, hrun, fun hnone => ?_, hgone⟩
    rw [hnone] at htag
    cases htag
  · obtain ⟨s, hrun, hsee⟩ : ∃ s, Runs.Run (step {}) (fun _ _ => True) { now := 1 } lateTimer s ∧
        ((s.tasks 1).kind, (s.tasks 1).live, s.consumerCancelTasks (s.tasks 1).dataType) =
          (.timer, true, none) :=
      Runs.exists_run_of_exec (by decide +kernel)
    obtain ⟨hkind, hsee⟩ := Prod.mk.inj hsee
    obtain ⟨hlive, hstored⟩ := Prod.mk.inj hsee
    exact ⟨s, hrun, hkind, hlive, hstored⟩

end Lifecycle

end Brainzgraphinator
