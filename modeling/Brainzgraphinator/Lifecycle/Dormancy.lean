-- SUMMARY: When a service that has completed everything is at rest, and how it gets stuck instead.
import Brainzgraphinator.Lifecycle.Starvation

/-!
# Dormancy

Once every type is complete the service gives up its consumers and its connection, so that
the periodic check can look for new work. The timers see to that: a consumer of a complete
type has one (`Dormant.timed`), and the last one closes the connection (`Dormant.closes`).
Neither holds of a consumer that is registered without a timer, nor of a connection that
the last timer has left open (`Restful`).
-/

namespace Brainzgraphinator

namespace Lifecycle

open Transport

variable {timing : Timing} {s s' : Lifecycle} {e : Event} {id : Nat}

/-- The timer of `t` has yet to cancel its consumer. -/
def Pending (s : Lifecycle) (t : EntityType) : Prop :=
  ∃ id, s.consumerCancelTasks t = some id ∧ (s.tasks id).cancelled = false ∧
    ((s.tasks id).pc = .waiting ∨ ∃ tag, (s.tasks id).pc = .cancelling tag)

/-- A timer closes the connection. -/
def Closing (s : Lifecycle) (id : Nat) : Prop :=
  (s.tasks id).cancelled = false ∧ ∃ p, (s.tasks id).pc = .closing p

structure Restful (s : Lifecycle) (e : Event) : Prop extends Serving s e where
  /-- A consumer of a complete type is registered while its timer is pending, unless the
  recovery has found a backlog. -/
  registers : ∀ t q, HearsConsume s e t q → s.completedFiles t = true → s.consumerRecoveryRequested = false →
    s.Pending t ∨ ∃ c q rest pending, s.checker = .consuming c q t rest pending ∧ t ∈ pending
  /-- The last type is completed while a consumer is registered, or another timer closes. -/
  completes : ∀ t message, e = .deliver t message → message.terminal = true → s.hasTransport = true →
    (∀ u, s.consumerTags u = none) → (∀ u, u ≠ t → s.completedFiles u = true) → s.checker.idle = true →
    s.consumerRecoveryRequested = false → ∃ id, s.Closing id ∧ (s.tasks id).dataType ≠ t

structure Dormant (s : Lifecycle) : Prop where
  served : s.Served
  timers : ∀ id, (s.tasks id).kind = .timer
  tagged : ∀ t r, s.consumerTags t = some r → r.tag = consumerTag t
  cancelling : ∀ id tag, (s.tasks id).pc = .cancelling tag → tag = consumerTag (s.tasks id).dataType
  queues : s.consumerRecoveryRequested = false → ∀ t, s.consumerTags t ≠ none → s.queues t ≠ none
  consuming : ∀ c q t rest pending, s.checker = .consuming c q t rest pending → s.queues t ≠ none
  starting : ∀ c t rest, s.main = .consuming c t rest → ∀ u, s.queues u ≠ none
  timed : s.consumerRecoveryRequested = false → ∀ t, s.consumerTags t ≠ none → s.completedFiles t = true → s.Pending t
  closes : s.consumerRecoveryRequested = false → s.checker.idle = true → (∀ t, s.consumerTags t = none) →
    s.allCompleted = true → s.hasTransport = true → ∃ id, s.Closing id

theorem dormant_init (now : Int) : Dormant { now := now } where
  served := served_init now
  timers _ := rfl
  tagged := nofun
  cancelling := nofun
  queues _ _ ht := absurd rfl ht
  consuming := nofun
  starting := nofun
  timed _ _ ht := absurd rfl ht
  closes _ _ _ _ h := by cases h

/-! ## Timers -/

/-- Only tasks and deliveries do anything to the timers, but for a recovery that drops them. -/
theorem Dormant.timers_step (h : s.Dormant) (hserving : s.Serving e) (hstep : s.step timing e = some s')
    (htask : e.task? = none) (hdeliver : ∀ t message, e ≠ .deliver t message) :
    s'.toTimers = s.toTimers ∨ s'.hasTransport = false := by
  have htimers := Lifecycle.timers_step hstep
  have hstops := h.served.not_stops hserving
  generalize s'.toTimers = timers at htimers
  cases htimers with
  | same => exact .inl rfl
  | setPc he _ _ _ | finish he => cases htask.symm.trans he
  | drop | schedule _ _ => exact absurd rfl (hdeliver _ _)
  | dropAll _ hgone => exact .inr hgone
  | cancels h' | clear h' _ => exact absurd h' hstops

theorem Dormant.tasks_step (h : s.Dormant) (hserving : s.Serving e) (hstep : s.step timing e = some s') :
    ∀ id, (s'.tasks id).kind = .timer := by
  have htimers := Lifecycle.timers_step hstep
  have hstops := h.served.not_stops hserving
  have hstable : Timers.Stable fun task : CancelTask => task.kind = .timer := ⟨fun _ hk => hk, fun _ hk => hk⟩
  generalize s'.toTimers = timers at htimers
  cases htimers with
  | same => exact h.timers
  | @setPc _ id pc _ _ _ _ =>
    have htask : { s.tasks id with pc := pc }.kind = .timer := h.timers id
    exact Timers.forall_setTask (P := fun task => task.kind = .timer) h.timers htask
  | finish _ => exact hstable.finishTask h.timers _
  | drop => exact hstable.dropTimer h.timers _
  | schedule _ _ => exact Timers.forall_createTask (P := fun task => task.kind = .timer) (hstable.dropTimer h.timers _) rfl
  | dropAll _ _ => exact hstable.dropTimers h.timers
  | cancels h' | clear h' _ => exact absurd h' hstops

theorem Event.task?_of_checker (h : e.ofChecker = true) : e.task? = none := by
  cases e <;> first | rfl | cases h

/-- What a task does to another task's timer: nothing. -/
theorem tasks_of_ne (hstep : s.step timing e = some s') (he : e.task? = some id) {id' : Nat} (hne : id' ≠ id)
    (hstops : ¬s.Stops e) :
    s'.tasks id' = s.tasks id' ∧ ∀ t, s.consumerCancelTasks t = some id' → s'.consumerCancelTasks t = some id' := by
  have htimers := Lifecycle.timers_step hstep
  generalize s'.toTimers = timers at htimers ⊢
  cases htimers with
  | same => exact ⟨rfl, fun _ h => h⟩
  | @setPc _ id₁ pc he₁ _ _ _ =>
    have hid : id₁ = id := Option.some.inj (he₁.symm.trans he)
    subst hid
    exact ⟨Timers.setTask_of_ne hne _, fun _ h => h⟩
  | @finish _ id₁ he₁ =>
    have hid : id₁ = id := Option.some.inj (he₁.symm.trans he)
    subst hid
    refine ⟨Timers.setTask_of_ne hne _, fun t ht => ?_⟩
    rw [Timers.finishTask]
    dsimp only
    split
    · rename_i hstored
      by_cases htype : t = (s.tasks id₁).dataType
      · rw [htype, hstored] at ht
        exact absurd (Option.some.inj ht).symm hne
      · exact (Function.update_of_ne htype none s.consumerCancelTasks).trans ht
    · exact ht
  | drop | schedule _ _ => cases he
  | dropAll he' _ => cases (Event.task?_of_checker he').symm.trans he
  | cancels h' | clear h' _ => exact absurd h' hstops

theorem Pending.of_timers {t : EntityType} (h : s.Pending t)
    (heq : ∀ id, s.consumerCancelTasks t = some id → s'.consumerCancelTasks t = some id ∧ s'.tasks id = s.tasks id) :
    s'.Pending t := by
  obtain ⟨id, hstored, hlive⟩ := h
  obtain ⟨hstored', htask⟩ := heq id hstored
  refine ⟨id, hstored', ?_⟩
  rw [htask]
  exact hlive

theorem onlyTasks_step (hstep : s.step timing e = some s') (he : e.task? = some id) : s.OnlyTasks s' := by
  cases e with
  | taskWakes id =>
    obtain ⟨_, heq⟩ := Option.ite_none_right_eq_some.mp hstep
    cases heq
    exact onlyTasks_taskWakes s id
  | task id reply =>
    obtain ⟨_, heq⟩ := Option.ite_none_left_eq_some.mp hstep
    exact onlyTasks_taskReplied heq
  | taskInterrupted id =>
    obtain ⟨_, heq⟩ := Option.ite_none_right_eq_some.mp hstep
    exact onlyTasks_taskInterrupted heq
  | tick | shutdown | main | mainCancelled | checkerWakes | checker | checkerInterrupted | deliver | settled => cases he

/-- Nobody but the checker clears the flag. -/
theorem Dormant.unrequested (h : s.Dormant) (hstep : s.step timing e = some s') (he : e.ofChecker = false)
    (hclear : s'.consumerRecoveryRequested = false) : s.consumerRecoveryRequested = false := by
  rw [Bool.eq_false_iff]
  intro hset
  rcases (transport_step h.served.phases hstep).clears hset with hset' | ⟨he', _⟩
  · cases hclear.symm.trans hset'
  · cases he.symm.trans he'

/-- A consumer was there before, with no recovery asked for, or is the one that is heard of. -/
theorem Dormant.consumer_step (h : s.Dormant) (hserved' : s'.Served) (hstep : s.step timing e = some s')
    (hclear : s'.consumerRecoveryRequested = false) {t : EntityType} (ht : s'.consumerTags t ≠ none) :
    s.consumerRecoveryRequested = false ∧ (s'.consumerTags t = s.consumerTags t ∨
      ∃ q, HearsConsume s e t q ∧ s'.toTransport = s.registerConsumer s.now t q) := by
  have htransport := transport_step h.served.phases hstep
  refine ⟨?_, htransport.registered ht⟩
  rw [Bool.eq_false_iff]
  intro hset
  rcases htransport.clears hset with hset' | ⟨_, _, hgone, _⟩
  · cases hclear.symm.trans hset'
  · exact ht (hserved'.noConsumers hgone t)

/-! ## Queues -/

theorem Dormant.consumer_queue (h : s.Dormant) (hserved' : s'.Served) (hstep : s.step timing e = some s')
    (hclear : s'.consumerRecoveryRequested = false) {t : EntityType} (ht : s'.consumerTags t ≠ none) :
    s.queues t ≠ none := by
  obtain ⟨hset, hold | ⟨q, hhears, _⟩⟩ := h.consumer_step hserved' hstep hclear ht
  · rw [hold] at ht
    exact h.queues hset t ht
  · cases hhears with
    | main hpc => exact h.starting _ _ _ hpc t
    | checker hpc => exact h.consuming _ _ _ _ _ hpc

theorem queues_ne_none (hstep : TablesStep s s' e) {t : EntityType} (hqueue : s.queues t ≠ none)
    (hmain : ∀ c, s.main ≠ .settingQos c) (hchecker : ∀ c pending, s.checker ≠ .settingQos c pending)
    (he : e.ofChecker = true → s'.consumerRecoveryRequested = false) : s'.queues t ≠ none := by
  cases hstep with
  | same hkeeps | tick hkeeps | shutdown hkeeps | completes _ hkeeps | uncompletes hkeeps | recovers _ hkeeps =>
    rw [hkeeps.queues]
    exact hqueue
  | @settles _ outcome _ hkeeps =>
    rw [hkeeps.queues]
    cases outcome <;> exact hqueue
  | forgets _ hwhy =>
    rcases hwhy with ⟨c, hpc⟩ | ⟨c, pending, hpc⟩ | ⟨he', hset⟩
    · exact absurd hpc (hmain c)
    · exact absurd hpc (hchecker c pending)
    · cases (he he').symm.trans hset
  | @declares _ q u hkeeps _ =>
    rw [hkeeps.queues]
    by_cases hu : t = u
    · subst hu
      simp
    · exact fun hnone => hqueue ((Function.update_of_ne hu _ s.queues).symm.trans hnone)

theorem Dormant.queues_step (h : s.Dormant) (hserved' : s'.Served) (hstep : s.step timing e = some s')
    (hclear : s'.consumerRecoveryRequested = false) {t : EntityType} (ht : s'.consumerTags t ≠ none) :
    s'.queues t ≠ none := by
  obtain ⟨hset, hwhy⟩ := h.consumer_step hserved' hstep hclear ht
  refine queues_ne_none (turn_step hstep).tables (h.consumer_queue hserved' hstep hclear ht) ?_ ?_ fun _ => hclear
  · intro c hpc
    rcases hwhy with hold | ⟨q, hhears, _⟩
    · rw [hold] at ht
      exact ht (h.served.phases.opening (by rw [hpc]; rfl) t)
    · cases hhears with
      | main hpc' => cases hpc.symm.trans hpc'
      | checker hpc' => cases (h.served.phases.startup (by rw [hpc]; rfl)).symm.trans hpc'
  · intro c pending hpc
    rcases hwhy with hold | ⟨q, hhears, _⟩
    · rw [hold] at ht
      exact ht (h.served.bare (by rw [hpc]; rfl) t)
    · have hbare := (h.served.hearsConsume hhears).1
      rw [hpc] at hbare
      cases hbare

theorem Dormant.starting_step (h : s.Dormant) (hstep : s.step timing e = some s') {c : Nat} {t : EntityType}
    {rest : List EntityType} (hpc : s'.main = .consuming c t rest) (u : EntityType) : s'.queues u ≠ none := by
  have hmain := (turn_step hstep).main
  rw [hpc] at hmain
  have hkept : ∀ {c t rest}, s.main = .consuming c t rest → s'.queues u ≠ none := by
    intro c t rest hold
    have habsent : s.checker = .absent := h.served.phases.startup (by rw [hold]; rfl)
    refine queues_ne_none (turn_step hstep).tables (h.starting _ _ _ hold u) ?_ ?_ ?_
    · exact fun c' hpc' => by cases hold.symm.trans hpc'
    · exact fun c' pending hpc' => by cases habsent.symm.trans hpc'
    · exact fun he => absurd habsent (checker_ne_absent hstep he)
  rcases hmain.consuming with ⟨v, hold, _, hqueues⟩ | ⟨v, rest', hold, _⟩ | hold
  · rw [hqueues]
    by_cases hu : u = v
    · subst hu
      simp
    · have hdeclared := (h.served.opening (by rw [hold]; rfl)).declared _ _ _ hold u fun hmem =>
        hu (List.mem_singleton.mp hmem)
      exact fun hnone => hdeclared ((Function.update_of_ne hu _ s.queues).symm.trans hnone)
  · exact hkept hold
  · exact hkept hold

theorem CheckerStep.consuming {c q : Nat} {t : EntityType} {rest pending : List EntityType}
    (h : CheckerStep s s' e (.consuming c q t rest pending)) :
    e.ofChecker = false ∧ s.checker = .consuming c q t rest pending ∨ s'.queues t = some q := by
  generalize hpc : CheckerPc.consuming c q t rest pending = pc at h
  cases h with
  | same he => exact .inl ⟨he, rfl⟩
  | consumes _ hqueue _ _ => cases hpc; exact .inr hqueue
  | opens _ hunplugged => rw [← hpc] at hunplugged; cases hunplugged
  | starts _ | interrupted _ | drops _ _ _ _ | reconnects _ _ _ | adopts _ _ | declares _ _ _ | fails _ _ _
  | failsOn _ _ => cases hpc
  | stays _ hidle _ | covered _ hidle _ | recovered _ hidle _ | failed _ hidle | closes _ hidle | requests _ hidle _ =>
    rw [← hpc] at hidle
    cases hidle

theorem Dormant.consuming_step (h : s.Dormant) (hstep : s.step timing e = some s') {c q : Nat} {t : EntityType}
    {rest pending : List EntityType} (hpc : s'.checker = .consuming c q t rest pending) : s'.queues t ≠ none := by
  have hchecker := (turn_step hstep).checker
  rw [hpc] at hchecker
  rcases hchecker.consuming with ⟨he, hold⟩ | hqueue
  · refine queues_ne_none (turn_step hstep).tables (h.consuming _ _ _ _ _ hold) ?_ ?_ ?_
    · intro c' hpc'
      cases (h.served.phases.startup (by rw [hpc']; rfl)).symm.trans hold
    · exact fun c' pending' hpc' => by cases hold.symm.trans hpc'
    · exact fun he' => by cases he.symm.trans he'
  · rw [hqueue]
    exact nofun

/-! ## Tags -/

theorem Dormant.tagged_step (h : s.Dormant) (hstep : s.step timing e = some s') {t : EntityType} {r : Registration}
    (hr : s'.consumerTags t = some r) : r.tag = consumerTag t := by
  rcases (transport_step h.served.phases hstep).registered (by rw [hr]; exact nofun) with hold | ⟨q, _, heq⟩
  · exact h.tagged t r (hold ▸ hr)
  · rw [heq, registerConsumer] at hr
    simp only [Function.update_self, Option.some.injEq] at hr
    rw [← hr]

theorem Dormant.cancelling_step (h : s.Dormant) (hserving : s.Serving e) (hstep : s.step timing e = some s') :
    ∀ id tag, (s'.tasks id).pc = .cancelling tag → tag = consumerTag (s'.tasks id).dataType := by
  have htimers := Lifecycle.timers_step hstep
  have hstops := h.served.not_stops hserving
  have hstable : Timers.Stable fun task : CancelTask =>
      ∀ tag, task.pc = .cancelling tag → tag = consumerTag task.dataType :=
    ⟨fun _ htask => htask, fun _ _ => nofun⟩
  generalize s'.toTimers = timers at htimers
  cases htimers with
  | same => exact h.cancelling
  | @setPc _ id pc _ _ hwhy _ =>
    have htask : ∀ tag, pc = .cancelling tag → tag = consumerTag (s.tasks id).dataType := by
      intro tag hpc
      obtain ⟨r, hr, htag⟩ := Option.map_eq_some_iff.mp (hwhy tag hpc (h.timers id))
      rw [← htag]
      exact h.tagged _ r hr
    exact Timers.forall_setTask (P := fun task => ∀ tag, task.pc = .cancelling tag → tag = consumerTag task.dataType)
      h.cancelling htask
  | finish _ => exact hstable.finishTask h.cancelling _
  | drop => exact hstable.dropTimer h.cancelling _
  | schedule _ _ =>
    exact Timers.forall_createTask (P := fun task => ∀ tag, task.pc = .cancelling tag → tag = consumerTag task.dataType)
      (hstable.dropTimer h.cancelling _) nofun
  | dropAll _ _ => exact hstable.dropTimers h.cancelling
  | cancels h' | clear h' _ => exact absurd h' hstops

/-- Only a delivery of its own completes a type. -/
theorem TablesStep.completed (h : TablesStep s s' e) {t : EntityType} (hcompleted : s'.completedFiles t = true)
    (hne : ∀ message, e ≠ .deliver t message) : s.completedFiles t = true := by
  cases h with
  | same hkeeps | tick hkeeps | shutdown hkeeps | forgets hkeeps _ | declares hkeeps _ =>
    rw [hkeeps.completedFiles] at hcompleted
    exact hcompleted
  | @completes u message _ hkeeps =>
    have htu : t ≠ u := by
      rintro rfl
      exact hne message rfl
    rw [hkeeps.completedFiles, complete] at hcompleted
    exact (Function.update_of_ne htu true s.completedFiles).symm.trans hcompleted
  | @uncompletes u valid hkeeps =>
    have htu : t ≠ u := by
      rintro rfl
      exact hne _ rfl
    rw [hkeeps.completedFiles, uncomplete] at hcompleted
    exact (Function.update_of_ne htu false s.completedFiles).symm.trans hcompleted
  | @recovers c q count u rest pending _ hkeeps =>
    rw [hkeeps.completedFiles, consumerRecovered] at hcompleted
    dsimp only at hcompleted
    split at hcompleted
    · by_cases htu : t = u
      · rw [htu, Function.update_self] at hcompleted
        cases hcompleted
      · exact (Function.update_of_ne htu false s.completedFiles).symm.trans hcompleted
    · exact hcompleted
  | @settles _ outcome _ hkeeps =>
    rw [hkeeps.completedFiles] at hcompleted
    cases outcome <;> exact hcompleted

/-! ## Consumers of complete types have a timer -/

theorem forgetConsumer_self {s : Transport} {t : EntityType} {r : Registration} (hr : s.consumerTags t = some r) :
    (s.forgetConsumer t r.tag).consumerTags t = none := by
  rw [forgetConsumer, if_pos (by rw [hr]; rfl)]
  exact Function.update_self t none s.consumerTags

/-- The stored timer goes on to cancel its consumer, and fails only with a request for recovery. -/
theorem Dormant.pending_of_task (h : s.Dormant) (hstep : s.step timing e = some s') (he : e.task? = some id)
    (hclear : s'.consumerRecoveryRequested = false) {t : EntityType} (ht : s'.consumerTags t ≠ none)
    (htag : s.consumerTags t ≠ none) (hstored : s.consumerCancelTasks t = some id)
    (hlive : (s.tasks id).cancelled = false)
    (hpc : (s.tasks id).pc = .waiting ∨ ∃ tag, (s.tasks id).pc = .cancelling tag) : s'.Pending t := by
  obtain ⟨_, hkind, htype⟩ := h.served.phases.timers.stored t id hstored
  obtain ⟨r, hr⟩ := Option.ne_none_iff_exists'.mp htag
  have hset : ∀ {s₁ : Lifecycle}, s' = s₁ → s₁.consumerRecoveryRequested = true → False := by
    rintro s₁ rfl hset
    cases hclear.symm.trans hset
  cases e with
  | taskWakes id' =>
    cases he
    obtain ⟨_, heq⟩ := Option.ite_none_right_eq_some.mp hstep
    rw [taskWakes, hkind] at heq
    simp only [htype, hr, cancelConsumer] at heq
    cases hqueue : (s.tasks id).queue with
    | none =>
      rw [hqueue] at heq
      exact (hset (Option.some.inj heq).symm rfl).elim
    | some q =>
      rw [hqueue] at heq
      cases heq
      exact ⟨id, hstored, by simp [Timers.setPc, hlive], .inr ⟨r.tag, by simp [Timers.setPc]⟩⟩
  | task id' reply =>
    cases he
    obtain ⟨_, heq⟩ := Option.ite_none_left_eq_some.mp hstep
    rcases hpc with hpc | ⟨tag, hpc⟩
    · simp only [taskReplied, hpc] at heq
      cases heq
    · cases hqueue : (s.tasks id).queue with
      | none =>
        simp only [taskReplied, hpc, hqueue] at heq
        cases heq
      | some q =>
        simp only [taskReplied, hpc, hqueue] at heq
        cases reply with
        | failure | timedOut => exact (hset (Option.some.inj heq).symm rfl).elim
        | success =>
          cases heq
          have hsame : tag = r.tag := by
            rw [h.cancelling id tag hpc, htype, h.tagged t r hr]
          rw [toTransport_cancelSucceeds, htype, hsame] at ht
          exact absurd (forgetConsumer_self (s := s.confirmCancel q t) hr) ht
  | taskInterrupted id' =>
    cases he
    obtain ⟨hcancelled, _⟩ := Option.ite_none_right_eq_some.mp hstep
    cases hlive.symm.trans hcancelled
  | tick | shutdown | main | mainCancelled | checkerWakes | checker | checkerInterrupted | deliver | settled => cases he

theorem Event.ofChecker_of_task? (he : e.task? = some id) : e.ofChecker = false := by
  cases e <;> first | rfl | cases he

theorem hearsConsume_task? {t : EntityType} {q : Nat} (h : HearsConsume s e t q) : e.task? = none := by
  cases h <;> rfl

theorem Dormant.timed_of_task (h : s.Dormant) (hserving : s.Serving e) (hstep : s.step timing e = some s')
    (he : e.task? = some id) (hclear : s'.consumerRecoveryRequested = false) {t : EntityType}
    (ht : s'.consumerTags t ≠ none) (hcompleted : s'.completedFiles t = true) : s'.Pending t := by
  have hset := h.unrequested hstep (Event.ofChecker_of_task? he) hclear
  have htag : s.consumerTags t ≠ none := by
    rcases (transport_step h.served.phases hstep).registered ht with hold | ⟨q, hhears, _⟩
    · exact hold ▸ ht
    · cases (hearsConsume_task? hhears).symm.trans he
  have hcompleted' : s.completedFiles t = true := by
    obtain ⟨transport, timers, heq⟩ := onlyTasks_step hstep he
    rw [heq] at hcompleted
    exact hcompleted
  obtain ⟨id', hstored, hlive, hpc⟩ := h.timed hset t htag hcompleted'
  by_cases hid : id' = id
  · subst hid
    exact h.pending_of_task hstep he hclear ht htag hstored hlive hpc
  · obtain ⟨htask, hkept⟩ := tasks_of_ne hstep he hid (h.served.not_stops hserving)
    refine ⟨id', hkept t hstored, ?_⟩
    rw [htask]
    exact ⟨hlive, hpc⟩

/-- Deliveries of other types leave a timer alone. -/
theorem Dormant.pending_of_deliver (h : s.Dormant) (hserving : s.Serving e) (hstep : s.step timing e = some s')
    {u : EntityType} {message : Message} (he : e = .deliver u message) {t : EntityType} (hne : t ≠ u)
    (hpending : s.Pending t) : s'.Pending t := by
  have htimers := Lifecycle.timers_step hstep
  have hstops := h.served.not_stops hserving
  subst he
  have hother : ∀ id, s.consumerCancelTasks t = some id → (s.tasks id).dataType ≠ u := by
    intro id hid
    rw [(h.served.phases.timers.stored t id hid).2.2]
    exact hne
  refine hpending.of_timers fun id hid => ?_
  generalize s'.toTimers = timers at htimers ⊢
  cases htimers with
  | same => exact ⟨hid, rfl⟩
  | setPc he _ _ _ | finish he => cases he
  | drop =>
    exact ⟨(Timers.dropTimer_stored_of_ne _ hne).trans hid,
      h.served.phases.timers.dropTimer_of_ne (hother id hid)⟩
  | schedule _ _ =>
    exact ⟨(Timers.schedule_stored_of_ne _ hne _).trans hid,
      h.served.phases.timers.schedule_of_ne (h.served.phases.timers.stored t id hid).1 (hother id hid) _⟩
  | dropAll he _ => cases he
  | cancels h' | clear h' _ => exact absurd h' hstops

theorem pending_schedule (s : Lifecycle) (t : EntityType) (queue : Nat) :
    Pending { s with toTimers := s.scheduleConsumerCancellation t queue } t := by
  refine ⟨(s.dropTimer t).taskCount, ?_, ?_, .inl ?_⟩ <;> simp [Timers.scheduleConsumerCancellation]

theorem Dormant.timed_of_deliver (h : s.Dormant) (hdelay : 0 < timing.consumerCancelDelay) (hserving : s.Serving e)
    (hstep : s.step timing e = some s') {u : EntityType} {message : Message} (he : e = .deliver u message)
    (hclear : s'.consumerRecoveryRequested = false) {t : EntityType} (ht : s'.consumerTags t ≠ none)
    (hcompleted : s'.completedFiles t = true) : s'.Pending t := by
  have hpending := h.pending_of_deliver hserving hstep he (t := t)
  subst he
  obtain ⟨_, heq⟩ := Option.ite_none_right_eq_some.mp hstep
  cases heq
  rw [toTransport_handler] at ht hclear
  by_cases htu : t = u
  · subst htu
    obtain ⟨queue, hqueue⟩ := Option.ne_none_iff_exists'.mp (h.queues hclear t ht)
    rw [handler, if_neg (by rw [h.served.shutdownRequested]; rintro ⟨⟩)] at hcompleted ⊢
    cases message with
    | fileComplete =>
      simp only [operation, scheduleIfEnabled, hqueue, if_pos hdelay]
      exact pending_schedule s t queue
    | extractionComplete =>
      have hqueue' : (s.complete t).queues t = some queue := hqueue
      simp only [operation, scheduleIfEnabled, hqueue', if_pos hdelay]
      exact pending_schedule s t queue
    | record valid =>
      have hfalse : (s.operation timing t (.record valid)).completedFiles t = false := by
        rw [operation]
        dsimp only
        split <;> exact Function.update_self t false s.completedFiles
      cases hfalse.symm.trans hcompleted
    | unreadable => exact h.timed hclear t ht hcompleted
  · refine hpending htu (h.timed hclear t ht ((turn_step hstep).tables.completed hcompleted fun m heq => ?_))
    cases heq
    exact htu rfl

/-- A recovered consumer of a type with a backlog is one of an incomplete type. -/
theorem completedFiles_recovered {c q count : Nat} {t : EntityType} {rest pending : List EntityType}
    (hpc : s.checker = .consuming c q t rest pending) (hstep : s.step timing (.checker .success count) = some s')
    (ht : t ∈ pending) : s'.completedFiles t = false := by
  obtain ⟨_, heq⟩ := Option.ite_none_left_eq_some.mp hstep
  have hsucceeds : s.checkerSucceeds count = some s' := heq
  rw [checkerSucceeds, hpc] at hsucceeds
  cases hsucceeds
  have hfalse : (s.consumerRecovered q t pending).completedFiles t = false := by
    rw [consumerRecovered]
    dsimp only
    rw [if_pos ht]
    exact Function.update_self t false s.completedFiles
  rcases consumeNext_cases (s.consumerRecovered q t pending) c pending rest with heq' | ⟨_, _, _, _, _, _, heq'⟩
  · rw [heq']
    exact hfalse
  · rw [heq']
    exact hfalse

theorem Dormant.timed_step (h : s.Dormant) (hdelay : 0 < timing.consumerCancelDelay) (hok : s.Restful e)
    (hserved' : s'.Served) (hstep : s.step timing e = some s') (hclear : s'.consumerRecoveryRequested = false)
    {t : EntityType} (ht : s'.consumerTags t ≠ none) (hcompleted : s'.completedFiles t = true) : s'.Pending t := by
  by_cases hdeliver : ∃ u message, e = .deliver u message
  · obtain ⟨u, message, he⟩ := hdeliver
    exact h.timed_of_deliver hdelay hok.toServing hstep he hclear ht hcompleted
  · cases htask : e.task? with
    | some id => exact h.timed_of_task hok.toServing hstep htask hclear ht hcompleted
    | none =>
      have hcompleted' : s.completedFiles t = true :=
        (turn_step hstep).tables.completed hcompleted fun message he => hdeliver ⟨t, message, he⟩
      obtain ⟨hset, hwhy⟩ := h.consumer_step hserved' hstep hclear ht
      have hpending : s.Pending t := by
        rcases hwhy with hold | ⟨q, hhears, _⟩
        · exact h.timed hset t (hold ▸ ht) hcompleted'
        · rcases hok.registers t q hhears hcompleted' hset with hpending | ⟨c, q', rest, pending, hpc, hmem⟩
          · exact hpending
          · cases hhears with
            | main hpc' => cases (h.served.phases.startup (by rw [hpc']; rfl)).symm.trans hpc
            | checker hpc' => cases (completedFiles_recovered hpc hstep hmem).symm.trans hcompleted
      rcases h.timers_step hok.toServing hstep htask fun u message he => hdeliver ⟨u, message, he⟩ with heq | hgone
      · exact hpending.of_timers fun id hid => by rw [heq]; exact ⟨hid, rfl⟩
      · exact absurd (hserved'.noConsumers hgone t) ht

/-! ## The last timer closes the connection -/

theorem closing_of_taskReplied {reply : Reply} (hstep : s.taskReplied id reply = some s')
    (hkind : (s.tasks id).kind = .timer) (hlive : (s.tasks id).cancelled = false)
    (hclear : s'.consumerRecoveryRequested = false) (hnone : ∀ t, s'.consumerTags t = none)
    (hall : s'.allCompleted = true) (htransport : s'.hasTransport = true) : s'.Closing id := by
  have hcloses : ∀ (transport : Transport) (next : Option ClosePc),
      (next = none → transport.hasTransport = true → transport.consumerRecoveryRequested = false → False) →
      s' = { s with toTransport := transport }.taskCloses id next → s'.Closing id := by
    rintro transport next hgone rfl
    cases next with
    | none => exact (hgone rfl htransport hclear).elim
    | some p => exact ⟨by simp [taskCloses, Timers.setPc, hlive], p, by simp [taskCloses, Timers.setPc]⟩
  rw [taskReplied] at hstep
  split at hstep
  · rename_i tag q hpc hqueue
    cases reply with
    | failure | timedOut => cases hstep; cases hclear
    | success =>
      have heq : s.cancelSucceeds id q tag = s' := Option.some.inj hstep
      rw [cancelSucceeds, hkind] at heq
      dsimp only at heq
      split at heq
      · exact hcloses _ _ (fun hnext hthere _ => by
          cases (closeRabbitmqConnection_eq_none.mp hnext).symm.trans hthere) heq.symm
      · rename_i hbusy
        subst heq
        refine absurd ?_ hbusy
        rw [checkAllConsumersIdle, Bool.and_eq_true, noConsumers_iff]
        exact ⟨hnone, hall⟩
  · rename_i p hpc
    refine hcloses _ _ (fun hnext hthere hclear' => ?_) (Option.some.inj hstep).symm
    rcases closeReplied_cases s.toTransport p reply with
      ⟨c, c₀, _, _, ⟨_, heq⟩ | ⟨_, heq⟩⟩ | heq | ⟨t, hcl, heq⟩
    · rw [heq] at hnext
      cases hnext
    · rw [heq] at hnext
      cases hnext
    · rw [heq] at hclear'
      cases hclear'
    · rw [heq] at hthere
      have hgone : t.forgetConnection.hasTransport = false := hcl.hasTransport
      cases hgone.symm.trans hthere
  · cases hstep

/-- A task that wakes or is interrupted hears nothing from the broker. -/
theorem TransportStep.of_unheard {t : Transport} (h : TransportStep s e t)
    (he : e = .taskWakes id ∨ e = .taskInterrupted id) : t = s.toTransport ∨ t = s.requestRecovery := by
  cases h with
  | same => exact .inl rfl
  | request => exact .inr rfl
  | closeChannel hhears _ | closed hhears _ | dropped hhears _ _ _ =>
    rcases he with rfl | rfl <;> cases hhears
  | register hhears _ => rcases he with rfl | rfl <;> cases hhears
  | cancel _ _ => rcases he with he | he <;> cases he
  | reset he' _ _ | adopt he' _ _ | adoptFailed he' _ | tempChannelClosed he' _ | tempConnectionClosed he' _
  | connect he' _ | openChannel he' _ | startWatch he' _ => rcases he with rfl | rfl <;> cases he'

theorem Dormant.closes_of_task (h : s.Dormant) (hserving : s.Serving e) (hstep : s.step timing e = some s')
    (he : e.task? = some id) (hclear : s'.consumerRecoveryRequested = false) (hidle : s'.checker.idle = true)
    (hnone : ∀ t, s'.consumerTags t = none) (hall : s'.allCompleted = true) (htransport : s'.hasTransport = true) :
    ∃ id, s'.Closing id := by
  have hset := h.unrequested hstep (Event.ofChecker_of_task? he) hclear
  have hold : s'.toTransport = s.toTransport → ∃ id', s.Closing id' := by
    intro hsame
    obtain ⟨transport, timers, heq⟩ := onlyTasks_step hstep he
    rw [heq] at hidle hall
    rw [hsame] at hnone htransport
    exact h.closes hset hidle hnone hall htransport
  have hkept : ∀ id', s.Closing id' → id' ≠ id → ∃ id, s'.Closing id := by
    intro id' hclosing hne
    refine ⟨id', ?_⟩
    rw [Closing, (tasks_of_ne hstep he hne (h.served.not_stops hserving)).1]
    exact hclosing
  have hunheard : (e = .taskWakes id ∨ e = .taskInterrupted id) →
      s'.toTransport = s.toTransport ∨ s'.toTransport = s.requestRecovery :=
    (transport_step h.served.phases hstep).of_unheard
  have hrequest : s'.toTransport ≠ s.requestRecovery := by
    intro heq
    rw [heq] at hclear
    cases hclear
  cases e with
  | task id' reply =>
    cases he
    obtain ⟨hlive, heq⟩ := Option.ite_none_left_eq_some.mp hstep
    exact ⟨id, closing_of_taskReplied heq (h.timers id) (Bool.not_eq_true _ ▸ hlive) hclear hnone hall htransport⟩
  | taskWakes id' =>
    cases he
    obtain ⟨⟨hwaiting, _⟩, _⟩ := Option.ite_none_right_eq_some.mp hstep
    obtain ⟨id', hclosing⟩ := hold ((hunheard (.inl rfl)).resolve_right hrequest)
    refine hkept id' hclosing fun heq => ?_
    obtain ⟨_, p, hpc⟩ := hclosing
    rw [heq] at hpc
    cases hwaiting.symm.trans hpc
  | taskInterrupted id' =>
    cases he
    obtain ⟨hcancelled, _⟩ := Option.ite_none_right_eq_some.mp hstep
    obtain ⟨id', hclosing⟩ := hold ((hunheard (.inr rfl)).resolve_right hrequest)
    refine hkept id' hclosing fun heq => ?_
    have hlive := hclosing.1
    rw [heq] at hlive
    cases hlive.symm.trans hcancelled
  | tick | shutdown | main | mainCancelled | checkerWakes | checker | checkerInterrupted | deliver | settled => cases he

theorem checker_handler (s : Lifecycle) (t : EntityType) (message : Message) :
    (s.handler timing t message).checker = s.checker := by
  have hschedule : ∀ s : Lifecycle, (s.scheduleIfEnabled timing t).checker = s.checker := by
    intro s
    obtain ⟨transport, timers, heq⟩ := onlyTasks_scheduleIfEnabled s t
    rw [heq]
  rw [handler]
  split
  · rfl
  · cases message with
    | fileComplete => exact hschedule s
    | extractionComplete => exact hschedule (s.complete t)
    | record valid =>
      rw [operation]
      dsimp only
      split <;> rfl
    | unreadable => rfl

theorem Dormant.closes_of_deliver (h : s.Dormant) (hok : s.Restful e) (hstep : s.step timing e = some s')
    {u : EntityType} {message : Message} (he : e = .deliver u message)
    (hclear : s'.consumerRecoveryRequested = false) (hidle : s'.checker.idle = true)
    (hnone : ∀ t, s'.consumerTags t = none) (hall : s'.allCompleted = true) (htransport : s'.hasTransport = true) :
    ∃ id, s'.Closing id := by
  have htimers := Lifecycle.timers_step hstep
  have hturn := turn_step hstep
  have hstops := h.served.not_stops hok.toServing
  have hcompletes := hok.completes u message he
  subst he
  have hsame : s'.toTransport = s.toTransport ∧ s'.checker = s.checker := by
    obtain ⟨_, heq⟩ := Option.ite_none_right_eq_some.mp hstep
    cases heq
    exact ⟨toTransport_handler s u message, checker_handler s u message⟩
  rw [hsame.1] at hclear hnone htransport
  rw [hsame.2] at hidle
  have hothers : ∀ v, v ≠ u → s.completedFiles v = true := fun v hv =>
    hturn.tables.completed (allCompleted_iff.mp hall v) fun m heq => by
      cases heq
      exact hv rfl
  have hold : s.completedFiles u = true → ∃ id, s.Closing id := by
    intro hu
    refine h.closes hclear hidle hnone (allCompleted_iff.mpr fun v => ?_) htransport
    by_cases hv : v = u
    · rw [hv]
      exact hu
    · exact hothers v hv
  cases hmessage : message.terminal with
  | true =>
    obtain ⟨id, hclosing, htype⟩ := hcompletes hmessage htransport hnone hothers hidle hclear
    refine ⟨id, ?_⟩
    have hlt : id < s.taskCount := by
      obtain ⟨_, p, hpc⟩ := hclosing
      exact h.served.phases.timers.lt (by rw [hpc]; rintro ⟨⟩)
    rw [Closing]
    generalize s'.toTimers = timers at htimers ⊢
    cases htimers with
    | same => exact hclosing
    | setPc he _ _ _ | finish he => cases he
    | drop => cases hmessage
    | schedule _ _ =>
      rw [h.served.phases.timers.schedule_of_ne hlt htype]
      exact hclosing
    | dropAll he _ => cases he
    | cancels h' | clear h' _ => exact absurd h' hstops
  | false =>
    cases message with
    | fileComplete | extractionComplete => cases hmessage
    | record valid =>
      obtain ⟨_, heq⟩ := Option.ite_none_right_eq_some.mp hstep
      cases heq
      have hfalse : (s.handler timing u (.record valid)).completedFiles u = false := by
        rw [handler, if_neg (by rw [h.served.shutdownRequested]; rintro ⟨⟩), operation]
        dsimp only
        split <;> exact Function.update_self u false s.completedFiles
      cases hfalse.symm.trans (allCompleted_iff.mp hall u)
    | unreadable =>
      obtain ⟨_, heq⟩ := Option.ite_none_right_eq_some.mp hstep
      cases heq
      have hunread : s.handler timing u .unreadable = s := by
        rw [handler]
        split <;> rfl
      rw [hunread] at hall ⊢
      exact hold (allCompleted_iff.mp hall u)

/-- Nobody but a task or the checker has the transport, once the types are complete. -/
theorem Dormant.transport_of_other (h : s.Dormant) (hstep : s.step timing e = some s') (htask : e.task? = none)
    (he : e.ofChecker = false) (hclear : s'.consumerRecoveryRequested = false)
    (hnone : ∀ t, s'.consumerTags t = none) (hall : s.allCompleted = true) : s'.toTransport = s.toTransport := by
  have htransport := transport_step h.served.phases hstep
  generalize s'.toTransport = transport at htransport hclear hnone
  have hcloses : ∀ {p reply}, ¬HearsClose s e p reply := by
    intro p reply hhears
    cases hhears with
    | main hpc =>
      have hmain := h.served.main
      rw [hpc] at hmain
      cases hmain
    | dropping _ | failing _ => cases he
    | task _ _ => cases htask
  have hopened : s.main.opening = false := by
    rw [Bool.eq_false_iff]
    intro hopening
    cases (allCompleted_iff.mp hall .artists).symm.trans ((h.served.opening hopening).completedFiles .artists)
  cases htransport with
  | same => rfl
  | request => cases hclear
  | cancel _ _ => cases htask
  | closeChannel hhears _ | closed hhears _ | dropped hhears _ _ _ => exact absurd hhears hcloses
  | reset he' _ _ | adopt he' _ _ | adoptFailed he' _ | tempChannelClosed he' _ | tempConnectionClosed he' _ =>
    cases he.symm.trans he'
  | connect _ hpc | openChannel _ hpc | startWatch _ hpc =>
    rw [hpc] at hopened
    cases hopened
  | @register _ t q _ _ =>
    cases (hnone t).symm.trans (registerConsumer_self s.toTransport s.now t q)

/-- A recovery that found nothing has no transport. -/
theorem Dormant.unplugged_of_closingTemp (h : s.Dormant) {c count : Nat} (hpc : s.checker = .closingTempConnection c)
    (hstep : s.step timing (.checker .success count) = some s') : s'.hasTransport = false := by
  have hgone : s.hasTransport = false := h.served.phases.unplugged (by rw [hpc]; rfl)
  obtain ⟨_, heq⟩ := Option.ite_none_left_eq_some.mp hstep
  have hsucceeds : s.checkerSucceeds count = some s' := heq
  rw [checkerSucceeds, hpc] at hsucceeds
  cases hsucceeds
  exact hgone

theorem Dormant.closes_of_other (h : s.Dormant) (hserving : s.Serving e) (hstep : s.step timing e = some s')
    (htask : e.task? = none) (hdeliver : ∀ t message, e ≠ .deliver t message)
    (hclear : s'.consumerRecoveryRequested = false) (hidle : s'.checker.idle = true)
    (hnone : ∀ t, s'.consumerTags t = none) (hall : s'.allCompleted = true) (htransport : s'.hasTransport = true) :
    ∃ id, s'.Closing id := by
  have hall' : s.allCompleted = true := allCompleted_iff.mpr fun t =>
    (turn_step hstep).tables.completed (allCompleted_iff.mp hall t) fun message => hdeliver t message
  have hclosing : ∃ id, s.Closing id := by
    cases h.served.rests hstep hidle hclear with
    | stays hidle' hset hwhy =>
      have hsame : s'.toTransport = s.toTransport := by
        rcases hwhy with he | hsame
        · exact h.transport_of_other hstep htask he hclear hnone hall'
        · exact hsame
      rw [hsame] at hnone htransport
      exact h.closes hset hidle' hnone hall' htransport
    | foundNothing hpc he =>
      subst he
      cases (h.unplugged_of_closingTemp hpc hstep).symm.trans htransport
    | @recovered c q count t rest pending _ _ heq =>
      rw [heq] at hnone
      cases (hnone t).symm.trans (registerConsumer_self s.toTransport s.now t q)
  obtain ⟨id, hclosing⟩ := hclosing
  rcases h.timers_step hserving hstep htask hdeliver with heq | hgone
  · refine ⟨id, ?_⟩
    rw [Closing, heq]
    exact hclosing
  · cases hgone.symm.trans htransport

theorem Dormant.closes_step (h : s.Dormant) (hok : s.Restful e) (hstep : s.step timing e = some s')
    (hclear : s'.consumerRecoveryRequested = false) (hidle : s'.checker.idle = true)
    (hnone : ∀ t, s'.consumerTags t = none) (hall : s'.allCompleted = true) (htransport : s'.hasTransport = true) :
    ∃ id, s'.Closing id := by
  by_cases hdeliver : ∃ u message, e = .deliver u message
  · obtain ⟨u, message, he⟩ := hdeliver
    exact h.closes_of_deliver hok hstep he hclear hidle hnone hall htransport
  · cases htask : e.task? with
    | some id => exact h.closes_of_task hok.toServing hstep htask hclear hidle hnone hall htransport
    | none =>
      exact h.closes_of_other hok.toServing hstep htask (fun u message he => hdeliver ⟨u, message, he⟩) hclear hidle
        hnone hall htransport

/-! ## No dead end -/

theorem Dormant.step (h : s.Dormant) (hdelay : 0 < timing.consumerCancelDelay) (hok : s.Restful e)
    (hstep : s.step timing e = some s') : s'.Dormant := by
  have hserved' : s'.Served := h.served.step hok.toServing hstep
  exact {
    served := hserved'
    timers := h.tasks_step hok.toServing hstep
    tagged := fun _ _ => h.tagged_step hstep
    cancelling := h.cancelling_step hok.toServing hstep
    queues := fun hclear _ => h.queues_step hserved' hstep hclear
    consuming := fun _ _ _ _ _ => h.consuming_step hstep
    starting := fun _ _ _ => h.starting_step hstep
    timed := fun hclear _ => h.timed_step hdelay hok hserved' hstep hclear
    closes := fun hclear => h.closes_step hok hstep hclear }

theorem dormant_of_run (hdelay : 0 < timing.consumerCancelDelay) {now : Int} {es : List Event}
    (h : Runs.Run (step timing) Restful { now := now } es s) : s.Dormant :=
  h.invariant (dormant_init now) fun hdormant hok hstep => hdormant.step hdelay hok hstep

/-- Everything is complete, no timer is left, and no close and no recovery is in progress. -/
structure Quiescent (s : Lifecycle) : Prop where
  completed : s.allCompleted = true
  timers : ∀ id, (s.tasks id).pc = .finished
  main : ∀ p, s.main ≠ .closing p
  checker : s.checker.idle = true

/-- A service at rest that has completed everything has given up its consumers and its
connection, or asks for a recovery. -/
theorem no_dead_end {timing : Timing} {now : Int} {es : List Event} {s : Lifecycle}
    (hdelay : 0 < timing.consumerCancelDelay) (hrun : Runs.Run (step timing) Restful { now := now } es s)
    (h : s.Quiescent) : ((∀ t, s.consumerTags t = none) ∧ s.activeConnection = none ∧ s.activeChannel = none) ∨
      s.consumerRecoveryRequested = true := by
  have hdormant := dormant_of_run hdelay hrun
  by_cases hset : s.consumerRecoveryRequested = true
  · exact .inr hset
  · have hclear : s.consumerRecoveryRequested = false := Bool.not_eq_true _ ▸ hset
    have hnone : ∀ t, s.consumerTags t = none := by
      intro t
      by_contra ht
      obtain ⟨id, _, _, hwaiting | ⟨tag, hcancelling⟩⟩ := hdormant.timed hclear t ht (allCompleted_iff.mp h.completed t)
      · cases (h.timers id).symm.trans hwaiting
      · cases (h.timers id).symm.trans hcancelling
    have hgone : s.hasTransport = false := by
      rw [Bool.eq_false_iff]
      intro htransport
      obtain ⟨id, _, p, hclosing⟩ := hdormant.closes hclear h.checker hnone h.completed htransport
      cases (h.timers id).symm.trans hclosing
    exact .inl ⟨hnone, hasTransport_eq_false.mp hgone⟩

/-- Startup, terminal events with a consumer registered, the clock and the timers. -/
def Event.quiet (s : Lifecycle) (e : Event) : Bool :=
  (e.calm && (!s.main.startup || musicbrainzDataTypes.all fun t => !s.completedFiles t) &&
      (s.main.startup || !s.noConsumers) || e.task?.isSome) && (s.main.opening || s.hasTransport)

theorem restful_of_quiet (h : e.quiet s = true) : s.Restful e := by
  simp only [Event.quiet, Bool.and_eq_true, Bool.or_eq_true, Bool.not_eq_true', List.all_eq_true] at h
  obtain ⟨hevent, htransport⟩ := h
  have hconsumes : ∀ t q, HearsConsume s e t q → s.hasTransport = true ∧ s.completedFiles t = false := by
    intro t q hhears
    cases hhears with
    | main hpc =>
      rw [hpc] at htransport hevent
      refine ⟨htransport.resolve_left nofun, ?_⟩
      rcases hevent with ⟨⟨_, hstartup⟩, _⟩ | htask
      · exact hstartup.resolve_left nofun t (mem_musicbrainzDataTypes t)
      · cases htask
    | checker _ => rcases hevent with ⟨⟨hcalm, _⟩, _⟩ | htask <;> contradiction
  refine ⟨⟨?_, fun t q hhears => (hconsumes t q hhears).1⟩, ?_, ?_⟩
  · constructor
    · rintro rfl
      rcases hevent with ⟨⟨hcalm, _⟩, _⟩ | htask <;> contradiction
    · rintro rfl
      rcases hevent with ⟨⟨hcalm, _⟩, _⟩ | htask <;> contradiction
  · intro t q hhears hcompleted
    cases (hconsumes t q hhears).2.symm.trans hcompleted
  · intro t message he _ _ hnone hothers
    subst he
    rcases hevent with ⟨⟨_, hstartup⟩, hconsumer⟩ | htask
    · rcases hconsumer with hmain | hconsumer
      · have hincomplete := hstartup.resolve_left (by rw [hmain]; exact nofun)
        obtain ⟨u, hu⟩ : ∃ u, u ≠ t := by
          cases t with
          | artists => exact ⟨.labels, nofun⟩
          | labels | releaseGroups | releases => exact ⟨.artists, nofun⟩
        cases (hincomplete u (mem_musicbrainzDataTypes u)).symm.trans (hothers u hu)
      · cases (noConsumers_iff.mpr hnone).symm.trans hconsumer
    · cases htask

/-- All types complete, and after the delay their timers cancel the consumers one after another. -/
def allComplete : List Event :=
  List.replicate 12 (.main .success) ++ musicbrainzDataTypes.map (fun t => .deliver t .fileComplete) ++ [.tick 300] ++
    [0, 1, 2, 3].flatMap (fun id => [.taskWakes id, .task id .success]) ++ [.task 3 .success, .task 3 .success]

theorem quiescent_of_fresh (hphases : s.Phases) (hcompleted : s.allCompleted = true) (hmain : s.main = .running)
    (hchecker : s.checker = .sleeping) (htasks : ∀ id < s.taskCount, (s.tasks id).pc = .finished) : s.Quiescent := by
  refine ⟨hcompleted, fun id => ?_, fun p hpc => ?_, by rw [hchecker]; rfl⟩
  · by_cases hid : id < s.taskCount
    · exact htasks id hid
    · exact hphases.timers.fresh id (Nat.le_of_not_lt hid)
  · cases hmain.symm.trans hpc

theorem no_dead_end_allComplete : ∃ s : Lifecycle, s.Quiescent ∧ (∀ t, s.consumerTags t = none) ∧
    s.activeConnection = none := by
  obtain ⟨s, hrun, hcompleted, hmain, hchecker, htasks, hclear⟩ : ∃ s,
      Runs.Run (Runs.guarded (step {}) fun s e => e.quiet s = true) (fun _ _ => True) { now := 1 } allComplete s ∧
      s.allCompleted = true ∧ s.main = .running ∧ s.checker = .sleeping ∧
      (∀ id < s.taskCount, (s.tasks id).pc = .finished) ∧ s.consumerRecoveryRequested = false :=
    Runs.exists_run (by decide +kernel)
  have hrun' : Runs.Run (step {}) Restful { now := 1 } allComplete s :=
    (Runs.run_of_guarded hrun).mono fun _ _ => restful_of_quiet
  have hquiescent := quiescent_of_fresh (phases_of_run hrun') hcompleted hmain hchecker htasks
  rcases no_dead_end (by decide) hrun' hquiescent with ⟨hnone, hconn, _⟩ | hset
  · exact ⟨s, hquiescent, hnone, hconn⟩
  · cases hclear.symm.trans hset

/-- The periodic check finds a backlog of the artists, and registers the consumers of all types.
When the artists are complete again, their timer cancels their consumer, and no other. -/
def recoveredAfterCompletion : List Event :=
  allComplete ++ [.tick 3600, .checkerWakes, .checker .success 0, .checker .success 0, .checker .success 1] ++
    List.replicate 12 (.checker .success 0) ++ [.deliver .artists .fileComplete, .tick 300, .taskWakes 4, .task 4 .success]

theorem dead_end : ∃ s, Runs.Run (step {}) (fun _ e => e ≠ .shutdown ∧ e ≠ .mainCancelled) { now := 1 }
      recoveredAfterCompletion s ∧
    s.Quiescent ∧ s.consumerTags .labels ≠ none ∧ s.activeConnection = some 1 ∧
    s.consumerRecoveryRequested = false := by
  obtain ⟨s, hrun, hcompleted, hmain, hchecker, htasks, htag, hdead⟩ : ∃ s,
      Runs.Run (Runs.guarded (step {}) fun _ e => e ≠ .shutdown ∧ e ≠ .mainCancelled) (fun _ _ => True)
        { now := 1 } recoveredAfterCompletion s ∧
      s.allCompleted = true ∧ s.main = .running ∧ s.checker = .sleeping ∧
      (∀ id < s.taskCount, (s.tasks id).pc = .finished) ∧ (s.consumerTags .labels).isSome = true ∧
      s.activeConnection = some 1 ∧ s.consumerRecoveryRequested = false :=
    Runs.exists_run (by decide +kernel)
  have hrun' := Runs.run_of_guarded hrun
  refine ⟨s, hrun', quiescent_of_fresh (phases_of_run hrun') hcompleted hmain hchecker htasks, fun hnone => ?_, hdead⟩
  rw [hnone] at htag
  cases htag

end Lifecycle

end Brainzgraphinator
