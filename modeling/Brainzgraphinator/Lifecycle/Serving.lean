-- SUMMARY: What holds of a service that is not stopped, and consumes on transports that are there.
import Brainzgraphinator.Lifecycle.Bookkeeping
import Brainzgraphinator.Lifecycle.Turns

/-!
# Serving

Runs without a shutdown, in which no consumer is confirmed after its transport was
closed under it. The books are kept in them, and a recovery finds no consumers until it
registers its own.
-/

namespace Brainzgraphinator

namespace Lifecycle

open Transport

variable {timing : Timing} {s s' : Lifecycle} {e : Event}

structure Serving (s : Lifecycle) (e : Event) : Prop where
  running : e ≠ .shutdown ∧ e ≠ .mainCancelled
  /-- A consumer is confirmed only while there is a transport. -/
  consumes : ∀ t q, HearsConsume s e t q → s.hasTransport = true

structure Served (s : Lifecycle) : Prop where
  phases : s.Phases
  opening : s.main.opening = true → s.Opening
  books : s.Bookkeeping
  shutdownRequested : s.shutdownRequested = false
  checkerCancelled : s.checkerCancelled = false
  main : s.main.stopping = false
  bare : s.checker.bare = true → ∀ t, s.consumerTags t = none
  failing : ∀ p, s.checker = .failing p → s.consumerRecoveryRequested = true

theorem served_init (now : Int) : Served { now := now } where
  phases := phases_init now
  opening _ := opening_init now
  books := bookkeeping_init now
  shutdownRequested := rfl
  checkerCancelled := rfl
  main := rfl
  bare := nofun
  failing := nofun

theorem Served.tidy (h : s.Served) (hserving : s.Serving e) : s.Tidy e := by
  exact ⟨hserving.consumes, fun hclears t id hid => hclears.not_live h.main hid⟩

theorem Served.not_stops (h : s.Served) (hserving : s.Serving e) : ¬s.Stops e := by
  rintro (hstopping | ⟨_, hshutdown | hcancelled⟩)
  · cases h.main.symm.trans hstopping
  · cases h.shutdownRequested.symm.trans hshutdown
  · exact hserving.running.2 hcancelled

/-- Without a transport there are no consumers. -/
theorem Served.noConsumers (h : s.Served) (hgone : s.hasTransport = false) (t : EntityType) :
    s.consumerTags t = none := by
  by_contra ht
  cases hgone.symm.trans (h.books.transport t ht)

theorem Served.hearsConsume (h : s.Served) {t : EntityType} {q : Nat} (hhears : HearsConsume s e t q) :
    s.checker.bare = false ∧ s.checker.unplugged = false := by
  cases hhears with
  | main hpc =>
    rw [h.phases.startup (by rw [hpc]; rfl)]
    exact ⟨rfl, rfl⟩
  | checker hpc =>
    rw [hpc]
    exact ⟨rfl, rfl⟩

theorem shutdownRequested_step (hstep : TablesStep s s' e) (hrunning : e ≠ .shutdown) :
    s'.shutdownRequested = s.shutdownRequested := by
  cases hstep with
  | same hkeeps | tick hkeeps | forgets hkeeps _ | declares hkeeps _ | completes _ hkeeps | uncompletes hkeeps
  | recovers _ hkeeps => exact hkeeps.shutdownRequested
  | shutdown _ => exact absurd rfl hrunning
  | @settles _ outcome _ hkeeps => cases outcome <;> exact hkeeps.shutdownRequested

/-- `main` goes on to serve, or gives up at startup. -/
theorem MainStep.serving {pc : MainPc} (h : MainStep s s' e pc) (hmain : s.main.stopping = false)
    (hshutdown : s.shutdownRequested = false) (hrunning : e ≠ .mainCancelled) :
    pc.stopping = false ∧ s'.checkerCancelled = s.checkerCancelled := by
  cases h with
  | same hsame => exact ⟨hmain, hsame⟩
  | opens _ hopening hsame =>
    refine ⟨?_, hsame⟩
    rw [Bool.eq_false_iff]
    intro hstopping
    rw [MainPc.opening_of_stopping hstopping] at hopening
    cases hopening
  | consumes _ hsame | runs _ hsame | exits hsame => exact ⟨rfl, hsame⟩
  | stops _ _ hwhy =>
    rcases hwhy with hstopping | ⟨_, hrequested | hcancelled⟩
    · rw [hmain] at hstopping
      cases hstopping
    · rw [hshutdown] at hrequested
      cases hrequested
    · exact absurd hcancelled hrunning
  | closes hwhy =>
    rcases hwhy with ⟨hpc, _⟩ | ⟨⟨p, hpc⟩, _⟩
    · rw [hpc] at hmain
      cases hmain
    · rw [hpc] at hmain
      cases hmain

theorem Served.step (h : s.Served) (hserving : s.Serving e) (hstep : s.step timing e = some s') : s'.Served := by
  have hturn := turn_step hstep
  have htransport := transport_step h.phases hstep
  obtain ⟨hmain, hcancelled⟩ := hturn.main.serving h.main h.shutdownRequested hserving.running.2
  refine ⟨h.phases.step hstep, ?_, h.books.step h.phases (h.tidy hserving) hstep, ?_, ?_, hmain, ?_, ?_⟩
  · intro hopening'
    have hopening := hturn.main.opening hopening'
    exact (h.opening hopening).step h.phases hstep hopening hopening'
  · rw [shutdownRequested_step hturn.tables hserving.running.1, h.shutdownRequested]
  · rw [hcancelled, h.checkerCancelled]
  · intro hbare t
    by_contra ht
    rcases htransport.registered ht with hsame | ⟨q, hhears, _⟩
    · rw [hsame] at ht
      rcases hturn.checker.bare hbare with hold | hold
      · exact ht (h.bare hold t)
      · exact ht (h.noConsumers (h.phases.unplugged hold) t)
    · obtain ⟨hbare', hplugged⟩ := h.hearsConsume hhears
      rcases hturn.checker.bare hbare with hold | hold
      · cases hbare'.symm.trans hold
      · cases hplugged.symm.trans hold
  · intro p hpc
    have hchecker := hturn.checker
    rw [hpc] at hchecker
    rcases hchecker.failing with ⟨p₀, hold⟩ | ⟨c, hfailed⟩
    · rcases htransport.clears (h.failing p₀ hold) with hset | ⟨_, hclears | ⟨_, hclears⟩, _⟩
      · exact hset
      · cases hclears.symm.trans hold
      · cases hclears.symm.trans hold
    · rw [hfailed]
      rfl

/-! ## When no recovery is in progress -/

/-- No recovery is in progress after the step, and none is asked for. -/
inductive Rests (s s' : Lifecycle) (e : Event) : Prop
  | stays : s.checker.idle = true → s.consumerRecoveryRequested = false →
      (e.ofChecker = false ∨ s'.toTransport = s.toTransport) → Rests s s' e
  | foundNothing {c count : Nat} : s.checker = .closingTempConnection c → e = .checker .success count → Rests s s' e
  | recovered {c q count : Nat} {t : EntityType} {rest pending : List EntityType} :
      s.checker = .consuming c q t rest pending → e = .checker .success count →
      s'.toTransport = s.registerConsumer s.now t q → Rests s s' e

theorem Served.rests (h : s.Served) (hstep : s.step timing e = some s') (hidle : s'.checker.idle = true)
    (hclear : s'.consumerRecoveryRequested = false) : Rests s s' e := by
  have hchecker := (turn_step hstep).checker
  have htransport := transport_step h.phases hstep
  have hclears : (e.ofChecker = false ∨ s'.toTransport = s.toTransport) → s.consumerRecoveryRequested = false := by
    intro hsame
    rw [Bool.eq_false_iff]
    intro hset
    rcases hsame with he | heq
    · rcases htransport.clears hset with hset' | ⟨he', _⟩
      · cases hclear.symm.trans hset'
      · cases he.symm.trans he'
    · rw [heq, hset] at hclear
      cases hclear
  generalize hpc : s'.checker = pc at hchecker hidle
  cases hchecker with
  | same he => exact .stays hidle (hclears (.inl he)) (.inl he)
  | starts hmain =>
    have habsent : s.checker = .absent := h.phases.startup (by rw [hmain]; rfl)
    exact .stays (by rw [habsent]; rfl) (hclears (.inl rfl)) (.inl rfl)
  | interrupted hcancelled => cases h.checkerCancelled.symm.trans hcancelled
  | stays hsleeping _ heq => exact .stays (by rw [hsleeping]; rfl) (hclears (.inr heq)) (.inr heq)
  | covered hbare _ htag => exact absurd (h.bare hbare _) htag
  | recovered hold _ heq => exact .recovered hold rfl heq
  | failed hold _ =>
    rcases htransport.clears (h.failing _ hold) with hset | ⟨_, hpc' | ⟨_, hpc'⟩, _⟩
    · cases hclear.symm.trans hset
    · cases hpc'.symm.trans hold
    · cases hpc'.symm.trans hold
  | closes hold _ => exact .foundNothing hold rfl
  | requests _ _ hset => cases hclear.symm.trans hset
  | drops _ _ _ _ | reconnects _ _ _ | adopts _ _ | declares _ _ _ | consumes _ _ _ _ | fails _ _ _ | failsOn _ _ =>
    cases hidle
  | opens _ hunplugged => rw [CheckerPc.idle_of_unplugged hunplugged] at hidle; cases hidle

/-- The checker takes a turn only where it waits. -/
theorem checker_ne_absent (hstep : s.step timing e = some s') (he : e.ofChecker = true) : s.checker ≠ .absent := by
  intro habsent
  cases e with
  | checkerWakes =>
    obtain ⟨⟨hpc, _⟩, _⟩ := Option.ite_none_right_eq_some.mp hstep
    cases habsent.symm.trans hpc
  | checker reply count =>
    obtain ⟨_, heq⟩ := Option.ite_none_left_eq_some.mp hstep
    cases reply with
    | success => rw [checkerReplied, checkerSucceeds, habsent] at heq; cases heq
    | failure | timedOut =>
      have hfails : s.checkerFails _ = some s' := heq
      rw [checkerFails, habsent] at hfails
      cases hfails
  | tick | shutdown | main | mainCancelled | checkerInterrupted | taskWakes | task | taskInterrupted | deliver
  | settled => cases he

end Lifecycle

end Brainzgraphinator
