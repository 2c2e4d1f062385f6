-- SUMMARY: What the places of main and checker say about consumers and transport, in every run.
import Brainzgraphinator.Base.Runs
import Brainzgraphinator.Lifecycle.Coroutines

/-!
# Phases

Only `main` registers consumers before the checker starts, and only a recovery does
so afterwards. A recovery that has dropped the connection finds none until it adopts
a new one. These facts hold in every run, whatever the broker replies.
-/

namespace Brainzgraphinator

/-- `main` has not registered all consumers yet. -/
def MainPc.startup : MainPc → Bool
  | .starting | .connecting _ | .openingChannel _ | .settingQos _ | .declaring _ _ _
  | .consuming _ _ _ => true
  | _ => false

/-- `main` has not registered any consumer yet. -/
def MainPc.opening : MainPc → Bool
  | .starting | .connecting _ | .openingChannel _ | .settingQos _ | .declaring _ _ _ => true
  | _ => false

def MainPc.stopping : MainPc → Bool
  | .stoppingTimers _ | .stoppingConsumers _ | .stoppingChecker | .closing _ => true
  | _ => false

/-- A recovery has dropped the transport and has not adopted a new one. -/
def CheckerPc.unplugged : CheckerPc → Bool
  | .connecting | .openingChannel _ | .inspecting _ _ _ _ | .closingTempChannel _
  | .closingTempConnection _ => true
  | _ => false

/-- The connection a recovery has opened. -/
def CheckerPc.opened : CheckerPc → Option Nat
  | .inspecting c _ _ _ | .settingQos c _ | .declaring c _ _ _ _ | .consuming c _ _ _ _
  | .closingTempChannel c | .closingTempConnection c => some c
  | _ => none

namespace Lifecycle

open Transport

structure Phases (s : Lifecycle) : Prop where
  startup : s.main.startup = true → s.checker = .absent
  opening : s.main.opening = true → ∀ t, s.consumerTags t = none
  consuming : ∀ c t rest, s.main = .consuming c t rest →
    (t :: rest).Nodup ∧ ∀ u ∈ t :: rest, s.consumerTags u = none
  recovering : ∀ c q t rest pending, s.checker = .consuming c q t rest pending →
    s.consumerTags t = none
  unplugged : s.checker.unplugged = true → s.hasTransport = false
  timers : s.toTimers.WellFormed

variable {timing : Timing} {s s' : Lifecycle} {id : Nat}

/-- The tasks and the handler leave `main` and checker where they are. -/
theorem Phases.of_shrinks (h : s.Phases) (hmain : s'.main = s.main) (hchecker : s'.checker = s.checker)
    (hshrinks : Shrinks s.toTransport s'.toTransport) (htimers : s'.toTimers.WellFormed) : s'.Phases where
  startup := by rw [hmain, hchecker]; exact h.startup
  opening := by
    rw [hmain]
    exact fun hopening t => hshrinks.none (h.opening hopening t)
  consuming := by
    rw [hmain]
    intro c t rest hpc
    obtain ⟨hnodup, htags⟩ := h.consuming c t rest hpc
    exact ⟨hnodup, fun u hu => hshrinks.none (htags u hu)⟩
  recovering := by
    rw [hchecker]
    exact fun c q t rest pending hpc => hshrinks.none (h.recovering c q t rest pending hpc)
  unplugged := by
    rw [hchecker]
    exact fun hunplugged => hshrinks.hasTransport (h.unplugged hunplugged)
  timers := htimers

theorem phases_init (now : Int) : Phases { now := now } where
  startup _ := rfl
  opening _ _ := rfl
  consuming := nofun
  recovering := nofun
  unplugged := nofun
  timers := ⟨fun _ _ => rfl, nofun⟩

/-! ## Tasks and deliveries -/

theorem Phases.finish (h : s.Phases) (id : Nat) : (s.finish id).Phases :=
  h.of_shrinks rfl rfl (.refl _) (h.timers.finishTask id)

theorem Phases.cancelFails (h : s.Phases) (id : Nat) : (s.cancelFails id).Phases :=
  h.of_shrinks rfl rfl (shrinks_requestRecovery _) (h.timers.finishTask id)

theorem Phases.cancelConsumer (h : s.Phases) (hpc : (s.tasks id).pc ≠ .finished) (tag : String) :
    (s.cancelConsumer id tag).Phases := by
  rw [Lifecycle.cancelConsumer]
  split
  · exact h.cancelFails id
  · exact h.of_shrinks rfl rfl (.refl _) (h.timers.setPc hpc _)

theorem Phases.taskWakes (h : s.Phases) (hpc : (s.tasks id).pc ≠ .finished) : (s.taskWakes id).Phases := by
  rw [Lifecycle.taskWakes]
  split
  · split
    · exact h.cancelConsumer hpc _
    · exact h.finish id
  · exact h.cancelConsumer hpc _

theorem Phases.taskCloses (h : s.Phases) (hpc : (s.tasks id).pc ≠ .finished) (next : Option ClosePc) :
    (s.taskCloses id next).Phases := by
  cases next with
  | none => exact h.finish id
  | some pc => exact h.of_shrinks rfl rfl (.refl _) (h.timers.setPc hpc _)

theorem Phases.cancelSucceeds (h : s.Phases) (hpc : (s.tasks id).pc ≠ .finished) (q : Nat)
    (tag : String) : (s.cancelSucceeds id q tag).Phases := by
  have hforget : Phases { s with
      toTransport := (s.confirmCancel q (s.tasks id).dataType).forgetConsumer (s.tasks id).dataType tag } :=
    h.of_shrinks rfl rfl (shrinks_cancel _ _ _ _) h.timers
  rw [Lifecycle.cancelSucceeds]
  split
  · split
    · exact hforget.taskCloses hpc _
    · exact hforget.finish id
  · exact hforget.finish id

theorem Phases.taskReplied (h : s.Phases) {reply : Reply} (hstep : s.taskReplied id reply = some s') :
    s'.Phases := by
  rw [Lifecycle.taskReplied] at hstep
  split at hstep
  · rename_i tag q hpc hqueue
    have hne : (s.tasks id).pc ≠ .finished := by rw [hpc]; exact nofun
    cases reply with
    | success => cases hstep; exact h.cancelSucceeds hne q tag
    | failure => cases hstep; exact h.cancelFails id
    | timedOut => cases hstep; exact h.cancelFails id
  · rename_i pc hpc
    have hne : (s.tasks id).pc ≠ .finished := by rw [hpc]; exact nofun
    have hclose : Phases { s with toTransport := (s.closeReplied pc reply).1 } :=
      h.of_shrinks rfl rfl (shrinks_closeReplied _ pc reply) h.timers
    cases hstep
    exact hclose.taskCloses hne _
  · cases hstep

theorem Phases.taskInterrupted (h : s.Phases) (hstep : s.taskInterrupted id = some s') : s'.Phases := by
  rw [Lifecycle.taskInterrupted] at hstep
  split at hstep
  · rename_i hpc
    cases hstep
    exact h.cancelFails id
  · rename_i hpc
    cases hstep
    exact h.finish id
  · rename_i hpc
    cases hstep
    exact h.finish id
  · cases hstep

theorem Phases.scheduleIfEnabled (h : s.Phases) (t : EntityType) : (s.scheduleIfEnabled timing t).Phases := by
  rw [Lifecycle.scheduleIfEnabled]
  split
  · split
    · exact h.of_shrinks rfl rfl (.refl _) (h.timers.schedule t _)
    · exact h
  · exact h

theorem Phases.handler (h : s.Phases) (t : EntityType) (message : Message) :
    (s.handler timing t message).Phases := by
  rw [Lifecycle.handler]
  split
  · exact h
  · cases message with
    | fileComplete =>
      exact (h.scheduleIfEnabled t).of_shrinks rfl rfl (.refl _) (h.scheduleIfEnabled t).timers
    | extractionComplete =>
      have hcomplete : (s.complete t).Phases := h.of_shrinks rfl rfl (.refl _) h.timers
      exact hcomplete.scheduleIfEnabled t
    | record valid =>
      rw [Lifecycle.operation]
      dsimp only
      split
      · exact h.of_shrinks rfl rfl (.refl _) (h.timers.dropTimer t)
      · exact h.of_shrinks rfl rfl (.refl _) (h.timers.dropTimer t)
    | unreadable => exact h

/-! ## Recovery -/

theorem MainPc.startup_of_opening {pc : MainPc} (h : pc.opening = true) : pc.startup = true := by
  cases pc <;> first | rfl | cases h

/-- The checker takes a turn: `main` has registered its consumers long since. -/
theorem Phases.of_checker (h : s.Phases) (hpresent : s.checker ≠ .absent) (hmain : s'.main = s.main)
    (hrecovering : ∀ c q t rest pending, s'.checker = .consuming c q t rest pending →
      s'.consumerTags t = none)
    (hunplugged : s'.checker.unplugged = true → s'.hasTransport = false)
    (htimers : s'.toTimers.WellFormed) : s'.Phases := by
  have hstartup : s'.main.startup = false := by
    rw [hmain]
    exact Bool.eq_false_iff.mpr fun hs => hpresent (h.startup hs)
  refine ⟨fun hs => ?_, fun ho => ?_, fun c t rest hpc => ?_, hrecovering, hunplugged, htimers⟩
  · rw [hstartup] at hs
    cases hs
  · rw [MainPc.startup_of_opening ho] at hstartup
    cases hstartup
  · rw [hpc] at hstartup
    cases hstartup

theorem checkerSleeps_checker (s : Lifecycle) :
    s.checkerSleeps.checker = .exited ∨ s.checkerSleeps.checker = .sleeping := by
  rw [Lifecycle.checkerSleeps]
  dsimp only
  split
  · exact .inl rfl
  · exact .inr rfl

theorem Phases.checkerSleeps (h : s.Phases) (hpresent : s.checker ≠ .absent) : s.checkerSleeps.Phases := by
  refine h.of_checker hpresent rfl ?_ ?_ h.timers
  · intro c q t rest pending hpc
    rcases s.checkerSleeps_checker with hs | hs <;> cases hs.symm.trans hpc
  · intro hunplugged
    rcases s.checkerSleeps_checker with hs | hs <;> rw [hs] at hunplugged <;> cases hunplugged

theorem Phases.reconnect (h : s.Phases) (hpresent : s.checker ≠ .absent) (hgone : s.hasTransport = false) :
    s.reconnect.Phases :=
  h.of_checker hpresent rfl nofun (fun _ => hgone) h.timers.dropTimers

theorem Phases.dropped (h : s.Phases) (hpresent : s.checker ≠ .absent) : s.dropped.Phases := by
  rw [Lifecycle.dropped]
  split
  · exact h.checkerSleeps hpresent
  · rename_i hgone
    exact h.reconnect hpresent (Bool.not_eq_true _ ▸ hgone)

theorem Phases.recoverConsumers (h : s.Phases) (hpresent : s.checker ≠ .absent) :
    s.recoverConsumers.Phases := by
  rw [Lifecycle.recoverConsumers]
  split
  · exact h.of_checker hpresent rfl nofun nofun h.timers
  · rename_i hnone
    exact h.reconnect hpresent (closeRabbitmqConnection_eq_none.mp hnone)

theorem Phases.checkerWakes (h : s.Phases) (hpresent : s.checker ≠ .absent) :
    (s.checkerWakes timing).Phases := by
  rw [Lifecycle.checkerWakes]
  split
  · exact h.recoverConsumers hpresent
  · split
    · exact h.recoverConsumers hpresent
    · split
      · exact h.checkerSleeps hpresent
      · split
        · exact h.checkerSleeps hpresent
        · have hchecked : Phases { s with lastFullCheck := s.now } :=
            h.of_shrinks rfl rfl (.refl _) h.timers
          exact hchecked.recoverConsumers hpresent

theorem Phases.droppingReplied (h : s.Phases) (hpresent : s.checker ≠ .absent) (pc : ClosePc)
    (reply : Reply) : (s.droppingReplied pc reply).Phases := by
  have hclose : Phases { s with toTransport := (s.closeReplied pc reply).1 } :=
    h.of_shrinks rfl rfl (shrinks_closeReplied _ pc reply) h.timers
  rw [Lifecycle.droppingReplied]
  dsimp only
  split
  · exact hclose.of_checker hpresent rfl nofun nofun h.timers
  · exact hclose.dropped hpresent

theorem Phases.failingReplied (h : s.Phases) (hpresent : s.checker ≠ .absent) (pc : ClosePc)
    (reply : Reply) : (s.failingReplied pc reply).Phases := by
  have hclose : Phases { s with toTransport := (s.closeReplied pc reply).1 } :=
    h.of_shrinks rfl rfl (shrinks_closeReplied _ pc reply) h.timers
  rw [Lifecycle.failingReplied]
  dsimp only
  split
  · exact hclose.of_checker hpresent rfl nofun nofun h.timers
  · exact hclose.checkerSleeps hpresent

theorem Phases.recoveryFailed (h : s.Phases) (hpresent : s.checker ≠ .absent) (c : Nat) :
    (s.recoveryFailed c).Phases :=
  h.of_checker hpresent rfl nofun nofun h.timers

theorem Phases.declareNext (h : s.Phases) (hpresent : s.checker ≠ .absent) (c : Nat) (t : EntityType)
    (rest pending : List EntityType) : (s.declareNext c t rest pending).Phases := by
  rw [Lifecycle.declareNext]
  split
  · exact h.of_checker hpresent rfl nofun nofun h.timers
  · exact h.recoveryFailed hpresent c

/-- The recovery goes to sleep, or asks for the consumer of a type that lacks one. -/
theorem consumeNext_cases (s : Lifecycle) (c : Nat) (pending types : List EntityType) :
    s.consumeNext c pending types = s.checkerSleeps ∨
      ∃ q t rest, t ∈ types ∧ s.queues t = some q ∧ s.consumerTags t = none ∧
        s.consumeNext c pending types = { s with
          checker := .consuming c q t rest pending
          subscribed := Function.update s.subscribed t true } := by
  induction types with
  | nil => exact .inl rfl
  | cons t rest ih =>
    rw [consumeNext]
    split
    · rename_i q hq htag
      exact .inr ⟨q, t, rest, List.mem_cons_self, hq, htag, rfl⟩
    · rcases ih with heq | ⟨q, u, rest', hmem, hrest⟩
      · exact .inl heq
      · exact .inr ⟨q, u, rest', List.mem_cons_of_mem t hmem, hrest⟩

theorem Phases.consumeNext (h : s.Phases) (hpresent : s.checker ≠ .absent) (c : Nat)
    (pending types : List EntityType) : (s.consumeNext c pending types).Phases := by
  rcases consumeNext_cases s c pending types with heq | ⟨q, t, rest, _, _, htag, heq⟩
  · rw [heq]
    exact h.checkerSleeps hpresent
  · rw [heq]
    refine h.of_checker hpresent rfl ?_ nofun h.timers
    intro c' q' t' rest' pending' hpc
    cases hpc
    exact htag

theorem Phases.consumerRecovered (h : s.Phases) (hpresent : s.checker ≠ .absent) {c q : Nat} {t : EntityType}
    (rest pending : List EntityType) :
    ((s.consumerRecovered q t pending).consumeNext c pending rest).Phases := by
  rcases consumeNext_cases (s.consumerRecovered q t pending) c pending rest with heq | ⟨q', u, rest', _, _, htag, heq⟩
  · rw [heq]
    have hsleeps := (s.consumerRecovered q t pending).checkerSleeps_checker
    refine h.of_checker hpresent rfl ?_ ?_ h.timers
    · intro c q t rest pending hpc
      rcases hsleeps with hs | hs <;> cases hs.symm.trans hpc
    · intro hunplugged
      rcases hsleeps with hs | hs <;> rw [hs] at hunplugged <;> cases hunplugged
  · rw [heq]
    refine h.of_checker hpresent rfl ?_ nofun h.timers
    intro c' q' t' rest' pending' hpc
    cases hpc
    exact htag

theorem Phases.checkerSucceeds (h : s.Phases) {count : Nat} (hstep : s.checkerSucceeds count = some s') :
    s'.Phases := by
  rw [Lifecycle.checkerSucceeds] at hstep
  cases hpc : s.checker with
  | absent => rw [hpc] at hstep; cases hstep
  | sleeping => rw [hpc] at hstep; cases hstep
  | exited => rw [hpc] at hstep; cases hstep
  | dropping pc =>
    rw [hpc] at hstep
    cases hstep
    exact h.droppingReplied (by rw [hpc]; exact nofun) pc .success
  | connecting =>
    rw [hpc] at hstep
    cases hstep
    exact h.of_checker (by rw [hpc]; exact nofun) rfl nofun (fun _ => h.unplugged (by rw [hpc]; rfl)) h.timers
  | openingChannel c =>
    rw [hpc] at hstep
    cases hstep
    exact h.of_checker (by rw [hpc]; exact nofun) rfl nofun (fun _ => h.unplugged (by rw [hpc]; rfl)) h.timers
  | inspecting c t rest pending =>
    have hpresent : s.checker ≠ .absent := by rw [hpc]; exact nofun
    have hgone : s.hasTransport = false := h.unplugged (by rw [hpc]; rfl)
    rw [hpc] at hstep
    dsimp only at hstep
    generalize (if 0 < count then pending ++ [t] else pending) = pending' at hstep
    cases rest with
    | cons t rest =>
      cases hstep
      exact h.of_checker hpresent rfl nofun (fun _ => hgone) h.timers
    | nil =>
      dsimp only at hstep
      split at hstep
      · cases hstep
        exact h.of_checker hpresent rfl nofun (fun _ => hgone) h.timers
      · cases hstep
        exact h.of_checker hpresent rfl nofun nofun h.timers
  | settingQos c pending =>
    have hpresent : s.checker ≠ .absent := by rw [hpc]; exact nofun
    have hqueues : Phases { s with queues := fun _ => none } := h.of_shrinks rfl rfl (.refl _) h.timers
    rw [hpc] at hstep
    cases hstep
    exact hqueues.declareNext hpresent c _ _ _
  | declaring c q t rest pending =>
    have hpresent : s.checker ≠ .absent := by rw [hpc]; exact nofun
    have hqueues : Phases { s with queues := Function.update s.queues t (some q) } :=
      h.of_shrinks rfl rfl (.refl _) h.timers
    rw [hpc] at hstep
    cases rest with
    | cons t rest => cases hstep; exact hqueues.declareNext hpresent c _ _ _
    | nil =>
      cases hstep
      rw [← hpc]
      exact hqueues.consumeNext hpresent c _ _
  | consuming c q t rest pending =>
    rw [hpc] at hstep
    cases hstep
    exact h.consumerRecovered (by rw [hpc]; exact nofun) rest pending
  | closingTempChannel c =>
    have hgone : s.hasTransport = false := h.unplugged (by rw [hpc]; rfl)
    rw [hpc] at hstep
    cases hstep
    exact h.of_checker (by rw [hpc]; exact nofun) rfl nofun (fun _ => hgone) h.timers
  | closingTempConnection c =>
    have hclosed : Phases { s with connectionClosed := Function.update s.connectionClosed c true } :=
      h.of_shrinks rfl rfl ⟨fun _ => .inl rfl, id⟩ h.timers
    rw [hpc] at hstep
    cases hstep
    exact hclosed.checkerSleeps (by rw [hpc]; exact nofun)
  | failing pc =>
    rw [hpc] at hstep
    cases hstep
    exact h.failingReplied (by rw [hpc]; exact nofun) pc .success

theorem Phases.checkerFails (h : s.Phases) {reply : Reply} (hstep : s.checkerFails reply = some s') :
    s'.Phases := by
  rw [Lifecycle.checkerFails] at hstep
  have hrequest : Phases { s with toTransport := s.requestRecovery } :=
    h.of_shrinks rfl rfl (shrinks_requestRecovery _) h.timers
  cases hpc : s.checker with
  | absent => rw [hpc] at hstep; cases hstep
  | sleeping => rw [hpc] at hstep; cases hstep
  | exited => rw [hpc] at hstep; cases hstep
  | dropping pc =>
    rw [hpc] at hstep
    cases hstep
    exact h.droppingReplied (by rw [hpc]; exact nofun) pc reply
  | failing pc =>
    rw [hpc] at hstep
    cases hstep
    exact h.failingReplied (by rw [hpc]; exact nofun) pc reply
  | connecting =>
    rw [hpc] at hstep
    cases hstep
    rw [← hpc]
    exact hrequest.checkerSleeps (by rw [hpc]; exact nofun)
  | openingChannel c =>
    rw [hpc] at hstep
    cases hstep
    rw [← hpc]
    exact hrequest.checkerSleeps (by rw [hpc]; exact nofun)
  | inspecting c t rest pending | settingQos c pending | declaring c q t rest pending
  | consuming c q t rest pending | closingTempChannel c | closingTempConnection c =>
    rw [hpc] at hstep
    cases hstep
    exact h.recoveryFailed (by rw [hpc]; exact nofun) c

theorem Phases.checkerReplied (h : s.Phases) {reply : Reply} {count : Nat}
    (hstep : s.checkerReplied reply count = some s') : s'.Phases := by
  cases reply with
  | success => exact h.checkerSucceeds hstep
  | failure => exact h.checkerFails hstep
  | timedOut => exact h.checkerFails hstep

/-! ## Startup and shutdown -/

/-- `main` takes a turn past its startup, or leaves it. -/
theorem Phases.of_main (h : s.Phases) (hstartup : s'.main.startup = false) (hchecker : s'.checker = s.checker)
    (hshrinks : Shrinks s.toTransport s'.toTransport) (htimers : s'.toTimers.WellFormed) : s'.Phases := by
  refine ⟨fun hs => ?_, fun ho => ?_, fun c t rest hpc => ?_, ?_, ?_, htimers⟩
  · rw [hstartup] at hs
    cases hs
  · rw [MainPc.startup_of_opening ho] at hstartup
    cases hstartup
  · rw [hpc] at hstartup
    cases hstartup
  · rw [hchecker]
    exact fun c q t rest pending hpc => hshrinks.none (h.recovering c q t rest pending hpc)
  · rw [hchecker]
    exact fun hunplugged => hshrinks.hasTransport (h.unplugged hunplugged)

/-- `main` takes a turn of its startup. -/
theorem Phases.of_startup (h : s.Phases) (hstartup : s.main.startup = true) (hchecker : s'.checker = s.checker)
    (hopening : s'.main.opening = true → ∀ t, s'.consumerTags t = none)
    (hconsuming : ∀ c t rest, s'.main = .consuming c t rest →
      (t :: rest).Nodup ∧ ∀ u ∈ t :: rest, s'.consumerTags u = none)
    (htimers : s'.toTimers.WellFormed) : s'.Phases := by
  have habsent : s'.checker = .absent := hchecker.trans (h.startup hstartup)
  refine ⟨fun _ => habsent, hopening, hconsuming, fun c q t rest pending hpc => ?_, fun hunplugged => ?_,
    htimers⟩
  · cases habsent.symm.trans hpc
  · rw [habsent] at hunplugged
    cases hunplugged

theorem wellFormed_cancelTasks {timers : Timers} (h : timers.WellFormed) (ids : List Nat) :
    (ids.foldl Timers.cancelTask timers).WellFormed :=
  List.foldlRecOn ids Timers.cancelTask h fun _ hs id _ => hs.cancelTask id

theorem Phases.stopChecker (h : s.Phases) : s.stopChecker.Phases :=
  h.of_main rfl rfl (.refl _) h.timers

theorem Phases.cancelAll (h : s.Phases) : s.cancelAll.Phases := by
  rw [Lifecycle.cancelAll]
  split
  · exact h.stopChecker
  · refine h.of_main rfl rfl (.refl _) ?_
    exact List.foldlRecOn _ _ h.timers fun _ hs t _ => hs.createTask _

theorem Phases.timersStopped (h : s.Phases) : s.timersStopped.Phases := by
  have hclear : Phases { s with consumerCancelTasks := fun _ => none } :=
    h.of_shrinks rfl rfl (.refl _) (h.timers.of_stored nofun)
  exact hclear.cancelAll

theorem Phases.cancelAllConsumers (h : s.Phases) : s.cancelAllConsumers.Phases := by
  rw [Lifecycle.cancelAllConsumers]
  split
  · exact h.timersStopped
  · exact h.of_main rfl rfl (.refl _) (wellFormed_cancelTasks h.timers _)

theorem Phases.mainCloses (h : s.Phases) (pc : ClosePc) (reply : Reply) : (s.mainCloses pc reply).Phases := by
  rw [Lifecycle.mainCloses]
  dsimp only
  split
  · exact h.of_main rfl rfl (shrinks_closeReplied _ pc reply) h.timers
  · exact h.of_main rfl rfl (shrinks_closeReplied _ pc reply) h.timers

theorem nodup_musicbrainzDataTypes : musicbrainzDataTypes.Nodup := by decide

theorem Phases.mainSucceeds (h : s.Phases) (hstep : s.mainSucceeds = some s') : s'.Phases := by
  rw [Lifecycle.mainSucceeds] at hstep
  cases hpc : s.main with
  | starting =>
    have htags := h.opening (by rw [hpc]; rfl)
    rw [hpc] at hstep
    cases hstep
    refine h.of_startup (by rw [hpc]; rfl) rfl (fun _ => htags) (fun c t rest hpc' => ?_) h.timers
    dsimp only at hpc'
    split at hpc' <;> cases hpc'
  | openingChannel c | settingQos c | connecting retry =>
    have htags := h.opening (by rw [hpc]; rfl)
    rw [hpc] at hstep
    cases hstep
    exact h.of_startup (by rw [hpc]; rfl) rfl (fun _ => htags) nofun h.timers
  | declaring c t rest =>
    have htags := h.opening (by rw [hpc]; rfl)
    rw [hpc] at hstep
    cases rest with
    | cons t rest =>
      cases hstep
      exact h.of_startup (by rw [hpc]; rfl) rfl (fun _ => htags) nofun h.timers
    | nil =>
      cases hstep
      refine h.of_startup (by rw [hpc]; rfl) rfl nofun ?_ h.timers
      intro c' t' rest' hpc'
      cases hpc'
      exact ⟨nodup_musicbrainzDataTypes, fun u _ => htags u⟩
  | consuming c t rest =>
    obtain ⟨hnodup, htags⟩ := h.consuming c t rest hpc
    rw [hpc] at hstep
    cases rest with
    | nil =>
      cases hstep
      exact ⟨nofun, nofun, nofun, nofun, nofun, h.timers⟩
    | cons u rest =>
      cases hstep
      refine h.of_startup (by rw [hpc]; rfl) rfl nofun ?_ h.timers
      intro c' t' rest' hpc'
      cases hpc'
      refine ⟨hnodup.of_cons, fun v hv => ?_⟩
      have hne : v ≠ t := fun heq => (List.nodup_cons.mp hnodup).1 (heq ▸ hv)
      exact (Function.update_of_ne hne _ s.consumerTags).trans (htags v (List.mem_cons_of_mem t hv))
  | running =>
    rw [hpc] at hstep
    cases hstep
    split
    · exact h.cancelAllConsumers
    · exact h
  | stoppingTimers pending =>
    rw [hpc] at hstep
    dsimp only at hstep
    split at hstep
    · cases hstep
      exact h.timersStopped
    · cases hstep
  | stoppingConsumers pending =>
    rw [hpc] at hstep
    dsimp only at hstep
    split at hstep
    · cases hstep
      exact h.stopChecker
    · cases hstep
  | stoppingChecker =>
    rw [hpc] at hstep
    dsimp only at hstep
    split at hstep
    · split at hstep
      · cases hstep
        exact h.of_main rfl rfl (.refl _) h.timers
      · cases hstep
        exact h.of_main rfl rfl (.refl _) h.timers
    · cases hstep
  | closing pc =>
    rw [hpc] at hstep
    cases hstep
    exact h.mainCloses pc .success
  | exited => rw [hpc] at hstep; cases hstep

theorem Phases.mainFails (h : s.Phases) {reply : Reply} (hstep : s.mainFails reply = some s') : s'.Phases := by
  rw [Lifecycle.mainFails] at hstep
  have hexits : Phases { s with main := .exited } := h.of_main rfl rfl (.refl _) h.timers
  cases hpc : s.main with
  | connecting retry =>
    have htags := h.opening (by rw [hpc]; rfl)
    rw [hpc] at hstep
    dsimp only at hstep
    split at hstep
    · cases hstep
      exact h.of_startup (by rw [hpc]; rfl) rfl (fun _ => htags) nofun h.timers
    · cases hstep
      exact hexits
  | starting | openingChannel c | settingQos c | declaring c t rest | consuming c t rest =>
    rw [hpc] at hstep
    cases hstep
    exact hexits
  | closing pc =>
    rw [hpc] at hstep
    cases hstep
    exact h.mainCloses pc reply
  | running | stoppingTimers pending | stoppingConsumers pending | stoppingChecker | exited =>
    rw [hpc] at hstep
    cases hstep

theorem Phases.mainReplied (h : s.Phases) {reply : Reply} (hstep : s.mainReplied reply = some s') :
    s'.Phases := by
  cases reply with
  | success => exact h.mainSucceeds hstep
  | failure => exact h.mainFails hstep
  | timedOut => exact h.mainFails hstep

theorem Phases.mainCancelled (h : s.Phases) : s.mainCancelled.Phases := by
  rw [Lifecycle.mainCancelled]
  split
  · exact h.cancelAllConsumers
  · exact h.of_main rfl rfl (.refl _) (wellFormed_cancelTasks h.timers _)
  · exact h
  · exact h.of_main rfl rfl (.refl _) h.timers

theorem Phases.step {e : Event} (h : s.Phases) (hstep : s.step timing e = some s') : s'.Phases := by
  cases e with
  | tick seconds =>
    cases hstep
    exact h.of_shrinks rfl rfl (.refl _) h.timers
  | shutdown =>
    cases hstep
    exact h.of_shrinks rfl rfl (.refl _) h.timers
  | main reply => exact h.mainReplied hstep
  | mainCancelled =>
    cases hstep
    exact h.mainCancelled
  | checkerWakes =>
    obtain ⟨⟨hpc, _⟩, heq⟩ := Option.ite_none_right_eq_some.mp hstep
    cases heq
    exact h.checkerWakes (by rw [hpc]; exact nofun)
  | checker reply count =>
    obtain ⟨_, heq⟩ := Option.ite_none_left_eq_some.mp hstep
    exact h.checkerReplied heq
  | checkerInterrupted =>
    obtain ⟨hcond, heq⟩ := Option.ite_none_right_eq_some.mp hstep
    simp only [Bool.and_eq_true, decide_eq_true_eq] at hcond
    cases heq
    exact h.of_checker hcond.2 rfl nofun nofun h.timers
  | taskWakes id =>
    obtain ⟨⟨hpc, _⟩, heq⟩ := Option.ite_none_right_eq_some.mp hstep
    cases heq
    exact h.taskWakes (by rw [hpc]; exact nofun)
  | task id reply =>
    obtain ⟨_, heq⟩ := Option.ite_none_left_eq_some.mp hstep
    exact h.taskReplied heq
  | taskInterrupted id =>
    obtain ⟨_, heq⟩ := Option.ite_none_right_eq_some.mp hstep
    exact h.taskInterrupted heq
  | deliver t message =>
    obtain ⟨_, heq⟩ := Option.ite_none_right_eq_some.mp hstep
    cases heq
    exact h.handler t message
  | settled t outcome =>
    obtain ⟨_, heq⟩ := Option.ite_none_right_eq_some.mp hstep
    cases heq
    cases outcome with
    | processed | skipped | failed => exact h.of_shrinks rfl rfl (.refl _) h.timers

end Lifecycle

end Brainzgraphinator
