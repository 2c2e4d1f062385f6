-- SUMMARY: What the teardown leaves behind: late consumers and open connections, and when it leaves none.
import Brainzgraphinator.Lifecycle.RequestReset
import Brainzgraphinator.Lifecycle.Subscriptions

/-!
# Teardown

The shutdown flag is looked at by `main` and, before it sleeps, by the checker. Startup and
a recovery that has found messages go on to register consumers all the same, and a
recovery that is interrupted before it adopts its connection leaves it open. `Orderly`
names the turns that go wrong; in a run without them no consumer is registered after the
request, and a teardown that returns has tried to close every connection.
-/

namespace Brainzgraphinator

/-- `main` has connected, and has not registered all consumers. -/
def MainPc.settingUp : MainPc → Bool
  | .openingChannel _ | .settingQos _ | .declaring _ _ _ | .consuming _ _ _ => true
  | _ => false

namespace Lifecycle

open Transport

variable {timing : Timing} {s s' : Lifecycle} {e : Event} {id c : Nat} {now : Int} {es : List Event}

/-! ## Closing attempts -/

/-- A coroutine waits in the `close` of this connection. -/
inductive WaitsForClose (c : Nat) (s : Lifecycle) : Prop
  | main : s.main = .closing (.connection c) → WaitsForClose c s
  | checker : s.checker.closes = some (.connection c) → WaitsForClose c s
  | temporary : s.checker = .closingTempConnection c → WaitsForClose c s
  | task {id : Nat} : (s.tasks id).pc = .closing (.connection c) → WaitsForClose c s

def TriedToClose (timing : Timing) (now : Int) (es : List Event) (c : Nat) : Prop :=
  Runs.Visits (step timing) { now := now } es (WaitsForClose c)

/-- The last turn of the teardown. -/
structure Returns (s : Lifecycle) (e : Event) (s' : Lifecycle) : Prop where
  teardown : s.main = .stoppingChecker ∨ ∃ p, s.main = .closing p
  reply : e.ofMain = true
  exited : s'.main = .exited

/-- No consumer is registered after a shutdown request, and when the teardown has returned
every connection but that of startup was tried to be closed: that one is `main`'s own, whose
`async with` closes it. -/
structure LeavesNothing (timing : Timing) (now : Int) (es : List Event) (s : Lifecycle) (e : Event) (s' : Lifecycle) :
    Prop where
  consumers : s.shutdownRequested = true → ∀ t q, ¬HearsConsume s e t q
  connections : Returns s e s' → ∀ c, 0 < c → c < s'.connections → TriedToClose timing now (es ++ [e]) c

/-- Nobody is about to register consumers when the shutdown is requested, or gets to it
later; a recovery is not interrupted, and does not fail, where it forgets its connection; no
late reply closes another connection than the active one; and the teardown gets past the channel. -/
structure Orderly (s : Lifecycle) (e : Event) : Prop where
  quiet : e = .shutdown → s.main.settingUp = false ∧ s.checker.adopted = none ∧ s.checker.pending = []
  connects : s.shutdownRequested = true → e = .main .success → ∀ retry, s.main ≠ .connecting retry
  finds : s.shutdownRequested = true → ∀ count c t rest pending, e = .checker .success count →
    s.checker = .inspecting c t rest pending → count = 0
  interrupted : e = .checkerInterrupted → s.checker.temporary = none
  channel : ∀ reply count c, e = .checker reply count → reply ≠ .success → s.checker ≠ .openingChannel c
  current : ∀ c, HearsClose s e (.connection c) .success → s.Current c
  teardown : ∀ c, e = .main .timedOut → s.main = .closing (.channel c) →
    s.activeConnection = none ∨ s.activeConnection = some 0

/-! ## Registrations -/

theorem settingUp_step (hstep : s.step timing e = some s') (hup : s'.main.settingUp = true) :
    s.main.settingUp = true ∨ e = .main .success ∧ ∃ retry, s.main = .connecting retry := by
  have hmain := (turn_step hstep).main
  generalize hpc : s'.main = pc at hmain
  rw [hpc] at hup
  cases hmain with
  | same _ => exact .inl hup
  | consumes hold _ =>
    rcases hold with ⟨u, hold, _⟩ | ⟨u, hold, _⟩ <;> rw [hold] <;> exact .inl rfl
  | runs _ _ | closes _ | exits _ => cases hup
  | stops hstopping _ _ => cases pc <;> cases hup <;> cases hstopping
  | @opens reply _ hopening _ _ =>
    cases reply with
    | success =>
      cases hold : s.main with
      | openingChannel | settingQos | declaring => exact .inl rfl
      | connecting retry => exact .inr ⟨rfl, retry, rfl⟩
      | starting =>
        have heq : s.mainSucceeds = some s' := hstep
        rw [mainSucceeds, hold] at heq
        cases heq
        rw [← hpc] at hup
        dsimp only at hup
        split at hup <;> cases hup
      | consuming | running | stoppingTimers | stoppingConsumers | stoppingChecker | closing | exited =>
        rw [hold] at hopening
        cases hopening
    | failure | timedOut =>
      have heq : s.mainFails _ = some s' := hstep
      rw [mainFails] at heq
      cases hold : s.main with
      | openingChannel | settingQos | declaring => exact .inl rfl
      | connecting retry =>
        rw [hold] at heq
        dsimp only at heq
        split at heq <;> cases heq <;> rw [← hpc] at hup <;> cases hup
      | starting =>
        rw [hold] at heq
        cases heq
        rw [← hpc] at hup
        cases hup
      | consuming | running | stoppingTimers | stoppingConsumers | stoppingChecker | closing | exited =>
        rw [hold] at hopening
        cases hopening

/-- A checker whose turn it is not stays where it is, or starts, or is interrupted. -/
theorem checker_of_other (hstep : s.step timing e = some s') (he : e.ofChecker = false) :
    s'.checker = s.checker ∨ s'.checker = .sleeping ∧ (∃ c t, s.main = .consuming c t []) ∨
      e = .checkerInterrupted ∧ s'.checker = .exited := by
  have hchecker := (turn_step hstep).checker
  generalize hpc : s'.checker = pc at hchecker
  cases hchecker with
  | same _ => exact .inl rfl
  | starts hmain => exact .inr (.inl ⟨rfl, _, _, hmain⟩)
  | interrupted _ => exact .inr (.inr ⟨rfl, rfl⟩)
  | stays _ _ _ | opens _ _ | adopts _ _ | declares _ _ _ | consumes _ _ _ _ | covered _ _ _ | recovered _ _ _
  | failsOn _ _ | failed _ _ | closes _ _ | requests _ _ _ => cases he
  | drops he' _ _ _ | reconnects he' _ _ | fails he' _ _ => cases he.symm.trans he'

theorem pending_checkerWakes (s : Lifecycle) : (s.checkerWakes timing).checker.pending = [] := by
  have hrecover : ∀ s : Lifecycle, s.recoverConsumers.checker.pending = [] := by
    intro s
    rw [recoverConsumers]
    split <;> rfl
  rw [checkerWakes]
  split
  · exact hrecover s
  · split
    · exact hrecover s
    · split
      · exact pending_checkerSleeps s
      · split
        · exact pending_checkerSleeps s
        · exact hrecover _

/-- Only a passive declare that finds messages makes a recovery register consumers. -/
theorem pending_of_step (hstep : s.step timing e = some s') {u : EntityType} (hu : u ∈ s'.checker.pending) :
    u ∈ s.checker.pending ∨
      ∃ count c rest pending, e = .checker .success count ∧ s.checker = .inspecting c u rest pending ∧ 0 < count := by
  by_cases he : e.ofChecker = true
  · cases e with
    | checkerWakes =>
      obtain ⟨_, heq⟩ := Option.ite_none_right_eq_some.mp hstep
      cases heq
      rw [pending_checkerWakes] at hu
      cases hu
    | checker reply count =>
      obtain ⟨_, heq⟩ := Option.ite_none_left_eq_some.mp hstep
      rcases pending_step (r := (reply, count)) heq hu with hold | ⟨c, rest, pending, hpc, hreply, hcount⟩
      · exact .inl hold
      · cases hreply
        exact .inr ⟨count, c, rest, pending, rfl, hpc, hcount⟩
    | tick | shutdown | main | mainCancelled | checkerInterrupted | taskWakes | task | taskInterrupted | deliver
    | settled => cases he
  · rcases checker_of_other hstep (Bool.not_eq_true _ ▸ he) with hsame | ⟨hpc, _⟩ | ⟨_, hpc⟩
    · exact .inl (hsame ▸ hu)
    · rw [hpc] at hu
      cases hu
    · rw [hpc] at hu
      cases hu

/-- A recovery that adopts its connection has found messages. -/
theorem adopted_of_step (hstep : s.step timing e = some s') (hadopted : s'.checker.adopted ≠ none) :
    s.checker.adopted ≠ none ∨ s'.checker.pending ≠ [] := by
  obtain ⟨c, hc⟩ := Option.ne_none_iff_exists'.mp hadopted
  have hchecker := (turn_step hstep).checker
  generalize hpc : s'.checker = pc at hchecker
  rw [hpc] at hadopted hc
  cases hchecker with
  | same _ => exact .inl hadopted
  | declares hold _ _ =>
    refine .inl ?_
    rcases hold with ⟨_, hold⟩ | ⟨_, _, _, hold⟩ <;> rw [hold] <;> exact nofun
  | consumes hold _ _ _ => exact .inl (by rw [hold]; exact nofun)
  | @adopts c count t pending pending' hold _ =>
    refine .inr fun hempty => ?_
    obtain ⟨_, heq⟩ := Option.ite_none_left_eq_some.mp hstep
    have hsucceeds : s.checkerSucceeds count = some s' := heq
    rw [checkerSucceeds, hold] at hsucceeds
    dsimp only at hsucceeds
    generalize (if 0 < count then pending ++ [t] else pending) = found at hsucceeds
    split at hsucceeds
    · cases hsucceeds
      cases hpc
    · rename_i hsome
      cases hsucceeds
      cases hpc
      exact hsome (List.isEmpty_iff.mpr hempty)
  | starts _ | interrupted _ | drops _ _ _ _ | reconnects _ _ _ | fails _ _ _ | failsOn _ _ => cases hc
  | opens _ hunplugged => rw [(CheckerPc.of_unplugged hunplugged).1] at hc; cases hc
  | stays _ hidle _ | covered _ hidle _ | recovered _ hidle _ | failed _ hidle | closes _ hidle | requests _ hidle _ =>
    rw [(CheckerPc.of_idle hidle).1] at hc
    cases hc

/-- Nobody is on the way to register consumers. -/
structure Quiet (s : Lifecycle) : Prop where
  main : s.main.settingUp = false
  adopted : s.checker.adopted = none
  pending : s.checker.pending = []

theorem quiet_step (h : s.shutdownRequested = true → s.Quiet) (hok : s.Orderly e) (hstep : s.step timing e = some s')
    (hshutdown : s'.shutdownRequested = true) : s'.Quiet := by
  by_cases he : e = .shutdown
  · obtain ⟨hmain, hadopted, hpending⟩ := hok.quiet he
    subst he
    cases hstep
    exact ⟨hmain, hadopted, hpending⟩
  · have hshutdown₀ : s.shutdownRequested = true := by
      rw [← shutdownRequested_step (turn_step hstep).tables he, hshutdown]
    obtain ⟨hmain, hadopted, hpending⟩ := h hshutdown₀
    have hpending' : s'.checker.pending = [] := by
      refine List.eq_nil_iff_forall_not_mem.mpr fun u hu => ?_
      rcases pending_of_step hstep hu with hold | ⟨count, c, rest, pending, he', hpc, hcount⟩
      · rw [hpending] at hold
        cases hold
      · rw [hok.finds hshutdown₀ count c u rest pending he' hpc] at hcount
        cases hcount
    refine ⟨Bool.eq_false_iff.mpr fun hup => ?_, ?_, hpending'⟩
    · rcases settingUp_step hstep hup with hold | ⟨he', retry, hpc⟩
      · cases hmain.symm.trans hold
      · exact hok.connects hshutdown₀ he' retry hpc
    · by_contra hne
      rcases adopted_of_step hstep hne with hold | hfound
      · exact hold hadopted
      · exact hfound hpending'

theorem Quiet.not_hearsConsume (h : s.Quiet) (t : EntityType) (q : Nat) : ¬HearsConsume s e t q := by
  intro hhears
  cases hhears with
  | main hpc =>
    have hmain := h.main
    rw [hpc] at hmain
    cases hmain
  | checker hpc =>
    have hadopted := h.adopted
    rw [hpc] at hadopted
    cases hadopted

/-! ## Connections -/

/-- A temporary connection is kept, closed or adopted, unless the recovery is interrupted or
cannot open its channel. -/
theorem temporary_step (hok : s.Orderly e) (hstep : s.step timing e = some s') (hsound : s.Sound)
    (hc : s.checker.temporary = some c) :
    s'.checker.temporary = some c ∨ WaitsForClose c s' ∨ s'.activeConnection = some c := by
  by_cases he : e.ofChecker = true
  · cases e with
    | checkerWakes =>
      obtain ⟨⟨hpc, _⟩, _⟩ := Option.ite_none_right_eq_some.mp hstep
      rw [hpc] at hc
      cases hc
    | checker reply count =>
      obtain ⟨_, heq⟩ := Option.ite_none_left_eq_some.mp hstep
      cases reply with
      | failure | timedOut =>
        have hfails : s.checkerFails _ = some s' := heq
        rw [checkerFails] at hfails
        cases hpc : s.checker with
        | openingChannel c' => exact absurd hpc (hok.channel _ _ c' rfl (by rintro ⟨⟩))
        | inspecting c' t rest pending | closingTempChannel c' =>
          rw [hpc] at hfails hc
          cases hc
          cases hfails
          exact .inr (.inr rfl)
        | absent | sleeping | dropping | connecting | settingQos | declaring | consuming | closingTempConnection
        | failing | exited =>
          rw [hpc] at hc
          cases hc
      | success =>
        have hsucceeds : s.checkerSucceeds count = some s' := heq
        rw [checkerSucceeds] at hsucceeds
        cases hpc : s.checker with
        | openingChannel c' =>
          rw [hpc] at hsucceeds hc
          cases hc
          cases hsucceeds
          exact .inl rfl
        | closingTempChannel c' =>
          rw [hpc] at hsucceeds hc
          cases hc
          cases hsucceeds
          exact .inr (.inl (.temporary rfl))
        | inspecting c' t rest pending =>
          rw [hpc] at hsucceeds hc
          cases hc
          dsimp only at hsucceeds
          generalize (if 0 < count then pending ++ [t] else pending) = found at hsucceeds
          cases rest with
          | cons t rest =>
            cases hsucceeds
            exact .inl rfl
          | nil =>
            dsimp only at hsucceeds
            split at hsucceeds
            · cases hsucceeds
              exact .inl rfl
            · cases hsucceeds
              exact .inr (.inr rfl)
        | absent | sleeping | dropping | connecting | settingQos | declaring | consuming | closingTempConnection
        | failing | exited =>
          rw [hpc] at hc
          cases hc
    | tick | shutdown | main | mainCancelled | checkerInterrupted | taskWakes | task | taskInterrupted | deliver
    | settled => cases he
  · rcases checker_of_other hstep (Bool.not_eq_true _ ▸ he) with hsame | ⟨_, c', t, hmain⟩ | ⟨hinterrupted, _⟩
    · exact .inl (hsame ▸ hc)
    · rw [hsound.phases.startup (by rw [hmain]; rfl)] at hc
      cases hc
    · cases (hok.interrupted hinterrupted).symm.trans hc

theorem HearsClose.waits {reply : Reply} (h : HearsClose s e (.connection c) reply) : WaitsForClose c s := by
  generalize hp : ClosePc.connection c = p at h
  cases h with
  | main hpc => exact .main (hp ▸ hpc)
  | dropping hpc | failing hpc => exact .checker (by rw [hpc, hp]; rfl)
  | task hpc _ => exact .task (hp ▸ hpc)

/-- The active connection stays, unless it is closed. -/
theorem active_step (hok : s.Orderly e) (hsound : s.Sound) (hadopted : ∀ c, s.checker.adopted = some c → s.Current c)
    (hstep : s.step timing e = some s') (hc : s.activeConnection = some c) :
    s'.activeConnection = some c ∨ s'.activeConnection = none ∧ WaitsForClose c s := by
  have htransport := transport_step hsound.phases hstep
  have hthere : s.hasTransport = false → False := by
    intro hgone
    cases hc.symm.trans (hasTransport_eq_false.mp hgone).1
  have hclosed : ∀ {p reply t}, HearsClose s e p reply → Closes s.toTransport p reply t → WaitsForClose c s := by
    intro p reply t hhears hcloses
    cases hcloses with
    | connection c₀ =>
      have heq : c₀ = c := (hok.current c₀ hhears).eq hc
      exact heq ▸ HearsClose.waits hhears
    | channel c₀ hnone => cases hc.symm.trans hnone
    | noop c₀ hnone _ => cases hc.symm.trans hnone
  generalize s'.toTransport = t at htransport
  cases htransport with
  | same | request | reset _ _ _ | startWatch _ _ | register _ _ | tempChannelClosed _ _ | tempConnectionClosed _ _
  | openChannel _ _ | closeChannel _ _ => exact .inl hc
  | cancel _ _ =>
    rw [forgetConsumer]
    split <;> exact .inl hc
  | closed hhears hcloses =>
    exact .inr ⟨(hasTransport_eq_false.mp hcloses.hasTransport).1, hclosed hhears hcloses⟩
  | dropped hhears _ _ hcloses =>
    exact .inr ⟨(hasTransport_eq_false.mp hcloses.hasTransport).1, hclosed hhears hcloses⟩
  | connect _ hpc =>
    have hconn := (hsound.opening (by rw [hpc]; rfl)).connection
    rw [hpc] at hconn
    cases hc.symm.trans hconn
  | adopt _ _ hgone => exact (hthere hgone).elim
  | @adoptFailed _ c₁ _ hopened =>
    refine .inl (congrArg some ?_)
    by_cases hunplugged : s.checker.unplugged = true
    · exact (hthere (hsound.phases.unplugged hunplugged)).elim
    · exact (hadopted c₁ (CheckerPc.adopted_of_opened hopened (Bool.not_eq_true _ ▸ hunplugged))).eq hc

/-- What is known of the connections: each was tried to be closed, is active, or temporary. -/
structure Accounted (timing : Timing) (now : Int) (es : List Event) (s : Lifecycle) : Prop where
  sound : s.Sound
  quiet : s.shutdownRequested = true → s.Quiet
  connections : ∀ c < s.connections, TriedToClose timing now es c ∨ s.activeConnection = some c ∨
    s.checker.temporary = some c
  adopted : ∀ c, s.checker.adopted = some c → s.Current c
  closing : ∀ c, s.main = .closing (.connection c) → s.Current c

theorem accounted_init (timing : Timing) (now : Int) : Accounted timing now [] { now := now } :=
  ⟨sound_init now, nofun, nofun, nofun, nofun⟩

/-- No other connection becomes active while `main` closes, or a recovery registers its consumers. -/
theorem current_step (hsound : s.Sound) (hstep : s.step timing e = some s') (hcurrent : s.Current c)
    (hstarted : s.main.opening = false) (hopened : ∀ c', s.checker.opened = some c' → c' = c) : s'.Current c := by
  have htransport := transport_step hsound.phases hstep
  have hsame : ∀ t : Transport, t.activeConnection = s.activeConnection → t.Current c := by
    intro t ht
    rw [Current, ht]
    exact hcurrent
  generalize s'.toTransport = t at htransport
  cases htransport with
  | same | request | reset _ _ _ | startWatch _ _ | register _ _ | tempChannelClosed _ _ | tempConnectionClosed _ _
  | openChannel _ _ | closeChannel _ _ => exact hsame _ rfl
  | cancel _ _ =>
    rw [forgetConsumer]
    split <;> exact hsame _ rfl
  | closed _ hcloses | dropped _ _ _ hcloses => exact .inr (hasTransport_eq_false.mp hcloses.hasTransport).1
  | connect _ hpc =>
    rw [hpc] at hstarted
    cases hstarted
  | adopt _ hpc _ => exact .inl (congrArg some (hopened _ (by rw [hpc]; rfl)))
  | adoptFailed _ hopened' => exact .inl (congrArg some (hopened _ hopened'))

theorem Accounted.adopted_step (h : Accounted timing now es s) (hstep : s.step timing e = some s')
    (hc : s'.checker.adopted = some c) : s'.Current c := by
  rcases (turn_step hstep).checker.adopted hc with hold | ⟨_, hadopt⟩
  · refine current_step h.sound hstep (h.adopted c hold) ?_ ?_
    · rw [Bool.eq_false_iff]
      intro hopening
      rw [h.sound.phases.startup (MainPc.startup_of_opening hopening)] at hold
      cases hold
    · exact fun c' hc' => Option.some.inj (hc'.symm.trans (CheckerPc.opened_of_adopted hold))
  · rw [hadopt]
    exact .inl rfl

theorem Accounted.closing_step (h : Accounted timing now es s) (hstep : s.step timing e = some s')
    (hpc : s'.main = .closing (.connection c)) : s'.Current c := by
  have hmain := (turn_step hstep).main
  rw [hpc] at hmain
  rcases hmain.closing with hold | ⟨_, hclose | hconn⟩
  · refine current_step h.sound hstep (h.closing c hold) (by rw [hold]; rfl) fun c' hc' => ?_
    rcases h.sound.closing _ hold with hgone | hgone <;> rw [hgone] at hc' <;> cases hc'
  · rw [Transport.closeRabbitmqConnection] at hclose
    split at hclose
    · cases hclose
    · obtain ⟨c', hc', heq⟩ := Option.map_eq_some_iff.mp hclose
      cases heq
      exact .inl hc'
  · exact .inl hconn

theorem Accounted.connections_step {ok : Lifecycle → Event → Prop} (h : Accounted timing now es s)
    (hrun : Runs.Run (step timing) ok { now := now } es s) (hok : s.Orderly e) (hstep : s.step timing e = some s') :
    ∀ c < s'.connections, TriedToClose timing now (es ++ [e]) c ∨ s'.activeConnection = some c ∨
      s'.checker.temporary = some c := by
  have hold : ∀ c < s.connections, TriedToClose timing now (es ++ [e]) c ∨ s'.activeConnection = some c ∨
      s'.checker.temporary = some c := by
    intro c hlt
    have htried : ∀ {es' s''}, Runs.Run (step timing) (fun _ _ => True) { now := now } es' s'' → WaitsForClose c s'' →
        TriedToClose timing now es' c := fun hrun hwaits => Runs.Run.visits hrun hwaits
    have hrun₀ := hrun.mono fun _ _ _ => trivial
    rcases h.connections c hlt with hclosed | hconn | htemporary
    · exact .inl (hclosed.append [e])
    · rcases active_step hok h.sound h.adopted hstep hconn with hkept | ⟨_, hwaits⟩
      · exact .inr (.inl hkept)
      · exact .inl ((htried hrun₀ hwaits).append [e])
    · rcases temporary_step hok hstep h.sound htemporary with hkept | hwaits | hconn
      · exact .inr (.inr hkept)
      · exact .inl (htried (.snoc hrun₀ trivial hstep) hwaits)
      · exact .inr (.inl hconn)
  intro c hlt
  cases Lifecycle.connections_step hstep with
  | same hcarries => exact hold c (hcarries.connections ▸ hlt)
  | startup _ hcount _ hconn =>
    rcases Nat.lt_succ_iff_lt_or_eq.mp (hcount ▸ hlt) with hlt' | rfl
    · exact hold c hlt'
    · exact .inr (.inl hconn)
  | recovery _ hpc hcount _ =>
    rcases Nat.lt_succ_iff_lt_or_eq.mp (hcount ▸ hlt) with hlt' | rfl
    · exact hold c hlt'
    · exact .inr (.inr (by rw [hpc]; rfl))

theorem Accounted.step {ok : Lifecycle → Event → Prop} (h : Accounted timing now es s)
    (hrun : Runs.Run (Lifecycle.step timing) ok { now := now } es s) (hok : s.Orderly e)
    (hstep : s.step timing e = some s') : Accounted timing now (es ++ [e]) s' where
  sound := h.sound.step hstep
  quiet := quiet_step h.quiet hok hstep
  connections := h.connections_step hrun hok hstep
  adopted _ := h.adopted_step hstep
  closing _ := h.closing_step hstep

theorem accounted_of_run (hrun : Runs.Run (step timing) Orderly { now := now } es s) : Accounted timing now es s := by
  induction hrun with
  | nil => exact accounted_init timing now
  | snoc hrun hok hstep ih => exact ih.step hrun hok hstep

/-! ## When the teardown returns -/

/-- The connection that is still active was tried to be closed, or is that of startup. -/
theorem active_of_closing {p : ClosePc} {reply : Reply} (hpc : s.main = .closing p)
    (hcurrent : ∀ c, p = .connection c → s.Current c)
    (hchannel : ∀ c, p = .channel c → reply = .timedOut → s.activeConnection = none ∨ s.activeConnection = some 0)
    (hexited : (s.mainCloses p reply).main = .exited) (hc : (s.mainCloses p reply).activeConnection = some c) :
    WaitsForClose c s ∨ c = 0 := by
  have hnext : (s.closeReplied p reply).2 = none ∧ (s.closeReplied p reply).1.activeConnection = some c := by
    rw [mainCloses] at hexited hc
    dsimp only at hexited hc
    split at hexited
    · cases hexited
    · rename_i hnone
      rw [hnone] at hc
      exact ⟨hnone, hc⟩
  obtain ⟨hnone, hconn⟩ := hnext
  cases p with
  | connection c' =>
    have hactive : s.activeConnection = some c := by
      cases reply with
      | success => cases hconn
      | failure | timedOut => exact hconn
    rw [← (hcurrent c' rfl).eq hactive]
    exact .inl (.main hpc)
  | channel c₀ =>
    refine .inr ?_
    cases reply with
    | timedOut =>
      have hactive : s.activeConnection = some c := hconn
      rcases hchannel c₀ rfl rfl with hgone | hstartup
      · cases hgone.symm.trans hactive
      · exact Option.some.inj (hactive.symm.trans hstartup)
    | success =>
      rw [closeReplied, closeConnection] at hnone hconn
      cases hactive : s.activeConnection with
      | some c' =>
        simp only [hactive] at hnone
        cases hnone
      | none =>
        simp only [hactive, closeEnds, Option.isSome_none] at hconn
        cases hconn
    | failure =>
      rw [closeReplied, closeConnection] at hnone hconn
      cases hactive : s.activeConnection with
      | some c' =>
        simp only [hactive] at hnone
        cases hnone
      | none =>
        simp only [hactive, closeEnds] at hconn
        split at hconn <;> cases hactive.symm.trans hconn

theorem Returns.active (h : Returns s e s') (haccounted : Accounted timing now es s) (hok : s.Orderly e)
    (hstep : s.step timing e = some s') (hc : s'.activeConnection = some c) : WaitsForClose c s ∨ c = 0 := by
  obtain ⟨hteardown, hreply, hexited⟩ := h
  cases e with
  | main reply =>
    rcases hteardown with hpc | ⟨p, hpc⟩
    · cases reply with
      | failure | timedOut =>
        have heq : s.mainFails _ = some s' := hstep
        rw [mainFails, hpc] at heq
        cases heq
      | success =>
        have heq : s.mainSucceeds = some s' := hstep
        rw [mainSucceeds, hpc] at heq
        dsimp only at heq
        split at heq
        · split at heq
          · cases heq
            cases hexited
          · rename_i hclose
            cases heq
            cases (hasTransport_eq_false.mp (closeRabbitmqConnection_eq_none.mp hclose)).1.symm.trans hc
        · cases heq
    · have hcloses : s' = s.mainCloses p reply := by
        cases reply with
        | success =>
          have heq : s.mainSucceeds = some s' := hstep
          rw [mainSucceeds, hpc] at heq
          exact (Option.some.inj heq).symm
        | failure | timedOut =>
          have heq : s.mainFails _ = some s' := hstep
          rw [mainFails, hpc] at heq
          exact (Option.some.inj heq).symm
      subst hcloses
      refine active_of_closing hpc ?_ ?_ hexited hc
      · rintro c' rfl
        exact haccounted.closing c' hpc
      · rintro c' rfl rfl
        exact hok.teardown c' rfl hpc
  | tick | shutdown | mainCancelled | checkerWakes | checker | checkerInterrupted | taskWakes | task | taskInterrupted
  | deliver | settled => cases hreply

theorem Returns.temporary (h : Returns s e s') (hsound : s.Sound) (hstep : s.step timing e = some s') :
    s'.checker.temporary = none := by
  obtain ⟨hteardown, hreply, _⟩ := h
  have hother : e.ofChecker = false := by cases e <;> first | rfl | cases hreply
  have hgone : s.checker = .exited ∨ s.checker = .absent := by
    rcases hteardown with hpc | ⟨p, hpc⟩
    · cases e with
      | main reply =>
        cases reply with
        | failure | timedOut =>
          have heq : s.mainFails _ = some s' := hstep
          rw [mainFails, hpc] at heq
          cases heq
        | success =>
          have heq : s.mainSucceeds = some s' := hstep
          rw [mainSucceeds, hpc] at heq
          dsimp only at heq
          split at heq
          · rename_i hgone
            exact hgone
          · cases heq
      | tick | shutdown | mainCancelled | checkerWakes | checker | checkerInterrupted | taskWakes | task
      | taskInterrupted | deliver | settled => cases hreply
    · exact hsound.closing p hpc
  rcases checker_of_other hstep hother with hsame | ⟨hpc, _⟩ | ⟨_, hpc⟩
  · rw [hsame]
    rcases hgone with hpc | hpc <;> rw [hpc] <;> rfl
  · rw [hpc]
    rfl
  · rw [hpc]
    rfl

/-- In an orderly run nothing is subscribed after the shutdown request, and the teardown
leaves no connection it has not tried to close. -/
theorem leavesNothing_of_orderly {timing : Timing} {now : Int} {es : List Event} {s s' : Lifecycle} {e : Event}
    (hrun : Runs.Run (step timing) Orderly { now := now } es s) (hok : s.Orderly e)
    (hstep : s.step timing e = some s') : LeavesNothing timing now es s e s' := by
  have haccounted := accounted_of_run hrun
  refine ⟨fun hshutdown t q => (haccounted.quiet hshutdown).not_hearsConsume t q, fun hreturns c hpos hlt => ?_⟩
  rcases (haccounted.step hrun hok hstep).connections c hlt with htried | hconn | htemporary
  · exact htried
  · rcases hreturns.active haccounted hok hstep hconn with hwaits | rfl
    · have hvisits : Runs.Visits (step timing) { now := now } es (WaitsForClose c) := Runs.Run.visits hrun hwaits
      exact hvisits.append [e]
    · cases hpos
  · cases (hreturns.temporary haccounted.sound hstep).symm.trans htemporary

/-- Turns that are orderly, as a test. -/
def Event.orderly (s : Lifecycle) : Event → Bool
  | .shutdown => !s.main.settingUp && decide (s.checker.adopted = none) && decide (s.checker.pending = [])
  | .main .success =>
    match s.main with
    | .connecting _ => !s.shutdownRequested
    | .closing (.connection c) => decide (s.activeConnection = some c)
    | _ => true
  | .checker .success _ =>
    !s.shutdownRequested && match s.checker.closes with
      | some (.connection c) => decide (s.activeConnection = some c)
      | _ => true
  | .task id _ =>
    match (s.tasks id).pc with
    | .closing _ => false
    | _ => true
  | .checkerInterrupted => decide (s.checker.temporary = none)
  | .tick _ | .checkerWakes | .taskWakes _ | .deliver _ _ => true
  | _ => false

theorem orderly_of_test (h : e.orderly s = true) : s.Orderly e := by
  have hclose : ∀ {p reply}, HearsClose s e p reply → ∀ c, p = .connection c → reply = .success → s.Current c := by
    intro p reply hhears c hp hreply
    subst hp hreply
    generalize hp : ClosePc.connection c = p at hhears
    generalize hr : Reply.success = reply at hhears
    cases hhears with
    | main hpc =>
      subst hr hp
      simp only [Event.orderly, hpc, decide_eq_true_eq] at h
      exact .inl h
    | dropping hpc | failing hpc =>
      subst hr hp
      simp only [Event.orderly, hpc, CheckerPc.closes, Bool.and_eq_true, decide_eq_true_eq] at h
      exact .inl h.2
    | task hpc _ =>
      simp only [Event.orderly, hpc] at h
      cases h
  cases e with
  | shutdown =>
    simp only [Event.orderly, Bool.and_eq_true, Bool.not_eq_true', decide_eq_true_eq] at h
    exact ⟨fun _ => ⟨h.1.1, h.1.2, h.2⟩, nofun, nofun, nofun, nofun, fun c hhears => hclose hhears c rfl rfl, nofun⟩
  | main reply =>
    cases reply with
    | failure | timedOut => cases h
    | success =>
      refine ⟨nofun, fun hshutdown _ retry hpc => ?_, nofun, nofun, nofun, fun c hhears => hclose hhears c rfl rfl, nofun⟩
      simp only [Event.orderly, hpc, hshutdown] at h
      cases h
  | checker reply count =>
    cases reply with
    | failure | timedOut => cases h
    | success =>
      refine ⟨nofun, nofun, fun hshutdown => ?_, nofun, fun reply count c he hreply => ?_,
        fun c hhears => hclose hhears c rfl rfl, nofun⟩
      · simp only [Event.orderly, hshutdown] at h
        cases h
      · cases he
        exact absurd rfl hreply
  | checkerInterrupted =>
    exact ⟨nofun, nofun, nofun, fun _ => of_decide_eq_true h, nofun, fun c hhears => hclose hhears c rfl rfl, nofun⟩
  | task id reply | tick seconds | checkerWakes | taskWakes id | deliver t message =>
    exact ⟨nofun, nofun, nofun, nofun, nofun, fun c hhears => hclose hhears c rfl rfl, nofun⟩
  | mainCancelled | taskInterrupted | settled => cases h

/-- A recovery to the end, a shutdown, and the teardown but for its last turn. -/
def recoverThenStop : List Event :=
  dropAfterFailedCancel ++ .checker .success 0 :: recoverAll ++ [.shutdown, .main .success] ++
    [1, 2, 3, 4].flatMap (fun id => [.taskWakes id, .task id .success]) ++
    [.main .success, .checkerInterrupted, .main .success, .main .success]

theorem leavesNothing_of_orderly_recovered : ∃ s s' : Lifecycle, s'.main = .exited ∧ s'.connections = 2 ∧
    LeavesNothing {} 1 recoverThenStop s (.main .success) s' := by
  obtain ⟨s, hrun, hpc, hconn, hconnections⟩ : ∃ s,
      Runs.Run (Runs.guarded (step {}) fun s e => e.orderly s = true) (fun _ _ => True) { now := 1 } recoverThenStop s ∧
      s.main = .closing (.connection 1) ∧ s.activeConnection = some 1 ∧ s.connections = 2 :=
    Runs.exists_run (by decide +kernel)
  have hrun' := (Runs.run_of_guarded hrun).mono fun _ _ => orderly_of_test
  have hstep : s.step {} (.main .success) = some (s.mainCloses (.connection 1) .success) := by
    have heq : s.mainSucceeds = some (s.mainCloses (.connection 1) .success) := by
      rw [mainSucceeds, hpc]
    exact heq
  refine ⟨s, s.mainCloses (.connection 1) .success, rfl, hconnections,
    leavesNothing_of_orderly hrun' (orderly_of_test ?_) hstep⟩
  simp only [Event.orderly, hpc, hconn, decide_true]

/-- A shutdown is requested while the recovery waits for its first consumer. -/
def stopWhileConsuming : List Event :=
  dropAfterFailedCancel ++ .checker .success 0 :: recoverAll.take 11 ++ [.shutdown]

/-- A shutdown while the recovery has its connection, and looks for messages. -/
def stopWhileInspecting : List Event :=
  dropAfterFailedCancel ++ .checker .success 0 :: recoverAll.take 2 ++ [.shutdown, .main .success, .checkerInterrupted]

/-- A consumer is registered after the request, and a connection is left open. -/
theorem teardown_leaves_something :
    (¬∀ (es : List Event) (s s' : Lifecycle) (e : Event), Runs.Run (step {}) (fun _ _ => True) { now := 1 } es s →
      s.step {} e = some s' → s.shutdownRequested = true → ∀ t q, ¬HearsConsume s e t q) ∧
    ¬∀ (es : List Event) (s s' : Lifecycle) (e : Event), Runs.Run (step {}) (fun _ _ => True) { now := 1 } es s →
      s.step {} e = some s' → Returns s e s' → ∀ c, 0 < c → c < s'.connections → TriedToClose {} 1 (es ++ [e]) c := by
  constructor
  · intro h
    obtain ⟨s, hrun, hpc, hshutdown, hcancelled⟩ : ∃ s,
        Runs.Run (step {}) (fun _ _ => True) { now := 1 } stopWhileConsuming s ∧
        s.checker = .consuming 1 1 .artists musicbrainzDataTypes.tail musicbrainzDataTypes ∧
        s.shutdownRequested = true ∧ s.checkerCancelled = false :=
      Runs.exists_run (by decide +kernel)
    refine h _ s ((s.consumerRecovered 1 .artists musicbrainzDataTypes).consumeNext 1 musicbrainzDataTypes
      musicbrainzDataTypes.tail) (.checker .success 0) hrun ?_ hshutdown _ _ (.checker hpc)
    have heq : s.checkerSucceeds 0 = some ((s.consumerRecovered 1 .artists musicbrainzDataTypes).consumeNext 1
        musicbrainzDataTypes musicbrainzDataTypes.tail) := by
      rw [checkerSucceeds, hpc]
    rw [step, hcancelled]
    exact heq
  · intro h
    obtain ⟨s, hrun, hpc, hgone, hclose, hconnections⟩ : ∃ s,
        Runs.Run (step {}) (fun _ _ => True) { now := 1 } stopWhileInspecting s ∧ s.main = .stoppingChecker ∧
        s.checker = .exited ∧ s.closeRabbitmqConnection = none ∧ s.connections = 2 :=
      Runs.exists_run (by decide +kernel)
    have hstep : s.step {} (.main .success) = some { s with main := .exited } := by
      have heq : s.mainSucceeds = some { s with main := .exited } := by
        rw [mainSucceeds, hpc]
        dsimp only
        rw [if_pos (.inl hgone), hclose]
      exact heq
    obtain ⟨es₁, es₂, s₁, hes, hrun₁, hwaits⟩ := h _ s _ _ hrun hstep ⟨.inl hpc, rfl, rfl⟩ 1 (by decide)
      (by rw [hconnections]; decide)
    have hprefix : es₁ = (stopWhileInspecting ++ [Event.main .success]).take es₁.length := by
      rw [hes, List.take_left]
    have hlength : es₁.length ≤ 25 := by
      have hall : (stopWhileInspecting ++ [Event.main .success]).length = 25 := by decide
      have htotal := hall.symm.trans (congrArg List.length hes)
      rw [List.length_append] at htotal
      omega
    have hall : ∀ n ≤ 25, (Runs.exec (step {}) { now := 1 } ((stopWhileInspecting ++ [Event.main .success]).take n)).all
        (fun s => decide (s.main ≠ .closing (.connection 1) ∧ s.checker.closes ≠ some (.connection 1) ∧
          s.checker ≠ .closingTempConnection 1 ∧ (s.tasks 0).pc ≠ .closing (.connection 1) ∧ s.taskCount ≤ 1)) = true := by
      decide +kernel
    have hnone := hall es₁.length hlength
    rw [← hprefix, Runs.exec_of_run hrun₁] at hnone
    obtain ⟨hmain, hcloses, htemporary, htask, hcount⟩ := of_decide_eq_true hnone
    cases hwaits with
    | main hpc => exact hmain hpc
    | checker hpc => exact hcloses hpc
    | temporary hpc => exact htemporary hpc
    | @task id hpc =>
      rcases Nat.eq_zero_or_pos id with rfl | hpos
      · exact htask hpc
      · cases ((sound_of_run hrun₁).phases.timers.fresh id (hcount.trans hpos)).symm.trans hpc

end Lifecycle

end Brainzgraphinator
