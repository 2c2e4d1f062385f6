-- SUMMARY: The states a recovery ends in when nothing else takes a turn meanwhile.
import Brainzgraphinator.Base.Runs
import Brainzgraphinator.Lifecycle.Turns

/-!
# Recovery

`_recover_consumers` on its own, from any state and with any reply to each of its broker
calls. It ends with all consumers on the new connection, or with none and no transport, or
with another recovery asked for. The connection it opened is held or was closed as well as
could be, but for one whose channel could not be opened: that one is forgotten open.
-/

namespace Brainzgraphinator

/-- The types whose queue was seen to hold messages. -/
def CheckerPc.pending : CheckerPc → List EntityType
  | .inspecting _ _ _ pending | .settingQos _ pending | .declaring _ _ _ _ pending
  | .consuming _ _ _ _ pending => pending
  | _ => []

namespace Lifecycle

open Transport

variable {s₀ s s' : Lifecycle} {rs : List (Reply × Nat)} {r : Reply × Nat}

/-- The broker call of the recovery has ended, with the message count if it was a passive declare. -/
def recoveryStep (s : Lifecycle) (r : Reply × Nat) : Option Lifecycle := s.checkerReplied r.1 r.2

def Recovery (s₀ : Lifecycle) (rs : List (Reply × Nat)) (s : Lifecycle) : Prop :=
  Runs.Run recoveryStep (fun _ _ => True) s₀.recoverConsumers rs s

/-- The recovery has called `close` on the connection it has opened. -/
def AttemptsClose (s : Lifecycle) (c : Nat) : Prop :=
  s.checker = .closingTempConnection c ∨ s.checker = .failing (.connection c)

def CloseAttempted (s₀ : Lifecycle) (rs : List (Reply × Nat)) (c : Nat) : Prop :=
  Runs.Visits recoveryStep s₀.recoverConsumers rs fun s => s.AttemptsClose c

/-- A passive declare has found messages in the queue of `t`. -/
def SeenPending (s₀ : Lifecycle) (rs : List (Reply × Nat)) (t : EntityType) : Prop :=
  ∃ rs₁ count rs₂ s c rest pending, rs = rs₁ ++ (.success, count) :: rs₂ ∧ s₀.Recovery rs₁ s ∧
    s.checker = .inspecting c t rest pending ∧ 0 < count

inductive Consistent (s₀ s : Lifecycle) : Prop
  | recovered {c : Nat} : s₀.connections ≤ c → c < s.connections → s.activeConnection = some c →
      (∀ t, ∃ tag, s.consumerTags t = some ⟨tag, c⟩) → Consistent s₀ s
  | closed : (∀ t, s.consumerTags t = none) → s.activeConnection = none → s.activeChannel = none →
      Consistent s₀ s
  | requested : s.consumerRecoveryRequested = true → Consistent s₀ s

structure RecoveryEnds (s₀ : Lifecycle) (rs : List (Reply × Nat)) (s : Lifecycle) : Prop where
  consistent : Consistent s₀ s
  connections : ∀ c, s₀.connections ≤ c → c < s.connections →
    s.activeConnection = some c ∨ s₀.CloseAttempted rs c
  completedFiles : ∀ t, s₀.completedFiles t = true → s.completedFiles t = false → s₀.SeenPending rs t

/-! ## Where a recovery is -/

def Unsubscribed (s : Lifecycle) : Prop := s.hasTransport = false ∧ ∀ t, s.consumerTags t = none

/-- The recovery holds the connection it has opened. -/
structure Holds (s₀ s : Lifecycle) : Prop where
  activeConnection : s.activeConnection = some s₀.connections
  activeChannel : s.activeChannel = some s₀.connections
  connections : s.connections = s₀.connections + 1

/-- What a recovery has done so far, by where it waits. The connection it opens is the next
number. -/
inductive Recovering (s₀ : Lifecycle) (rs : List (Reply × Nat)) (s : Lifecycle) : CheckerPc → Prop
  | dropping {p : ClosePc} : (∀ t, s.consumerTags t ≠ none → s.hasTransport = true) →
      s.connections = s₀.connections → (∀ c, ¬s₀.CloseAttempted rs c) → Recovering s₀ rs s (.dropping p)
  | connecting : s.Unsubscribed → s.connections = s₀.connections → (∀ c, ¬s₀.CloseAttempted rs c) →
      Recovering s₀ rs s .connecting
  | openingChannel : s.Unsubscribed → s.connections = s₀.connections + 1 → (∀ c, ¬s₀.CloseAttempted rs c) →
      Recovering s₀ rs s (.openingChannel s₀.connections)
  /-- The connection is a temporary one. -/
  | temporary {pc : CheckerPc} : pc.unplugged = true → pc.opened = some s₀.connections → s.Unsubscribed →
      s.connections = s₀.connections + 1 → Recovering s₀ rs s pc
  | settingQos {pending : List EntityType} : Holds s₀ s → (∀ t, s.consumerTags t = none) →
      Recovering s₀ rs s (.settingQos s₀.connections pending)
  | declaring {t : EntityType} {rest pending : List EntityType} : Holds s₀ s → (∀ t, s.consumerTags t = none) →
      (∀ u, u ∈ t :: rest ∨ s.queues u = some s₀.connections) →
      Recovering s₀ rs s (.declaring s₀.connections s₀.connections t rest pending)
  | consuming {t : EntityType} {rest pending : List EntityType} : Holds s₀ s →
      (∀ u, s.queues u = some s₀.connections) → (∀ u r, s.consumerTags u = some r → r.channel = s₀.connections) →
      (∀ u, u ∈ t :: rest ∨ s.consumerTags u ≠ none) →
      Recovering s₀ rs s (.consuming s₀.connections s₀.connections t rest pending)
  | failing {p : ClosePc} : s.consumerRecoveryRequested = true → s.activeConnection = some s₀.connections →
      s.connections = s₀.connections + 1 → p.number = s₀.connections → Recovering s₀ rs s (.failing p)
  | ended {pc : CheckerPc} : pc.idle = true → Consistent s₀ s →
      (∀ c, s₀.connections ≤ c → c < s.connections → s.activeConnection = some c ∨ s₀.CloseAttempted rs c) →
      Recovering s₀ rs s pc

theorem Unsubscribed.consistent (h : s.Unsubscribed) : Consistent s₀ s :=
  .closed h.2 (hasTransport_eq_false.mp h.1).1 (hasTransport_eq_false.mp h.1).2

/-- The recovery is over, and has opened no connection. -/
theorem Recovering.ended_unopened {pc : CheckerPc} (hidle : pc.idle = true) (hconsistent : Consistent s₀ s)
    (hconnections : s.connections = s₀.connections) : Recovering s₀ rs s pc := by
  refine .ended hidle hconsistent fun c hle hlt => ?_
  rw [hconnections] at hlt
  exact absurd hlt (Nat.not_lt.mpr hle)

/-- The recovery is over, and only the connection it has opened is to be accounted for. -/
theorem Recovering.ended_opened {pc : CheckerPc} (hidle : pc.idle = true) (hconsistent : Consistent s₀ s)
    (hconnections : s.connections = s₀.connections + 1)
    (hheld : s.activeConnection = some s₀.connections ∨ s₀.CloseAttempted rs s₀.connections) :
    Recovering s₀ rs s pc := by
  refine .ended hidle hconsistent fun c hle hlt => ?_
  rw [hconnections] at hlt
  obtain rfl : c = s₀.connections := Nat.le_antisymm (Nat.lt_succ_iff.mp hlt) hle
  exact hheld

theorem Recovering.of_opened {c : Nat} {pc : CheckerPc} (h : Recovering s₀ rs s pc) (hpc : pc.opened = some c) :
    c = s₀.connections ∧ s.connections = s₀.connections + 1 := by
  cases h with
  | dropping _ _ _ | connecting _ _ _ | openingChannel _ _ _ | failing _ _ _ _ => cases hpc
  | temporary _ hopened _ hconnections => exact ⟨Option.some.inj (hpc.symm.trans hopened), hconnections⟩
  | settingQos hholds _ | declaring hholds _ _ | consuming hholds _ _ _ =>
    cases hpc
    exact ⟨rfl, hholds.connections⟩
  | ended hidle _ _ =>
    cases pc <;> cases hidle <;> cases hpc

theorem Recovering.ends {pc : CheckerPc} (h : Recovering s₀ rs s pc) (hidle : pc.idle = true) : Consistent s₀ s ∧
    ∀ c, s₀.connections ≤ c → c < s.connections → s.activeConnection = some c ∨ s₀.CloseAttempted rs c := by
  cases h with
  | ended _ hconsistent hconnections => exact ⟨hconsistent, hconnections⟩
  | temporary hunplugged _ _ _ =>
    rw [CheckerPc.idle_of_unplugged hunplugged] at hidle
    cases hidle
  | dropping _ _ _ | connecting _ _ _ | openingChannel _ _ _ | settingQos _ _ | declaring _ _ _ | consuming _ _ _ _
  | failing _ _ _ _ => cases hidle

/-! ## One call after another -/

theorem idle_eq_false_of_recoveryStep (hstep : s.recoveryStep r = some s') : s.checker.idle = false := by
  obtain ⟨reply, count⟩ := r
  rw [Bool.eq_false_iff]
  intro hidle
  cases hpc : s.checker with
  | absent | sleeping | exited =>
    cases reply with
    | success =>
      have heq : s.checkerSucceeds count = some s' := hstep
      rw [checkerSucceeds, hpc] at heq
      cases heq
    | failure | timedOut =>
      have heq : s.checkerFails _ = some s' := hstep
      rw [checkerFails, hpc] at heq
      cases heq
  | dropping | connecting | openingChannel | inspecting | settingQos | declaring | consuming | closingTempChannel
  | closingTempConnection | failing =>
    rw [hpc] at hidle
    cases hidle

theorem closeAttempted_snoc (hrun : s₀.Recovery rs s) (hstep : s.recoveryStep r = some s') (c : Nat) :
    s₀.CloseAttempted (rs ++ [r]) c ↔ s₀.CloseAttempted rs c ∨ s'.AttemptsClose c :=
  Runs.visits_snoc hrun hstep

/-- The transport was dropped, and the reconnect begins. -/
theorem recovering_reconnect (hgone : s.hasTransport = false)
    (htags : ∀ t, s.consumerTags t ≠ none → s.hasTransport = true) (hconnections : s.connections = s₀.connections)
    (hnot : ∀ c, ¬s₀.CloseAttempted rs c) : Recovering s₀ rs s.reconnect .connecting := by
  refine .connecting ⟨hgone, fun t => ?_⟩ hconnections hnot
  by_contra ht
  cases hgone.symm.trans (htags t ht)

theorem recovering_recoverConsumers (h : ∀ t, s₀.consumerTags t ≠ none → s₀.hasTransport = true) :
    Recovering s₀ [] s₀.recoverConsumers s₀.recoverConsumers.checker := by
  rw [recoverConsumers]
  have hnot : ∀ c, s₀.recoverConsumers.checker = .connecting ∨ (∃ p, s₀.recoverConsumers.checker = .dropping p) →
      ¬s₀.CloseAttempted [] c := by
    intro c hpc hattempted
    have hclosing : s₀.recoverConsumers.AttemptsClose c :=
      (Runs.visits_nil (P := fun s : Lifecycle => s.AttemptsClose c)).mp hattempted
    rcases hclosing with hc | hc
    · rcases hpc with hpc | ⟨p, hpc⟩ <;> cases hpc.symm.trans hc
    · rcases hpc with hpc | ⟨p, hpc⟩ <;> cases hpc.symm.trans hc
  split
  · rename_i p hclose
    refine .dropping h rfl fun c => hnot c (.inr ⟨p, ?_⟩)
    rw [recoverConsumers, hclose]
  · rename_i hclose
    refine recovering_reconnect (closeRabbitmqConnection_eq_none.mp hclose) h rfl fun c => hnot c (.inl ?_)
    rw [recoverConsumers, hclose]
    rfl

theorem recovering_dropping {p : ClosePc} (htags : ∀ t, s.consumerTags t ≠ none → s.hasTransport = true)
    (hconnections : s.connections = s₀.connections) (reply : Reply)
    (hnot : (s.droppingReplied p reply).checker = .connecting ∨
      (∃ p', (s.droppingReplied p reply).checker = .dropping p') → ∀ c, ¬s₀.CloseAttempted rs c) :
    Recovering s₀ rs (s.droppingReplied p reply) (s.droppingReplied p reply).checker := by
  revert hnot
  rw [droppingReplied]
  rcases closeReplied_cases s.toTransport p reply with
    ⟨c, c₀, _, hconn, ⟨_, heq⟩ | ⟨_, heq⟩⟩ | heq | ⟨t, hcloses, heq⟩
  · rw [heq]
    intro hnot
    refine .dropping (fun t _ => ?_) hconnections (hnot (.inr ⟨_, rfl⟩))
    rw [Transport.hasTransport, hconn]
    rfl
  · rw [heq]
    intro hnot
    exact .dropping htags hconnections (hnot (.inr ⟨_, rfl⟩))
  · rw [heq]
    dsimp only
    rw [dropped]
    split
    · intro _
      exact .ended_unopened (idle_checkerSleeps _) (.requested rfl) hconnections
    · rename_i hgone
      intro hnot
      exact recovering_reconnect (Bool.not_eq_true _ ▸ hgone) htags hconnections (hnot (.inl rfl))
  · rw [heq]
    have hgone : t.forgetConnection.hasTransport = false := hcloses.hasTransport
    dsimp only
    rw [dropped, if_neg (by rw [hgone]; exact Bool.false_ne_true)]
    intro hnot
    exact recovering_reconnect hgone (fun u hu => absurd rfl hu) hconnections (hnot (.inl rfl))

/-- What was opened is held, and closed next. -/
theorem recovering_recoveryFailed (hconnections : s.connections = s₀.connections + 1) :
    Recovering s₀ rs (s.recoveryFailed s₀.connections) (s.recoveryFailed s₀.connections).checker :=
  .failing rfl rfl hconnections rfl

theorem recovering_failing {p : ClosePc} (hflag : s.consumerRecoveryRequested = true)
    (hconn : s.activeConnection = some s₀.connections) (hconnections : s.connections = s₀.connections + 1)
    (hnumber : p.number = s₀.connections) (reply : Reply)
    (hattempted : ∀ c, p = .connection c → s₀.CloseAttempted rs c) :
    Recovering s₀ rs (s.failingReplied p reply) (s.failingReplied p reply).checker := by
  rw [failingReplied]
  rcases closeReplied_cases s.toTransport p reply with
    ⟨c, c₀, _, hconn', ⟨_, heq⟩ | ⟨_, heq⟩⟩ | heq | ⟨t, hcloses, heq⟩
  · rw [heq]
    exact .failing hflag hconn hconnections (Option.some.inj (hconn'.symm.trans hconn))
  · rw [heq]
    exact .failing hflag hconn hconnections (Option.some.inj (hconn'.symm.trans hconn))
  · rw [heq]
    exact .ended_opened (idle_checkerSleeps _) (.requested rfl) hconnections (.inl hconn)
  · rw [heq]
    cases hcloses with
    | connection c =>
      refine .ended_opened (idle_checkerSleeps _) (.requested hflag) hconnections (.inr ?_)
      exact hnumber ▸ hattempted c rfl
    | channel c hnone => cases hconn.symm.trans hnone
    | noop c hnone _ => cases hconn.symm.trans hnone

theorem recovering_declareNext {t : EntityType} {rest pending : List EntityType} (hholds : Holds s₀ s)
    (htags : ∀ t, s.consumerTags t = none) (hqueues : ∀ u, u ∈ t :: rest ∨ s.queues u = some s₀.connections) :
    Recovering s₀ rs (s.declareNext s₀.connections t rest pending)
      (s.declareNext s₀.connections t rest pending).checker := by
  rw [declareNext, hholds.activeChannel]
  exact .declaring ⟨hholds.activeConnection, hholds.activeChannel, hholds.connections⟩ htags hqueues

theorem recovering_consumeNext {pending types : List EntityType} (hholds : Holds s₀ s)
    (hqueues : ∀ u, s.queues u = some s₀.connections)
    (htags : ∀ u r, s.consumerTags u = some r → r.channel = s₀.connections)
    (hcovered : ∀ u, u ∈ types ∨ s.consumerTags u ≠ none) :
    Recovering s₀ rs (s.consumeNext s₀.connections pending types)
      (s.consumeNext s₀.connections pending types).checker := by
  induction types with
  | nil =>
    rw [consumeNext]
    refine .ended_opened (idle_checkerSleeps _) ?_ hholds.connections (.inl hholds.activeConnection)
    refine .recovered (Nat.le_refl _) ?_ hholds.activeConnection fun t => ?_
    · rw [show s.checkerSleeps.connections = s₀.connections + 1 from hholds.connections]
      exact Nat.lt_succ_self _
    · rcases hcovered t with hmem | ht
      · cases hmem
      · obtain ⟨⟨tag, q⟩, hr⟩ := Option.ne_none_iff_exists'.mp ht
        exact ⟨tag, by rw [← htags t _ hr]; exact hr⟩
  | cons t rest ih =>
    rw [consumeNext, hqueues t]
    cases ht : s.consumerTags t with
    | none =>
      exact .consuming ⟨hholds.activeConnection, hholds.activeChannel, hholds.connections⟩ hqueues htags hcovered
    | some r =>
      refine ih fun u => ?_
      rcases hcovered u with hmem | hu
      · rcases List.mem_cons.mp hmem with rfl | hrest
        · exact .inr (by rw [ht]; rintro ⟨⟩)
        · exact .inl hrest
      · exact .inr hu

theorem Holds.consumerRecovered (h : Holds s₀ s) (q : Nat) (t : EntityType) (pending : List EntityType) :
    Holds s₀ (s.consumerRecovered q t pending) := ⟨h.activeConnection, h.activeChannel, h.connections⟩

/-- A temporary connection is inspected, adopted or closed. -/
theorem recovering_temporary {count : Nat} {pc : CheckerPc} (hpc : s.checker = pc) (hunplugged : pc.unplugged = true)
    (hopened : pc.opened = some s₀.connections) (hgone : s.Unsubscribed) (hconnections : s.connections = s₀.connections + 1)
    (hattempted : ∀ c, s.AttemptsClose c → s₀.CloseAttempted rs c) (hstep : s.checkerSucceeds count = some s') :
    Recovering s₀ rs s' s'.checker := by
  rw [checkerSucceeds, hpc] at hstep
  cases pc with
  | inspecting c t rest pending =>
    cases hopened
    dsimp only at hstep
    generalize (if 0 < count then pending ++ [t] else pending) = pending' at hstep
    cases rest with
    | cons t rest =>
      cases hstep
      exact .temporary rfl rfl hgone hconnections
    | nil =>
      dsimp only at hstep
      split at hstep
      · cases hstep
        exact .temporary rfl rfl hgone hconnections
      · cases hstep
        exact .settingQos ⟨rfl, rfl, hconnections⟩ hgone.2
  | closingTempChannel c =>
    cases hopened
    cases hstep
    exact .temporary rfl rfl ⟨hgone.1, hgone.2⟩ hconnections
  | closingTempConnection c =>
    cases hopened
    cases hstep
    refine .ended_opened (idle_checkerSleeps _) ?_ hconnections (.inr (hattempted _ (.inl hpc)))
    exact .closed hgone.2 (hasTransport_eq_false.mp hgone.1).1 (hasTransport_eq_false.mp hgone.1).2
  | connecting | openingChannel | absent | sleeping | dropping | settingQos | declaring | consuming | failing
  | exited => cases hunplugged <;> cases hopened

/-- A queue is declared, and the next one or the first consumer comes. -/
theorem recovering_declared {count : Nat} {t : EntityType} {rest pending : List EntityType}
    (hpc : s.checker = .declaring s₀.connections s₀.connections t rest pending) (hholds : Holds s₀ s)
    (htags : ∀ t, s.consumerTags t = none) (hqueues : ∀ u, u ∈ t :: rest ∨ s.queues u = some s₀.connections)
    (hstep : s.checkerSucceeds count = some s') : Recovering s₀ rs s' s'.checker := by
  rw [checkerSucceeds, hpc] at hstep
  have hholds' : Holds s₀ { s with queues := Function.update s.queues t (some s₀.connections) } :=
    ⟨hholds.activeConnection, hholds.activeChannel, hholds.connections⟩
  have hdeclared : ∀ u, u ∈ rest ∨ Function.update s.queues t (some s₀.connections) u = some s₀.connections := by
    intro u
    by_cases hu : u = t
    · rw [hu]
      exact .inr (Function.update_self t _ s.queues)
    · rw [Function.update_of_ne hu]
      rcases hqueues u with hmem | hq
      · exact .inl ((List.mem_cons.mp hmem).resolve_left hu)
      · exact .inr hq
  dsimp only at hstep
  cases rest with
  | cons t rest =>
    cases hstep
    rw [← hpc]
    exact recovering_declareNext hholds' htags hdeclared
  | nil =>
    cases hstep
    rw [← hpc]
    refine recovering_consumeNext hholds' (fun u => (hdeclared u).resolve_left List.not_mem_nil) ?_ ?_
    · exact fun u r hr => absurd hr (by rw [htags u]; rintro ⟨⟩)
    · exact fun u => .inl (mem_musicbrainzDataTypes u)

/-- A consumer is registered, and the next one comes. -/
theorem recovering_consumed {count : Nat} {t : EntityType} {rest pending : List EntityType}
    (hpc : s.checker = .consuming s₀.connections s₀.connections t rest pending) (hholds : Holds s₀ s)
    (hqueues : ∀ u, s.queues u = some s₀.connections)
    (htags : ∀ u r, s.consumerTags u = some r → r.channel = s₀.connections)
    (hcovered : ∀ u, u ∈ t :: rest ∨ s.consumerTags u ≠ none) (hstep : s.checkerSucceeds count = some s') :
    Recovering s₀ rs s' s'.checker := by
  rw [checkerSucceeds, hpc] at hstep
  cases hstep
  refine recovering_consumeNext (hholds.consumerRecovered _ t pending) hqueues ?_ ?_
  · intro u r hr
    by_cases hu : u = t
    · rw [hu] at hr
      cases (registerConsumer_self s.toTransport s.now t s₀.connections).symm.trans hr
      rfl
    · exact htags u r ((Function.update_of_ne hu _ s.consumerTags).symm.trans hr)
  · intro u
    by_cases hu : u = t
    · rw [hu]
      refine .inr ?_
      rw [show (s.consumerRecovered s₀.connections t pending).consumerTags t = _ from
        registerConsumer_self s.toTransport s.now t s₀.connections]
      rintro ⟨⟩
    · rcases hcovered u with hmem | hne
      · exact .inl ((List.mem_cons.mp hmem).resolve_left hu)
      · refine .inr ?_
        rw [show (s.consumerRecovered s₀.connections t pending).consumerTags u = s.consumerTags u from
          Function.update_of_ne hu _ s.consumerTags]
        exact hne

/-- The awaits of a recovery, when they succeed. -/
theorem Recovering.succeeds {count : Nat} (hrun : s₀.Recovery rs s) (h : Recovering s₀ rs s s.checker)
    (hstep : s.checkerSucceeds count = some s') : Recovering s₀ (rs ++ [(.success, count)]) s' s'.checker := by
  have hnot : ∀ c, ¬s₀.CloseAttempted rs c → ¬s'.AttemptsClose c → ¬s₀.CloseAttempted (rs ++ [(.success, count)]) c := by
    intro c hold hclosing hattempted
    rcases (closeAttempted_snoc hrun (r := (.success, count)) hstep c).mp hattempted with hc | hc
    · exact hold hc
    · exact hclosing hc
  have hattempted : ∀ c, s.AttemptsClose c → s₀.CloseAttempted (rs ++ [(.success, count)]) c :=
    fun c hc => (Runs.Run.visits hrun hc).append _
  have hsucceeds := hstep
  rw [checkerSucceeds] at hstep
  generalize hpc : s.checker = pc at h hstep
  cases h with
  | ended hidle _ _ =>
    cases pc <;> cases hidle <;> cases hstep
  | dropping htags hconnections hold =>
    cases hstep
    refine recovering_dropping htags hconnections .success fun hpc' c => hnot c (hold c) ?_
    rintro (hc | hc)
    · rcases hpc' with hpc' | ⟨_, hpc'⟩ <;> cases hpc'.symm.trans hc
    · rcases hpc' with hpc' | ⟨_, hpc'⟩ <;> cases hpc'.symm.trans hc
  | connecting hgone hconnections hold =>
    cases hstep
    rw [hconnections]
    exact .openingChannel hgone rfl fun c => hnot c (hold c) (by rintro (hc | hc) <;> cases hc)
  | openingChannel hgone hconnections _ =>
    cases hstep
    exact .temporary rfl rfl hgone hconnections
  | temporary hunplugged hopened hgone hconnections =>
    exact recovering_temporary hpc hunplugged hopened hgone hconnections hattempted hsucceeds
  | settingQos hholds htags =>
    cases hstep
    refine recovering_declareNext ⟨hholds.activeConnection, hholds.activeChannel, hholds.connections⟩ htags ?_
    exact fun u => .inl (mem_musicbrainzDataTypes u)
  | declaring hholds htags hqueues => exact recovering_declared hpc hholds htags hqueues hsucceeds
  | consuming hholds hqueues htags hcovered => exact recovering_consumed hpc hholds hqueues htags hcovered hsucceeds
  | @failing p hflag hconn hconnections hnumber =>
    cases hstep
    exact recovering_failing hflag hconn hconnections hnumber .success
      fun c hc => hattempted c (.inr (by rw [hpc, hc]))

/-- The awaits of a recovery, when they raise; but for that of `temp_connection.channel()`. -/
theorem Recovering.fails {reply : Reply} {count : Nat} (hrun : s₀.Recovery rs s) (h : Recovering s₀ rs s s.checker)
    (hreply : reply ≠ .success) (hchannel : ∀ c, s.checker ≠ .openingChannel c)
    (hstep : s.checkerFails reply = some s') : Recovering s₀ (rs ++ [(reply, count)]) s' s'.checker := by
  have hstep' : s.recoveryStep (reply, count) = some s' := by
    cases reply with
    | success => exact absurd rfl hreply
    | failure | timedOut => exact hstep
  have hnot : ∀ c, ¬s₀.CloseAttempted rs c → ¬s'.AttemptsClose c → ¬s₀.CloseAttempted (rs ++ [(reply, count)]) c := by
    intro c hold hclosing hattempted
    rcases (closeAttempted_snoc hrun hstep' c).mp hattempted with hc | hc
    · exact hold hc
    · exact hclosing hc
  have hattempted : ∀ c, s.AttemptsClose c → s₀.CloseAttempted (rs ++ [(reply, count)]) c :=
    fun c hc => (Runs.Run.visits hrun hc).append _
  have hfailed : ∀ {c}, s.checker.opened = some c → s' = s.recoveryFailed c →
      Recovering s₀ (rs ++ [(reply, count)]) s' s'.checker := by
    rintro c hopened rfl
    obtain ⟨rfl, hconnections⟩ := h.of_opened hopened
    exact recovering_recoveryFailed hconnections
  rw [checkerFails] at hstep
  cases hpc : s.checker with
  | absent | sleeping | exited => rw [hpc] at hstep; cases hstep
  | openingChannel c => exact absurd hpc (hchannel c)
  | inspecting c t rest pending | settingQos c pending | declaring c q t rest pending
  | consuming c q t rest pending | closingTempChannel c | closingTempConnection c =>
    rw [hpc] at hstep
    cases hstep
    exact hfailed (by rw [hpc]; rfl) rfl
  | dropping p =>
    rw [hpc] at hstep h
    cases hstep
    cases h with
    | temporary hunplugged _ _ _ => cases hunplugged
    | ended hidle _ _ => cases hidle
    | dropping htags hconnections hold =>
      refine recovering_dropping htags hconnections reply fun hpc' c => hnot c (hold c) ?_
      rintro (hc | hc)
      · rcases hpc' with hpc' | ⟨_, hpc'⟩ <;> cases hpc'.symm.trans hc
      · rcases hpc' with hpc' | ⟨_, hpc'⟩ <;> cases hpc'.symm.trans hc
  | connecting =>
    rw [hpc] at hstep h
    cases hstep
    cases h with
    | temporary _ hopened _ _ => cases hopened
    | ended hidle _ _ => cases hidle
    | connecting _ hconnections _ =>
      exact .ended_unopened (idle_checkerSleeps _) (.requested rfl) hconnections
  | failing p =>
    rw [hpc] at hstep h
    cases hstep
    cases h with
    | temporary hunplugged _ _ _ => cases hunplugged
    | ended hidle _ _ => cases hidle
    | failing hflag hconn hconnections hnumber =>
      exact recovering_failing hflag hconn hconnections hnumber reply
        fun c hc => hattempted c (.inr (by rw [hpc, hc]))

theorem Recovering.step (hrun : s₀.Recovery rs s) (h : Recovering s₀ rs s s.checker)
    (hstep : s.recoveryStep r = some s') (hok : r.1 ≠ .success → ∀ c, s.checker ≠ .openingChannel c) :
    Recovering s₀ (rs ++ [r]) s' s'.checker := by
  obtain ⟨reply, count⟩ := r
  cases reply with
  | success => exact h.succeeds hrun hstep
  | failure | timedOut => exact h.fails hrun nofun (hok nofun) hstep

/-- A recovery that is not over has not failed to open a channel. -/
theorem recovering_of_recovery (hstart : ∀ t, s₀.consumerTags t ≠ none → s₀.hasTransport = true)
    (hrun : s₀.Recovery rs s) (hbusy : s.checker.idle = false) : Recovering s₀ rs s s.checker := by
  induction hrun with
  | nil => exact recovering_recoverConsumers hstart
  | @snoc rs r s s' hrun _ hstep ih =>
    refine (ih (idle_eq_false_of_recoveryStep hstep)).step hrun hstep fun hfailed c hpc => ?_
    obtain ⟨reply, count⟩ := r
    cases reply with
    | success => exact hfailed rfl
    | failure | timedOut =>
      have heq : s.checkerFails _ = some s' := hstep
      rw [checkerFails, hpc] at heq
      cases heq
      rw [idle_checkerSleeps] at hbusy
      cases hbusy

/-! ## What was seen -/

theorem pending_checkerSleeps (s : Lifecycle) : s.checkerSleeps.checker.pending = [] := by
  rcases s.checkerSleeps_checker with heq | heq <;> rw [heq] <;> rfl

theorem pending_droppingReplied (s : Lifecycle) (p : ClosePc) (reply : Reply) :
    (s.droppingReplied p reply).checker.pending = [] := by
  rw [droppingReplied]
  dsimp only
  split
  · rfl
  · rw [dropped]
    split
    · exact pending_checkerSleeps _
    · rfl

theorem pending_failingReplied (s : Lifecycle) (p : ClosePc) (reply : Reply) :
    (s.failingReplied p reply).checker.pending = [] := by
  rw [failingReplied]
  dsimp only
  split
  · rfl
  · exact pending_checkerSleeps _

theorem mem_pending_declareNext {c : Nat} {t u : EntityType} {rest pending : List EntityType}
    (h : u ∈ (s.declareNext c t rest pending).checker.pending) : u ∈ pending := by
  rw [declareNext] at h
  split at h
  · exact h
  · cases h

theorem mem_pending_consumeNext {c : Nat} {u : EntityType} {types pending : List EntityType}
    (h : u ∈ (s.consumeNext c pending types).checker.pending) : u ∈ pending := by
  rcases consumeNext_cases s c pending types with heq | ⟨q, t, rest, _, _, _, heq⟩
  · rw [heq, pending_checkerSleeps] at h
    cases h
  · rw [heq] at h
    exact h

/-- Only a passive declare that finds messages makes a type pending. -/
theorem pending_step {u : EntityType} (hstep : s.recoveryStep r = some s') (hu : u ∈ s'.checker.pending) :
    u ∈ s.checker.pending ∨
      ∃ c rest pending, s.checker = .inspecting c u rest pending ∧ r.1 = .success ∧ 0 < r.2 := by
  obtain ⟨reply, count⟩ := r
  cases reply with
  | failure | timedOut =>
    have heq : s.checkerFails _ = some s' := hstep
    rw [checkerFails] at heq
    split at heq <;> cases heq
    · rw [pending_droppingReplied] at hu
      cases hu
    · rw [pending_checkerSleeps] at hu
      cases hu
    · rw [pending_checkerSleeps] at hu
      cases hu
    all_goals first | cases hu | (rw [pending_failingReplied] at hu; cases hu)
  | success =>
    have heq : s.checkerSucceeds count = some s' := hstep
    rw [checkerSucceeds] at heq
    cases hpc : s.checker with
    | absent | sleeping | exited => rw [hpc] at heq; cases heq
    | dropping p =>
      rw [hpc] at heq
      cases heq
      rw [pending_droppingReplied] at hu
      cases hu
    | failing p =>
      rw [hpc] at heq
      cases heq
      rw [pending_failingReplied] at hu
      cases hu
    | connecting | openingChannel c | closingTempChannel c =>
      rw [hpc] at heq
      cases heq
      cases hu
    | closingTempConnection c =>
      rw [hpc] at heq
      cases heq
      rw [pending_checkerSleeps] at hu
      cases hu
    | inspecting c t rest pending =>
      -- The queue that was looked at makes its type pending, if it has messages.
      rw [hpc] at heq
      have hnew : u ∈ (if 0 < count then pending ++ [t] else pending) →
          u ∈ pending ∨ ∃ c' rest' pending', CheckerPc.inspecting c t rest pending = .inspecting c' u rest' pending' ∧
            Reply.success = .success ∧ 0 < count := by
        intro hmem
        split at hmem
        · rename_i hcount
          rcases List.mem_append.mp hmem with hold | hnew
          · exact .inl hold
          · cases List.mem_singleton.mp hnew
            exact .inr ⟨c, rest, pending, rfl, rfl, hcount⟩
        · exact .inl hmem
      dsimp only at heq
      generalize (if 0 < count then pending ++ [t] else pending) = pending' at heq hnew
      cases rest with
      | cons t rest =>
        cases heq
        exact hnew hu
      | nil =>
        dsimp only at heq
        split at heq
        · cases heq
          cases hu
        · cases heq
          exact hnew hu
    | settingQos c pending =>
      rw [hpc] at heq
      cases heq
      exact .inl (mem_pending_declareNext hu)
    | declaring c q t rest pending =>
      rw [hpc] at heq
      cases rest with
      | cons t rest =>
        cases heq
        exact .inl (mem_pending_declareNext hu)
      | nil =>
        cases heq
        exact .inl (mem_pending_consumeNext hu)
    | consuming c q t rest pending =>
      rw [hpc] at heq
      cases heq
      exact .inl (mem_pending_consumeNext hu)

/-- A recovery takes from the completed types only one that is pending. -/
theorem completedFiles_step {t : EntityType} (hstep : s.recoveryStep r = some s')
    (hcleared : s'.completedFiles t = false) : s.completedFiles t = false ∨ t ∈ s.checker.pending := by
  obtain ⟨reply, count⟩ := r
  have htables : TablesStep s s' (.checker reply count) := by
    cases reply with
    | success => exact (turn_checkerSucceeds hstep).tables
    | failure | timedOut => exact (turn_checkerFails hstep).tables
  generalize he : Event.checker reply count = e at htables
  cases htables with
  | same hkeeps | forgets hkeeps _ | declares hkeeps _ => exact .inl (hkeeps.completedFiles ▸ hcleared)
  | @recovers c q _ u rest pending hpc hkeeps =>
    rw [hkeeps.completedFiles, consumerRecovered] at hcleared
    dsimp only at hcleared
    split at hcleared
    · rename_i hmem
      by_cases hu : t = u
      · rw [hu, hpc]
        exact .inr hmem
      · exact .inl ((Function.update_of_ne hu false s.completedFiles).symm.trans hcleared)
    · exact .inl hcleared
  | tick _ | shutdown _ | completes _ _ | uncompletes _ | settles _ _ => cases he

theorem SeenPending.append {t : EntityType} (h : s₀.SeenPending rs t) (rs' : List (Reply × Nat)) :
    s₀.SeenPending (rs ++ rs') t := by
  obtain ⟨rs₁, count, rs₂, s, c, rest, pending, rfl, hrun, hpc, hcount⟩ := h
  refine ⟨rs₁, count, rs₂ ++ rs', s, c, rest, pending, ?_, hrun, hpc, hcount⟩
  rw [List.append_assoc, List.cons_append]

theorem seen_of_recovery (hrun : s₀.Recovery rs s) :
    (∀ t ∈ s.checker.pending, s₀.SeenPending rs t) ∧
      ∀ t, s₀.completedFiles t = true → s.completedFiles t = false → s₀.SeenPending rs t := by
  induction hrun with
  | nil =>
    have hstart : s₀.recoverConsumers.checker.pending = [] ∧ s₀.recoverConsumers.completedFiles = s₀.completedFiles := by
      rw [recoverConsumers]
      split <;> exact ⟨rfl, rfl⟩
    refine ⟨fun t ht => ?_, fun t hold hcleared => ?_⟩
    · rw [hstart.1] at ht
      cases ht
    · rw [hstart.2, hold] at hcleared
      cases hcleared
  | @snoc rs r s s' hrun _ hstep ih =>
    obtain ⟨hpending, hcompleted⟩ := ih
    refine ⟨fun t ht => ?_, fun t hold hcleared => ?_⟩
    · rcases pending_step hstep ht with hmem | ⟨c, rest, pending, hpc, hreply, hcount⟩
      · exact (hpending t hmem).append [r]
      · refine ⟨rs, r.2, [], s, c, rest, pending, ?_, hrun, hpc, hcount⟩
        rw [← hreply]
    · rcases completedFiles_step hstep hcleared with hold' | hmem
      · exact (hcompleted t hold hold').append [r]
      · exact (hpending t hmem).append [r]

/-! ## How a recovery ends -/

/-- A connection whose channel could not be opened is neither held nor closed. -/
theorem not_recoveryEnds_of_openingChannel (h : Recovering s₀ rs s s.checker) (hrun : s₀.Recovery rs s)
    (hstep : s.recoveryStep r = some s') (hreply : r.1 ≠ .success) {c : Nat} (hpc : s.checker = .openingChannel c) :
    ¬RecoveryEnds s₀ (rs ++ [r]) s' := by
  have hs' : s' = { s with toTransport := s.requestRecovery }.checkerSleeps := by
    obtain ⟨reply, count⟩ := r
    cases reply with
    | success => exact absurd rfl hreply
    | failure | timedOut =>
      have heq : s.checkerFails _ = some s' := hstep
      rw [checkerFails, hpc] at heq
      cases heq
      rw [hpc]
  have hidle : s'.checker.idle = true := by
    rw [hs']
    exact idle_checkerSleeps _
  rw [hpc] at h
  cases h with
  | temporary _ hopened _ _ => cases hopened
  | ended hidle _ _ => cases hidle
  | openingChannel hgone hconnections hnot =>
    intro hends
    have hlt : s₀.connections < s'.connections := by
      rw [hs']
      exact hconnections ▸ Nat.lt_succ_self s₀.connections
    rcases hends.connections _ (Nat.le_refl _) hlt with hheld | hattempted
    · rw [hs'] at hheld
      cases (hasTransport_eq_false.mp hgone.1).1.symm.trans hheld
    · rcases (closeAttempted_snoc hrun hstep _).mp hattempted with hold | hclosing
      · exact hnot _ hold
      · rcases hclosing with hc | hc <;> rw [hc] at hidle <;> cases hidle

/-- A recovery that nothing else disturbs ends as it should, whatever its broker calls do,
unless the connection was made and its channel could not be opened. -/
theorem recoveryEnds_iff {s₀ s s' : Lifecycle} {rs : List (Reply × Nat)} {r : Reply × Nat}
    (hstart : ∀ t, s₀.consumerTags t ≠ none → s₀.hasTransport = true) (hrun : s₀.Recovery rs s)
    (hstep : s.recoveryStep r = some s') (hidle : s'.checker.idle = true) :
    RecoveryEnds s₀ (rs ++ [r]) s' ↔ ¬(r.1 ≠ .success ∧ ∃ c, s.checker = .openingChannel c) := by
  have h := recovering_of_recovery hstart hrun (idle_eq_false_of_recoveryStep hstep)
  constructor
  · rintro hends ⟨hreply, c, hpc⟩
    exact not_recoveryEnds_of_openingChannel h hrun hstep hreply hpc hends
  · intro hok
    have h' := h.step hrun hstep fun hreply c hpc => hok ⟨hreply, c, hpc⟩
    have hrun' : s₀.Recovery (rs ++ [r]) s' := .snoc hrun trivial hstep
    obtain ⟨hconsistent, hconnections⟩ := h'.ends hidle
    exact ⟨hconsistent, hconnections, (seen_of_recovery hrun').2⟩

/-- Everything is complete, and the artists are still subscribed. -/
def completedArtists : Lifecycle where
  now := 1
  activeConnection := some 0
  activeChannel := some 0
  connections := 1
  completedFiles := fun _ => true
  consumerTags := fun t => if t = .artists then some ⟨consumerTag .artists, 0⟩ else none

/-- The old connection is dropped, the artists and the releases have a backlog, and all are subscribed but the releases. -/
def backlogRecovery : List (Reply × Nat) :=
  List.replicate 4 (.success, 0) ++ [(.success, 5), (.success, 0), (.success, 0), (.success, 3)] ++
    List.replicate 8 (.success, 0)

theorem recoveryEnds_iff_backlog : ∃ s s', completedArtists.Recovery backlogRecovery s ∧
    s.recoveryStep (.success, 0) = some s' ∧
    musicbrainzDataTypes.filter s'.completedFiles = [.labels, .releaseGroups] ∧
    (RecoveryEnds completedArtists (backlogRecovery ++ [(.success, 0)]) s' ↔
      ¬(Reply.success ≠ .success ∧ ∃ c, s.checker = .openingChannel c)) := by
  obtain ⟨s, hrun, hlast⟩ : ∃ s, completedArtists.Recovery backlogRecovery s ∧
      (s.recoveryStep (.success, 0)).any (fun s' => s'.checker.idle &&
        decide (musicbrainzDataTypes.filter s'.completedFiles = [.labels, .releaseGroups])) = true :=
    Runs.exists_run (by decide +kernel)
  obtain ⟨s', hstep, hends⟩ := (Option.any_eq_true _ _).mp hlast
  obtain ⟨hidle, hcompleted⟩ := Bool.and_eq_true_iff.mp hends
  exact ⟨s, s', hrun, hstep, of_decide_eq_true hcompleted, recoveryEnds_iff (fun _ _ => rfl) hrun hstep hidle⟩

/-- The connection is there, and the broker refuses its channel. -/
theorem recovery_leaks_connection : ¬∀ (s₀ : Lifecycle) (rs : List (Reply × Nat)) (s : Lifecycle),
    (∀ t, s₀.consumerTags t ≠ none → s₀.hasTransport = true) → s₀.Recovery rs s → s.checker.idle = true →
      RecoveryEnds s₀ rs s := by
  intro h
  obtain ⟨s, hrun, hpc⟩ : ∃ s, Recovery { now := 0 } [(.success, 0)] s ∧ s.checker = .openingChannel 0 :=
    Runs.exists_run (by decide +kernel)
  have hrecovering := recovering_of_recovery (fun _ ht => absurd rfl ht) hrun (by rw [hpc]; rfl)
  have hstep : s.recoveryStep (.failure, 0) = some { s with toTransport := s.requestRecovery }.checkerSleeps := by
    have heq : s.checkerFails .failure = some { s with toTransport := s.requestRecovery }.checkerSleeps := by
      rw [checkerFails, hpc]
    exact heq
  refine not_recoveryEnds_of_openingChannel hrecovering hrun hstep (by rintro ⟨⟩) hpc ?_
  exact h _ _ _ (fun _ ht => absurd rfl ht) (.snoc hrun trivial hstep) (idle_checkerSleeps _)

end Lifecycle

end Brainzgraphinator
