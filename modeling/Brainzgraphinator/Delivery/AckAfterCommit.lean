-- SUMMARY: A data delivery is acknowledged only after a transaction with its record has committed.
import Brainzgraphinator.Delivery.Service

/-!
# Acknowledge after commit

A delivery hears of its record through a future that a write task settles. What a
task puts into it is tied to the transactions (`Flushes.Inv`, `Failing`), and what
the delivery makes of it to the `except` clauses (`Follows`).
-/

namespace Brainzgraphinator

namespace Flushes

variable {settings : Settings} {s s' : Flushes} {i : Nat}

/-! ## What a failed transaction leaves in the futures -/

/-- The members of a transaction that failed for good, and is not replayed, have its
error, unless their submitters were cancelled. -/
def Failing (s : Flushes) : Prop :=
  ∀ tx ∈ s.failed, tx.2 = .transient ∨ tx.2 ≠ .cancelled ∧ tx.1.length = 1 → ∀ w ∈ tx.1,
    s.batcher.futures w.future = .exception tx.2 ∨ s.batcher.futures w.future = .cancelled

theorem Settles.failed {values : List (PendingWrite × FutureState)} (h : Settles values s s') :
    s'.failed = s.failed := by
  rw [h.eq]
  rfl

theorem failed_replay (i : Nat) (items : List PendingWrite) (s : Flushes) :
    (s.replay i items).failed = s.failed := by
  rw [replay_eq]
  split
  · cases items <;> rfl
  · exact (settles_fail items notInitialized s).failed

theorem failed_commitFailed (i : Nat) (error : Raised) (s : Flushes) :
    (s.commitFailed i error).failed = s.failed := by
  have hfail : ((s.fail (s.batch i) error).setPc i .finished).failed = s.failed :=
    (settles_fail (s.batch i) error s).failed
  cases error with
  | transient => exact hfail
  | cancelled => exact hfail
  | other name =>
    rw [commitFailed]
    split
    · exact hfail
    · exact failed_replay i _ s

theorem failed_settle_replay (item : PendingWrite) (rest : List PendingWrite) {value : FutureState}
    (hvalue : value.done = true) (s : Flushes) :
    ((s.settle item value).replay i rest).failed = s.failed :=
  (failed_replay i rest _).trans (settles_settle item hvalue s).failed

theorem failed_replayRaised (item : PendingWrite) (rest : List PendingWrite) (error : Raised)
    (s : Flushes) : (s.replayRaised i item rest error).failed = s.failed := by
  cases error with
  | cancelled => rfl
  | transient => exact failed_settle_replay item rest rfl s
  | other name => exact failed_settle_replay item rest rfl s

theorem failed_enterCommit (i : Nat) (s : Flushes) : (s.enterCommit i).failed = s.failed := by
  rw [enterCommit]
  split
  · rfl
  · exact failed_commitFailed i notInitialized (s.release i)

theorem failed_start (settings : Settings) (i : Nat) (s : Flushes) :
    (s.start settings i).failed = s.failed := by
  rw [start]
  split
  · rfl
  · exact failed_enterCommit i s

/-- A fresh future that is failed has the error, or was cancelled. -/
theorem settles_fresh {values : List (PendingWrite × FutureState)} {value : FutureState}
    (h : Settles values s s') (hvalues : ∀ v ∈ values, v.2 = value) {w : PendingWrite}
    (hw : w ∈ values.map Prod.fst) (hfresh : s.Fresh w.future) :
    s'.batcher.futures w.future = value ∨ s'.batcher.futures w.future = .cancelled := by
  obtain ⟨v, hv, rfl⟩ := List.mem_map.mp hw
  rcases h.origin v.1.future with hsame | ⟨v', hv', _, heq⟩
  · rcases hfresh with hpending | hcancelled
    · have hdone := h.done v hv
      rw [isDone, Batcher.isDone, hsame, hpending] at hdone
      cases hdone
    · exact .inr (hsame.trans hcancelled)
  · exact .inl (heq.trans (hvalues v' hv'))

theorem fail_fresh {batch : List PendingWrite} {error : Raised} {w : PendingWrite} (hw : w ∈ batch)
    (hfresh : s.Fresh w.future) :
    (s.fail batch error).batcher.futures w.future = .exception error ∨
      (s.fail batch error).batcher.futures w.future = .cancelled := by
  refine settles_fresh (settles_fail batch error s) (fun v hv => ?_) ?_ hfresh
  · obtain ⟨_, _, rfl⟩ := List.mem_map.mp hv
    rfl
  · exact List.mem_map.mpr ⟨(w, .exception error), List.mem_map_of_mem hw, rfl⟩

theorem commitFailed_fresh {error : Raised} {w : PendingWrite} (hw : w ∈ s.batch i)
    (hfresh : s.Fresh w.future) (herror : error = .transient ∨ error ≠ .cancelled ∧ (s.batch i).length = 1) :
    (s.commitFailed i error).batcher.futures w.future = .exception error ∨
      (s.commitFailed i error).batcher.futures w.future = .cancelled := by
  have hfail : (s.fail (s.batch i) error).batcher.futures w.future = .exception error ∨
      (s.fail (s.batch i) error).batcher.futures w.future = .cancelled := fail_fresh hw hfresh
  cases error with
  | transient => exact hfail
  | cancelled => simp at herror
  | other name =>
    have hlength : (s.batch i).length = 1 := by simpa using herror
    rw [commitFailed, if_pos hlength]
    exact hfail

theorem replayRaised_fresh {item : PendingWrite} (rest : List PendingWrite) {error : Raised}
    (hitem : ∀ w ∈ item :: rest, w ∈ s.batch i) (hfresh : s.Fresh item.future)
    (herror : error ≠ .cancelled) :
    (s.replayRaised i item rest error).batcher.futures item.future = .exception error ∨
      (s.replayRaised i item rest error).batcher.futures item.future = .cancelled := by
  have hsettles : Settles [(item, .exception error)] s (s.settle item (.exception error)) :=
    settles_settle item rfl s
  have hvalue := settles_fresh hsettles (fun v hv => by rw [List.mem_singleton.mp hv])
    (List.mem_singleton_self item) hfresh
  have hbatch : (s.settle item (.exception error)).batch i = s.batch i := by
    rw [hsettles.eq]
    rfl
  have hreplay : TaskStep i (s.settle item (.exception error))
      ((s.settle item (.exception error)).replay i rest) :=
    taskStep_replay fun w hw => hbatch ▸ hitem w (List.mem_cons_of_mem _ hw)
  have hkept := hreplay.keeps.futures item.future (hsettles.done _ (List.mem_singleton_self _))
  have hresult : ((s.settle item (.exception error)).replay i rest).batcher.futures item.future =
      .exception error ∨
      ((s.settle item (.exception error)).replay i rest).batcher.futures item.future = .cancelled := by
    rw [hkept]
    exact hvalue
  cases error with
  | cancelled => exact absurd rfl herror
  | transient => exact hresult
  | other name => exact hresult

theorem Failing.of_failed_eq (h : s.Failing) (hkeeps : Keeps s s') (heq : s'.failed = s.failed) :
    s'.Failing := by
  intro tx htx herror w hw
  rw [heq] at htx
  have hold := h tx htx herror w hw
  have hdone : (s.batcher.futures w.future).done = true := by
    rcases hold with hold | hold <;> rw [hold] <;> rfl
  rw [hkeeps.futures w.future hdone]
  exact hold

theorem Failing.resumed (h : s.Failing) (hinv : Inv settings s) {awaited : Awaited}
    (hkeeps : Keeps s (s.resume i awaited)) : (s.resume i awaited).Failing := by
  -- What failed before is kept; what failed in this step is looked at in its branch.
  have hold : ∀ tx ∈ s.failed, tx.2 = .transient ∨ tx.2 ≠ .cancelled ∧ tx.1.length = 1 → ∀ w ∈ tx.1,
      (s.resume i awaited).batcher.futures w.future = .exception tx.2 ∨
        (s.resume i awaited).batcher.futures w.future = .cancelled := by
    intro tx htx herror w hw
    have hvalue := h tx htx herror w hw
    have hdone : (s.batcher.futures w.future).done = true := by
      rcases hvalue with hvalue | hvalue <;> rw [hvalue] <;> rfl
    rw [hkeeps.futures w.future hdone]
    exact hvalue
  unfold resume at hold ⊢
  split at hold
  · rename_i hpc
    intro tx htx
    rw [failed_commitFailed] at htx
    exact hold tx htx
  · exact hold
  · rename_i error hpc
    intro tx htx herror w hw
    rw [failed_commitFailed] at htx
    rcases List.mem_append.mp htx with htx | htx
    · exact hold tx htx herror w hw
    · rw [List.mem_singleton.mp htx] at herror hw ⊢
      have hfresh : s.Fresh w.future := by
        refine hinv.fresh_remaining (i := i) ?_
        rw [remaining, hpc]
        exact hw
      exact commitFailed_fresh (s := (s.release i).failTx (s.batch i) error) hw hfresh herror
  · intro tx htx
    rw [show (setPc i _ _).failed = _ from (settles_setResults _ s).failed] at htx
    exact hold tx htx
  · exact hold
  · exact hold
  · rename_i item rest error hpc
    intro tx htx herror w hw
    rw [failed_replayRaised] at htx
    rcases List.mem_append.mp htx with htx | htx
    · exact hold tx htx herror w hw
    · rw [List.mem_singleton.mp htx] at herror hw ⊢
      rw [List.mem_singleton.mp hw]
      have hitem : ∀ w ∈ item :: rest, w ∈ s.batch i := by
        have hsub := (hinv.remaining i).subset
        rw [remaining, hpc] at hsub
        exact fun w hw => hsub hw
      have hfresh : s.Fresh item.future := by
        refine hinv.fresh_remaining (i := i) ?_
        rw [remaining, hpc]
        exact List.mem_cons_self
      refine replayRaised_fresh (s := s.failTx [item] error) rest hitem hfresh ?_
      rcases herror with herror | herror
      · simp only at herror
        rw [herror]
        rintro ⟨⟩
      · exact herror.1
  · rename_i item matched rest hpc
    intro tx htx
    rw [failed_settle_replay item rest rfl] at htx
    exact hold tx htx
  · rename_i item matched rest error hpc
    intro tx htx
    rw [failed_replayRaised] at htx
    exact hold tx htx
  · exact hold

theorem Failing.apply (h : s.Failing) (hinv : Inv settings s) {e : Event} (he : s.Enabled e) :
    (s.apply settings e).Failing := by
  have hkeeps := hinv.keeps_apply he
  cases e with
  | submit record span => exact h.of_failed_eq hkeeps rfl
  | fire t => exact h.of_failed_eq hkeeps rfl
  | cancelSubmitter future => exact h.of_failed_eq hkeeps rfl
  | setDriver driver => exact h.of_failed_eq hkeeps rfl
  | start i => exact h.of_failed_eq hkeeps (failed_start settings i s)
  | cancelUnstarted i => exact h.of_failed_eq hkeeps rfl
  | acquire i => exact h.of_failed_eq hkeeps (failed_enterCommit i s)
  | resume i awaited => exact h.resumed hinv hkeeps

end Flushes

namespace Service

variable {settings : Settings} {bodies : Nat → Except String Json} {s s' : Service} {d : Nat}

/-! ## What a delivery's result rests on -/

/-- A transaction with the record of delivery `d` has committed and reported this flag. -/
def Committed (s : Service) (d : Nat) (body : Dict) (matched : Bool) : Prop :=
  (∃ tx ∈ s.flushes.committed, ∃ x ∈ tx, x.1.span = d ∧ x.1.record = body ∧ x.2 = matched) ∨
    ⟨d, body, some (.ok matched)⟩ ∈ s.singles

/-- The record of delivery `d` is in the batcher or in a single-record write. -/
def Submitted (s : Service) (d : Nat) : Prop :=
  (∃ w ∈ s.flushes.batcher.submitted, w.span = d) ∨ ∃ w ∈ s.singles, w.delivery = d

/-- Some transaction carries the record of delivery `d`. -/
def Carried (s : Service) (d : Nat) : Prop :=
  (∃ tx ∈ s.flushes.started, ∃ w ∈ tx.2, w.span = d) ∨ ∃ w ∈ s.singles, w.delivery = d

/-- The id is absent or falsy. -/
def Unidentified (body : Dict) : Prop := ∀ id, Dict.get? body "id" = some id → id.truthy = false

/-- What is known of a delivery by where it is. -/
def Sound (bodies : Nat → Except String Json) (s : Service) (d : Nat) : DeliveryPc → Prop
  | .received => ¬s.Submitted d
  | .awaiting future => ∃ w ∈ s.flushes.batcher.submitted, w.span = d ∧ w.future = future
  | .writing => ∃ w ∈ s.singles, w.delivery = d ∧ w.result = none
  | .merging matched => ∃ body, bodies d = .ok (.obj body) ∧ s.Committed d body matched
  | .returned result =>
    match result.settlement with
    | .ack => (∃ body, bodies d = .ok (.obj body) ∧ isTerminal body = true ∧ result.outcome = "control") ∨
        ∃ body matched, bodies d = .ok (.obj body) ∧ result = acked matched ∧ s.Committed d body matched
    | .reject => (∃ body, bodies d = .ok (.obj body) ∧ Unidentified body) ∧ ¬s.Submitted d
    | .requeue => ∃ name, result = ⟨.requeue, "failed", some name⟩
    | .defer => result = ⟨.defer, "shutdown", none⟩ ∧ s.shutdownRequested = true
  | .raised error => error = .transient ∨ error = .cancelled

/-- A delivery in the batcher waits for its future, was cancelled, or has made of the
future's exception what the `except` clauses say. -/
def Follows (bodies : Nat → Except String Json) (s : Service) (w : PendingWrite) : Prop :=
  bodies w.span = .ok (.obj w.record) ∧
    (s.pc w.span = .awaiting w.future ∨ s.pc w.span = .raised .cancelled ∨
      match s.flushes.batcher.futures w.future with
      | .result _ => True
      | .exception error => s.pc w.span = failure error
      | _ => False)

def FollowsSingle (bodies : Nat → Except String Json) (s : Service) (w : SingleWrite) : Prop :=
  bodies w.delivery = .ok (.obj w.record) ∧
    match w.result with
    | none => s.pc w.delivery = .writing
    | some (.ok _) => True
    | some (.error error) => s.pc w.delivery = failure error

structure Inv (settings : Settings) (bodies : Nat → Except String Json) (s : Service) : Prop where
  flushes : Flushes.Inv settings s.flushes
  failing : s.flushes.Failing
  sound : ∀ d, s.Sound bodies d (s.pc d)
  follows : ∀ w ∈ s.flushes.batcher.submitted, s.Follows bodies w
  single : ∀ w ∈ s.singles, s.FollowsSingle bodies w

theorem Inv.init : Inv settings bodies {} where
  flushes := .init
  failing := nofun
  sound _ := by
    rintro (⟨_, hw, _⟩ | ⟨_, hw, _⟩) <;> cases hw
  follows := nofun
  single := nofun

theorem sound_failure (bodies : Nat → Except String Json) (s : Service) (d : Nat) (error : Raised) :
    s.Sound bodies d (failure error) := by
  cases error with
  | transient => exact .inl rfl
  | cancelled => exact .inr rfl
  | other name => exact ⟨name, rfl⟩

/-! ## Frames -/

/-- What is known of a delivery survives what loses none of its commits and its
record, and adds no record of its own. -/
theorem Sound.mono {pc : DeliveryPc} (hs : s.Sound bodies d pc)
    (hcommitted : ∀ body matched, s.Committed d body matched → s'.Committed d body matched)
    (hsub : s'.Submitted d → s.Submitted d)
    (hmem : s.flushes.batcher.submitted ⊆ s'.flushes.batcher.submitted)
    (hwriting : pc = .writing → ∀ w ∈ s.singles, w.delivery = d → w ∈ s'.singles)
    (hshutdown : s.shutdownRequested = true → s'.shutdownRequested = true) :
    s'.Sound bodies d pc := by
  cases pc with
  | received => exact fun h => hs (hsub h)
  | awaiting future =>
    obtain ⟨w, hw, hd, hf⟩ := hs
    exact ⟨w, hmem hw, hd, hf⟩
  | writing =>
    obtain ⟨w, hw, hd, hresult⟩ := hs
    exact ⟨w, hwriting rfl w hw hd, hd, hresult⟩
  | merging matched =>
    obtain ⟨body, hbody, hc⟩ := hs
    exact ⟨body, hbody, hcommitted _ _ hc⟩
  | returned result =>
    rw [Sound] at hs ⊢
    cases hr : result.settlement with
    | ack =>
      rw [hr] at hs
      refine hs.imp_right ?_
      rintro ⟨body, matched, hbody, hresult, hc⟩
      exact ⟨body, matched, hbody, hresult, hcommitted _ _ hc⟩
    | reject =>
      rw [hr] at hs
      exact ⟨hs.1, fun h => hs.2 (hsub h)⟩
    | requeue =>
      rw [hr] at hs
      exact hs
    | defer =>
      rw [hr] at hs
      exact hs.imp_right hshutdown
  | raised error => exact hs

/-- No record is added, and none is lost. -/
structure Extends (s s' : Service) : Prop where
  committed : s.flushes.committed ⊆ s'.flushes.committed
  submitted : s'.flushes.batcher.submitted = s.flushes.batcher.submitted
  deliveries : s'.singles.map SingleWrite.delivery = s.singles.map SingleWrite.delivery
  ended : ∀ w ∈ s.singles, w.result ≠ none → w ∈ s'.singles
  inFlight : ∀ w ∈ s.singles, s'.pc w.delivery = .writing → w ∈ s'.singles
  shutdown : s.shutdownRequested = true → s'.shutdownRequested = true

theorem Extends.submitted_iff (h : Extends s s') : s'.Submitted d ↔ s.Submitted d := by
  have hsingles : ∀ t : Service, (∃ w ∈ t.singles, w.delivery = d) ↔
      d ∈ t.singles.map SingleWrite.delivery := fun t => List.mem_map.symm
  rw [Submitted, Submitted, h.submitted, hsingles, hsingles, h.deliveries]

theorem Extends.sound (h : Extends s s') {pc : DeliveryPc} (hpc : pc = .writing → s'.pc d = .writing)
    (hs : s.Sound bodies d pc) : s'.Sound bodies d pc := by
  refine Sound.mono hs (fun body matched hc => ?_) h.submitted_iff.mp (h.submitted ▸ List.Subset.refl _)
    (fun hwriting w hw hd => h.inFlight w hw (hd ▸ hpc hwriting)) h.shutdown
  exact hc.imp (fun ⟨tx, htx, hx⟩ => ⟨tx, h.committed htx, hx⟩) fun hw => h.ended _ hw nofun

/-! ## Every step -/

theorem failure_ne {error : Raised} {pc : DeliveryPc}
    (h : (∃ future, pc = .awaiting future) ∨ pc = .writing ∨ ∃ matched, pc = .merging matched) :
    pc ≠ failure error := by
  rcases h with ⟨_, rfl⟩ | rfl | ⟨_, rfl⟩ <;> cases error <;> nofun

/-- A single-record write beside a delivery that has moved on has committed. -/
theorem Inv.single_ok (hinv : Inv settings bodies s) {w : SingleWrite} (hw : w ∈ s.singles)
    (hpc : (∃ future, s.pc w.delivery = .awaiting future) ∨ ∃ matched, s.pc w.delivery = .merging matched) :
    ∃ matched, w.result = some (.ok matched) := by
  have hfollows := (hinv.single w hw).2
  cases hr : w.result with
  | none =>
    rw [hr] at hfollows
    rcases hpc with ⟨_, hpc⟩ | ⟨_, hpc⟩ <;> rw [hfollows] at hpc <;> cases hpc
  | some result =>
    cases result with
    | ok matched => exact ⟨matched, rfl⟩
    | error error =>
      rw [hr] at hfollows
      exact absurd hfollows (failure_ne (hpc.imp_right .inr))

/-- A record in the batcher whose delivery writes or merges has its result. -/
theorem Inv.future_result (hinv : Inv settings bodies s) {w : PendingWrite}
    (hw : w ∈ s.flushes.batcher.submitted)
    (hpc : s.pc w.span = .writing ∨ ∃ matched, s.pc w.span = .merging matched) :
    ∃ matched, s.flushes.batcher.futures w.future = .result matched := by
  rcases (hinv.follows w hw).2 with hawaiting | hraised | hvalue
  · rcases hpc with hpc | ⟨_, hpc⟩ <;> rw [hawaiting] at hpc <;> cases hpc
  · rcases hpc with hpc | ⟨_, hpc⟩ <;> rw [hraised] at hpc <;> cases hpc
  · cases hf : s.flushes.batcher.futures w.future with
    | result matched => exact ⟨matched, rfl⟩
    | exception error =>
      rw [hf] at hvalue
      exact absurd hvalue (failure_ne (.inr hpc))
    | pending => rw [hf] at hvalue; exact hvalue.elim
    | cancelled => rw [hf] at hvalue; exact hvalue.elim

/-- A delivery moves on, in keeping with its future and its own transaction. -/
theorem Inv.setPc (hinv : Inv settings bodies s) {pc : DeliveryPc} (hs : s.Sound bodies d pc)
    (hf : ∀ w ∈ s.flushes.batcher.submitted, w.span = d →
      pc = .raised .cancelled ∨ match s.flushes.batcher.futures w.future with
        | .result _ => True
        | .exception error => pc = failure error
        | _ => False)
    (hw : ∀ w ∈ s.singles, w.delivery = d → ∃ matched, w.result = some (.ok matched)) :
    Inv settings bodies (s.setPc d pc) := by
  have hextends : Extends s (s.setPc d pc) :=
    ⟨List.Subset.refl _, rfl, rfl, fun _ h _ => h, fun _ h _ => h, id⟩
  refine ⟨hinv.flushes, hinv.failing, fun d' => ?_, fun w hmem => ⟨(hinv.follows w hmem).1, ?_⟩,
    fun w hmem => ⟨(hinv.single w hmem).1, ?_⟩⟩
  · by_cases hd : d' = d
    · subst hd
      have hself : (s.setPc d' pc).pc d' = pc := Function.update_self _ _ _
      rw [hself]
      exact hextends.sound (fun h => hself.trans h) hs
    · have hother : (s.setPc d pc).pc d' = s.pc d' := Function.update_of_ne hd _ _
      rw [hother]
      exact hextends.sound (fun h => hother.trans h) (hinv.sound d')
  · by_cases hd : w.span = d
    · rw [show (s.setPc d pc).pc w.span = pc from hd ▸ Function.update_self _ _ _]
      exact .inr (hf w hmem hd)
    · rw [show (s.setPc d pc).pc w.span = s.pc w.span from Function.update_of_ne hd _ _]
      exact (hinv.follows w hmem).2
  · by_cases hd : w.delivery = d
    · obtain ⟨matched, hresult⟩ := hw w hmem hd
      rw [hresult]
      trivial
    · rw [show (s.setPc d pc).pc w.delivery = s.pc w.delivery from Function.update_of_ne hd _ _]
      exact (hinv.single w hmem).2

/-- Only a submission adds to the submitted records. -/
theorem submitted_apply (hinv : Flushes.Inv settings s.flushes) {e : Flushes.Event}
    (he : s.flushes.Enabled e) (hne : ∀ record span, e ≠ .submit record span) :
    (s.flushes.apply settings e).batcher.submitted = s.flushes.batcher.submitted := by
  cases e with
  | submit record span => exact absurd rfl (hne record span)
  | fire t =>
    exact (Batcher.flushNow_keeps settings
      { s.flushes.batcher with armed := s.flushes.batcher.armed.erase t }).2.1
  | cancelSubmitter future =>
    rw [Flushes.apply, Batcher.settle_eq]
  | setDriver driver => rfl
  | start i => exact Flushes.taskStep_start.submitted_eq
  | cancelUnstarted i => rfl
  | acquire i => exact Flushes.taskStep_enterCommit.submitted_eq
  | resume i awaited =>
    exact (Flushes.taskStep_resume (hinv.reported i) (hinv.remaining i).subset).submitted_eq

theorem Inv.flush (hinv : Inv settings bodies s) {e : Flushes.Event} (he : s.flushes.Enabled e)
    (hne : ∀ record span, e ≠ .submit record span) :
    Inv settings bodies { s with flushes := s.flushes.apply settings e } := by
  have hkeeps := hinv.flushes.keeps_apply he
  have hsubmitted := submitted_apply hinv.flushes he hne
  have hextends : Extends s { s with flushes := s.flushes.apply settings e } :=
    ⟨hkeeps.committed.subset, hsubmitted, rfl, fun _ h _ => h, fun _ h _ => h, id⟩
  refine ⟨hinv.flushes.apply he, hinv.failing.apply hinv.flushes he,
    fun d => hextends.sound id (hinv.sound d), fun w hmem => ?_, hinv.single⟩
  have hold := hinv.follows w (hsubmitted ▸ hmem)
  refine ⟨hold.1, hold.2.imp_right fun h => h.imp_right fun hvalue => ?_⟩
  cases hf : s.flushes.batcher.futures w.future with
  | result matched =>
    have hsame := hkeeps.futures w.future (by rw [hf]; rfl)
    simp only [hsame, hf]
  | exception error =>
    have hsame := hkeeps.futures w.future (by rw [hf]; rfl)
    simp only [hf] at hvalue
    simp only [hsame, hf]
    exact hvalue
  | pending => rw [hf] at hvalue; exact hvalue.elim
  | cancelled => rw [hf] at hvalue; exact hvalue.elim

theorem settled_fields (d : Nat) (result : Except Raised Bool) (w : SingleWrite) :
    (settled d result w).delivery = w.delivery ∧ (settled d result w).record = w.record := by
  rw [settled]
  split <;> exact ⟨rfl, rfl⟩

theorem settled_of_ne {result : Except Raised Bool} {w : SingleWrite}
    (h : w.delivery = d → w.result ≠ none) : settled d result w = w :=
  if_neg fun hw => h hw.1 hw.2

theorem Inv.endSingle (hinv : Inv settings bodies s) (hpc : s.pc d = .writing)
    (result : Except Raised Bool) : Inv settings bodies (s.endSingle d result) := by
  have hself : (s.endSingle d result).pc d = _ := Function.update_self _ _ _
  have hother : ∀ d', d' ≠ d → (s.endSingle d result).pc d' = s.pc d' :=
    fun d' hd => Function.update_of_ne hd _ _
  have hne : (s.endSingle d result).pc d ≠ .writing := by
    rw [hself]
    cases result with
    | ok matched => rintro ⟨⟩
    | error error => exact (failure_ne (.inr (.inl rfl))).symm
  have hextends : Extends s (s.endSingle d result) := by
    refine ⟨List.Subset.refl _, rfl, ?_, fun w hw hresult => ?_, fun w hw hwriting => ?_, id⟩
    · change (s.singles.map (settled d result)).map SingleWrite.delivery = _
      rw [List.map_map]
      exact List.map_congr_left fun w _ => (settled_fields d result w).1
    · exact List.mem_map.mpr ⟨w, hw, settled_of_ne fun _ => hresult⟩
    · refine List.mem_map.mpr ⟨w, hw, settled_of_ne fun hd => ?_⟩
      rw [hd] at hwriting
      exact absurd hwriting hne
  obtain ⟨w₀, hw₀, hd₀, hresult₀⟩ : s.Sound bodies d .writing := hpc ▸ hinv.sound d
  refine ⟨hinv.flushes, hinv.failing, fun d' => ?_, fun w hmem => ⟨(hinv.follows w hmem).1, ?_⟩,
    fun w hmem => ?_⟩
  · by_cases hd : d' = d
    · rw [hd, hself]
      cases result with
      | error error => exact sound_failure bodies _ d error
      | ok matched =>
        refine ⟨w₀.record, ?_, .inr (List.mem_map.mpr ⟨w₀, hw₀, ?_⟩)⟩
        · rw [← hd₀]
          exact (hinv.single w₀ hw₀).1
        · rw [settled, if_pos ⟨hd₀, hresult₀⟩, ← hd₀]
    · have hsound := hextends.sound (d := d') (fun h => (hother d' hd).trans h) (hinv.sound d')
      rwa [← hother d' hd] at hsound
  · by_cases hd : w.span = d
    · obtain ⟨matched, hfuture⟩ := hinv.future_result hmem (.inl (hd ▸ hpc))
      refine .inr (.inr ?_)
      rw [show (s.endSingle d result).flushes = s.flushes from rfl, hfuture]
      trivial
    · rw [hother _ hd]
      exact (hinv.follows w hmem).2
  · obtain ⟨w', hw', rfl⟩ := List.mem_map.mp hmem
    have hfollows := hinv.single w' hw'
    by_cases hopen : w'.delivery = d ∧ w'.result = none
    · rw [settled, if_pos hopen]
      refine ⟨hfollows.1, ?_⟩
      rw [show ({ w' with result := some result } : SingleWrite).delivery = d from hopen.1, hself]
      cases result with
      | ok matched => trivial
      | error error => rfl
    · rw [settled, if_neg hopen]
      refine ⟨hfollows.1, ?_⟩
      by_cases hd : w'.delivery = d
      · -- A write of this delivery that was over before has committed.
        have hvalue := hfollows.2
        cases hr : w'.result with
        | none => exact absurd ⟨hd, hr⟩ hopen
        | some value =>
          cases value with
          | ok matched => trivial
          | error error =>
            rw [hr] at hvalue
            simp only [hd, hpc] at hvalue
            exact absurd hvalue (failure_ne (.inr (.inl rfl)))
      · rw [hother _ hd]
        exact hfollows.2

/-- A delivery that has not submitted its record moves on. -/
theorem Inv.setPc_fresh (hinv : Inv settings bodies s) (hsub : ¬s.Submitted d) {pc : DeliveryPc}
    (hs : s.Sound bodies d pc) : Inv settings bodies (s.setPc d pc) :=
  hinv.setPc hs (fun w hw hd => absurd (.inl ⟨w, hw, hd⟩) hsub)
    (fun w hw hd => absurd (.inr ⟨w, hw, hd⟩) hsub)

theorem Inv.submit (hinv : Inv settings bodies s) (hsub : ¬s.Submitted d) {body : Dict}
    (hbody : bodies d = .ok (.obj body)) :
    Inv settings bodies { s.setPc d (.awaiting s.flushes.batcher.submitted.length) with
      flushes := s.flushes.apply settings (.submit body d) } := by
  obtain ⟨hfutures, hsubmitted, _⟩ := Batcher.submit_keeps settings body d s.flushes.batcher
  have hsubmitted' : (s.flushes.apply settings (.submit body d)).batcher.submitted =
      s.flushes.batcher.submitted ++ [⟨body, d, s.flushes.batcher.submitted.length⟩] := hsubmitted
  have hfutures' : (s.flushes.apply settings (.submit body d)).batcher.futures =
      s.flushes.batcher.futures := hfutures
  refine ⟨hinv.flushes.apply (e := .submit body d) trivial,
    hinv.failing.apply hinv.flushes (e := .submit body d) trivial, fun d' => ?_, fun w hw => ?_,
    fun w hw => ⟨(hinv.single w hw).1, ?_⟩⟩
  · by_cases hd : d' = d
    · subst hd
      simp only [Service.setPc, Function.update_self]
      refine ⟨⟨body, d', s.flushes.batcher.submitted.length⟩, ?_, rfl, rfl⟩
      rw [hsubmitted']
      exact List.mem_append_right _ (List.mem_singleton_self _)
    · simp only [Service.setPc, Function.update_of_ne hd]
      refine Sound.mono (hinv.sound d') (fun _ _ hc => hc) (fun h => h.imp_left ?_) ?_
        (fun _ w hw _ => hw) id
      · rintro ⟨w, hw, hspan⟩
        rw [hsubmitted'] at hw
        rcases List.mem_append.mp hw with hw | hw
        · exact ⟨w, hw, hspan⟩
        · rw [List.mem_singleton.mp hw] at hspan
          exact absurd hspan.symm hd
      · rw [hsubmitted']
        exact List.subset_append_left _ _
  · rw [hsubmitted'] at hw
    rcases List.mem_append.mp hw with hw | hw
    · have hne : w.span ≠ d := fun h => hsub (.inl ⟨w, hw, h⟩)
      have hold := hinv.follows w hw
      rw [Follows] at hold ⊢
      simp only [Service.setPc, Function.update_of_ne hne, hfutures']
      exact hold
    · rw [List.mem_singleton.mp hw]
      refine ⟨hbody, .inl ?_⟩
      simp only [Service.setPc, Function.update_self]
  · have hne : w.delivery ≠ d := fun h => hsub (.inr ⟨w, hw, h⟩)
    simp only [Service.setPc, Function.update_of_ne hne]
    exact (hinv.single w hw).2

theorem Inv.writeSingle (hinv : Inv settings bodies s) (hsub : ¬s.Submitted d) {body : Dict}
    (hbody : bodies d = .ok (.obj body)) :
    Inv settings bodies { s.setPc d .writing with singles := s.singles ++ [⟨d, body, none⟩] } := by
  refine ⟨hinv.flushes, hinv.failing, fun d' => ?_, fun w hw => ⟨(hinv.follows w hw).1, ?_⟩,
    fun w hw => ?_⟩
  · by_cases hd : d' = d
    · subst hd
      simp only [Service.setPc, Function.update_self]
      exact ⟨⟨d', body, none⟩, List.mem_append_right _ (List.mem_singleton_self _), rfl, rfl⟩
    · simp only [Service.setPc, Function.update_of_ne hd]
      refine Sound.mono (hinv.sound d') (fun _ _ hc => hc.imp_right (List.mem_append_left _))
        (fun h => h.imp_right ?_) (List.Subset.refl _) (fun _ w hw _ => List.mem_append_left _ hw) id
      rintro ⟨w, hw, hdelivery⟩
      rcases List.mem_append.mp hw with hw | hw
      · exact ⟨w, hw, hdelivery⟩
      · rw [List.mem_singleton.mp hw] at hdelivery
        exact absurd hdelivery.symm hd
  · have hne : w.span ≠ d := fun h => hsub (.inl ⟨w, hw, h⟩)
    simp only [Service.setPc, Function.update_of_ne hne]
    exact (hinv.follows w hw).2
  · rcases List.mem_append.mp hw with hw | hw
    · have hne : w.delivery ≠ d := fun h => hsub (.inr ⟨w, hw, h⟩)
      have hold := hinv.single w hw
      rw [FollowsSingle] at hold ⊢
      simp only [Service.setPc, Function.update_of_ne hne]
      exact hold
    · rw [List.mem_singleton.mp hw]
      refine ⟨hbody, ?_⟩
      simp only [Service.setPc, Function.update_self]

theorem Inv.operation (hinv : Inv settings bodies s) (hsub : ¬s.Submitted d) :
    Inv settings bodies (s.operation settings bodies d) := by
  have hcompleted : ∀ {t : Service} (b : Bool), Inv settings bodies t →
      Inv settings bodies { t with completed := b } :=
    fun _ ht => ⟨ht.flushes, ht.failing, ht.sound, ht.follows, ht.single⟩
  unfold Service.operation
  split
  · exact hinv.setPc_fresh hsub (sound_failure bodies s d _)
  · rename_i body hbody
    split
    · rename_i hterminal
      exact hcompleted true (hinv.setPc_fresh hsub (.inl ⟨body, hbody, hterminal, rfl⟩))
    · dsimp only
      have hinv' := hcompleted false hinv
      split
      · rename_i hid
        refine hinv'.setPc_fresh hsub ⟨⟨body, hbody, fun id h => ?_⟩, hsub⟩
        rw [hid] at h
        cases h
      · rename_i id hid
        split
        · rename_i hfalsy
          refine hinv'.setPc_fresh hsub ⟨⟨body, hbody, fun id' h => ?_⟩, hsub⟩
          rw [hid] at h
          obtain rfl := Option.some.inj h
          simpa using hfalsy
        · split
          · exact hinv'.setPc_fresh hsub (sound_failure bodies _ d _)
          · split
            · exact hinv'.submit hsub hbody
            · exact hinv'.writeSingle hsub hbody
  · exact hinv.setPc_fresh hsub (sound_failure bodies s d _)

theorem Inv.handler (hinv : Inv settings bodies s) (hpc : s.pc d = .received) :
    Inv settings bodies (s.handler settings bodies d) := by
  have hsub : s.Sound bodies d .received := hpc ▸ hinv.sound d
  unfold Service.handler
  split
  · rename_i hshutdown
    exact hinv.setPc_fresh hsub ⟨rfl, hshutdown⟩
  · exact hinv.operation hsub

theorem Inv.wake (hinv : Inv settings bodies s) (d : Nat) : Inv settings bodies (s.wake d) := by
  unfold Service.wake
  split
  · rename_i future hpc
    have hsingle : ∀ w ∈ s.singles, w.delivery = d → ∃ matched, w.result = some (.ok matched) := by
      intro w hw hd
      exact hinv.single_ok hw (.inl ⟨future, hd ▸ hpc⟩)
    -- A record of this delivery has this future, or a result.
    have hfollows : ∀ w ∈ s.flushes.batcher.submitted, w.span = d → w.future = future ∨
        ∃ matched, s.flushes.batcher.futures w.future = .result matched := by
      intro w hw hd
      rcases (hinv.follows w hw).2 with hawaiting | hraised | hvalue
      · rw [hd, hpc] at hawaiting
        cases hawaiting
        exact .inl rfl
      · rw [hd, hpc] at hraised
        cases hraised
      · cases hf : s.flushes.batcher.futures w.future with
        | result matched => exact .inr ⟨matched, rfl⟩
        | exception error =>
          rw [hf] at hvalue
          simp only [hd, hpc] at hvalue
          exact absurd hvalue (failure_ne (.inl ⟨future, rfl⟩))
        | pending => rw [hf] at hvalue; exact hvalue.elim
        | cancelled => rw [hf] at hvalue; exact hvalue.elim
    obtain ⟨w₀, hw₀, hd₀, hf₀⟩ : s.Sound bodies d (.awaiting future) := hpc ▸ hinv.sound d
    split
    · exact hinv
    · rename_i matched hvalue
      refine hinv.setPc ?_ (fun w hw hd => .inr ?_) hsingle
      · obtain ⟨tx, htx, x, hx, hfuture, hmatched⟩ := hinv.flushes.results future matched hvalue
        obtain ⟨i, hi⟩ := hinv.flushes.committed tx htx
        have heq : x.1 = w₀ :=
          hinv.flushes.eq_of_future (hinv.flushes.mem_submitted (hi x hx)) hw₀ (hfuture.trans hf₀.symm)
        have hbody := (hinv.follows w₀ hw₀).1
        rw [hd₀] at hbody
        exact ⟨w₀.record, hbody, .inl ⟨tx, htx, x, hx, heq ▸ hd₀, by rw [heq], hmatched⟩⟩
      · rcases hfollows w hw hd with rfl | ⟨m, hm⟩
        · rw [hvalue]
          trivial
        · rw [hm]
          trivial
    · rename_i error hvalue
      refine hinv.setPc (sound_failure bodies s d error) (fun w hw hd => .inr ?_) hsingle
      rcases hfollows w hw hd with rfl | ⟨m, hm⟩
      · rw [hvalue]
      · rw [hm]
        trivial
    · exact hinv.setPc (sound_failure bodies s d .cancelled) (fun w hw hd => .inl rfl) hsingle
  · exact hinv

theorem Inv.cancel (hinv : Inv settings bodies s) (d : Nat) : Inv settings bodies (s.cancel settings d) := by
  unfold Service.cancel
  split
  · rename_i future hpc
    have hflush : Inv settings bodies { s with flushes := s.flushes.apply settings (.cancelSubmitter future) } :=
      hinv.flush trivial nofun
    refine hflush.setPc (sound_failure bodies _ d .cancelled) (fun w hw hd => .inl rfl) fun w hw hd => ?_
    exact hinv.single_ok hw (.inl ⟨future, hd ▸ hpc⟩)
  · rename_i hpc
    exact hinv.endSingle hpc _
  · rename_i matched hpc
    refine hinv.setPc (sound_failure bodies s d .cancelled) (fun w hw hd => .inl rfl) fun w hw hd => ?_
    exact hinv.single_ok hw (.inr ⟨matched, hd ▸ hpc⟩)
  · exact hinv

theorem Inv.merged (hinv : Inv settings bodies s) (d : Nat) (error : Option Raised) :
    Inv settings bodies (s.merged d error) := by
  unfold Service.merged
  split
  · rename_i matched hpc
    have hfuture : ∀ w ∈ s.flushes.batcher.submitted, w.span = d →
        ∃ m, s.flushes.batcher.futures w.future = .result m :=
      fun w hw hd => hinv.future_result hw (.inr ⟨matched, hd ▸ hpc⟩)
    have hsingle : ∀ w ∈ s.singles, w.delivery = d → ∃ m, w.result = some (.ok m) :=
      fun w hw hd => hinv.single_ok hw (.inr ⟨matched, hd ▸ hpc⟩)
    have hsound : s.Sound bodies d (.merging matched) := hpc ▸ hinv.sound d
    split
    · refine hinv.setPc ?_ (fun w hw hd => .inr ?_) hsingle
      · obtain ⟨body, hbody, hc⟩ := hsound
        exact .inr ⟨body, matched, hbody, rfl, hc⟩
      · obtain ⟨m, hm⟩ := hfuture w hw hd
        rw [hm]
        trivial
    · refine hinv.setPc (sound_failure bodies s d _) (fun w hw hd => .inr ?_) hsingle
      obtain ⟨m, hm⟩ := hfuture w hw hd
      rw [hm]
      trivial
  · exact hinv

theorem Inv.step (hinv : Inv settings bodies s) (h : Step settings bodies s s') :
    Inv settings bodies s' := by
  cases h with
  | flush he hne => exact hinv.flush he hne
  | handler hpc => exact hinv.handler hpc
  | shutdown =>
    have hextends : Extends s { s with shutdownRequested := true } :=
      ⟨List.Subset.refl _, rfl, rfl, fun _ h _ => h, fun _ h _ => h, fun _ => rfl⟩
    exact ⟨hinv.flushes, hinv.failing, fun d => hextends.sound id (hinv.sound d), hinv.follows, hinv.single⟩
  | wake d => exact hinv.wake d
  | cancel d => exact hinv.cancel d
  | wrote d result =>
    unfold Service.wrote
    split
    · rename_i hpc
      exact hinv.endSingle hpc result
    · exact hinv
  | merged d error => exact hinv.merged d error

theorem Reachable.inv (h : Reachable settings bodies s) : Inv settings bodies s := by
  induction h with
  | refl => exact .init
  | tail _ hstep ih => exact ih.step hstep

/-! ## Acknowledge only after commit -/

/-- Delivery `d` fails with this error in this step. -/
inductive Fails (settings : Settings) (bodies : Nat → Except String Json) (s : Service) (d : Nat) :
    Raised → Service → Prop
  /-- `orjson.loads` raises. -/
  | undecodable {name : String} : s.pc d = .received → s.shutdownRequested = false →
      bodies d = .error name → Fails settings bodies s d (.other name) (s.handler settings bodies d)
  | notObject {body : Json} : s.pc d = .received → s.shutdownRequested = false →
      bodies d = .ok body → (∀ fields, body ≠ .obj fields) →
      Fails settings bodies s d (.other "AttributeError") (s.handler settings bodies d)
  | noDriver {body : Dict} : s.pc d = .received → s.shutdownRequested = false →
      bodies d = .ok (.obj body) → isTerminal body = false → ¬Unidentified body →
      s.flushes.driver = false →
      Fails settings bodies s d Flushes.notInitialized (s.handler settings bodies d)
  | future {future : Nat} {error : Raised} : s.pc d = .awaiting future →
      s.flushes.batcher.futures future = .exception error → Fails settings bodies s d error (s.wake d)
  | cancelledFuture {future : Nat} : s.pc d = .awaiting future →
      s.flushes.batcher.futures future = .cancelled → Fails settings bodies s d .cancelled (s.wake d)
  | write {error : Raised} : s.pc d = .writing →
      Fails settings bodies s d error (s.wrote d (.error error))
  | merge {matched : Bool} {error : Raised} : s.pc d = .merging matched →
      Fails settings bodies s d error (s.merged d (some error))
  /-- The task is cancelled at its await. -/
  | cancelled : (∃ future, s.pc d = .awaiting future) ∨ s.pc d = .writing ∨ (∃ m, s.pc d = .merging m) →
      Fails settings bodies s d .cancelled (s.cancel settings d)

theorem Fails.step {error : Raised} (h : Fails settings bodies s d error s') : Step settings bodies s s' := by
  cases h with
  | undecodable hpc | notObject hpc | noDriver hpc => exact .handler hpc
  | future | cancelledFuture => exact .wake d s
  | write => exact .wrote d _ s
  | merge => exact .merged d _ s
  | cancelled => exact .cancel d s

/-- A failure reaches the `except` clauses. -/
theorem Fails.pc {error : Raised} (h : Fails settings bodies s d error s') : s'.pc d = failure error := by
  have hself : ∀ (t : Service) (pc : DeliveryPc), (t.setPc d pc).pc d = pc :=
    fun t pc => Function.update_self _ _ _
  cases h with
  | undecodable _ hrunning hbody =>
    simp only [Service.handler, hrunning, Service.operation, hbody, hself, Bool.false_eq_true, if_false]
  | @notObject body _ hrunning hbody hobj =>
    simp only [Service.handler, hrunning, Service.operation, hbody, Bool.false_eq_true, if_false]
    cases body with
    | obj fields => exact absurd rfl (hobj fields)
    | _ => exact hself _ _
  | @noDriver body _ hrunning hbody hterminal hid hdriver =>
    obtain ⟨id, hsome, htruthy⟩ : ∃ id, Dict.get? body "id" = some id ∧ id.truthy = true := by
      simpa [Unidentified] using hid
    simp only [Service.handler, hrunning, Service.operation, hbody, hterminal, hsome, htruthy, hdriver,
      Bool.not_true, Bool.not_false, Bool.false_eq_true, if_false, if_true]
    exact hself _ _
  | future hpc hfuture =>
    simp only [Service.wake, hpc, hfuture, hself]
  | cancelledFuture hpc hfuture =>
    simp only [Service.wake, hpc, hfuture, hself]
  | write hpc =>
    simp only [Service.wrote, hpc]
    exact hself _ _
  | merge hpc =>
    simp only [Service.merged, hpc, hself]
  | cancelled hpc =>
    rcases hpc with ⟨future, hpc⟩ | hpc | ⟨matched, hpc⟩ <;> simp only [Service.cancel, hpc]
    · exact hself _ _
    · exact hself _ _
    · exact hself _ _

end Service

end Brainzgraphinator
