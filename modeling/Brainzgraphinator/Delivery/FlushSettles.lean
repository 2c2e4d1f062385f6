-- SUMMARY: When the end of a write task leaves a delivery waiting.
import Brainzgraphinator.Delivery.FlushInvariant

/-!
# The end of a write task

`_write` settles its members in the `except` clauses around the guarded commit and
at the end of its `else` branch. A task that ends elsewhere, at the stats merge or
at an await of a replay that is cancelled, leaves the members it has not worked off
as they are. `flush_settles` says exactly when that matters.
-/

namespace Brainzgraphinator

namespace Flushes

variable {settings : Settings} {s s' : Flushes} {i : Nat}

/-- The event ends task `i` outside the clauses that settle its members. -/
def Interrupts (s : Flushes) (i : Nat) : Event → Prop
  | .cancelUnstarted j => j = i
  | .resume j awaited => j = i ∧ s.Abandons i awaited
  | _ => False

/-- The delivery has its own matched result, an error or a cancellation. -/
def Settled (s : Flushes) (w : PendingWrite) : Prop :=
  match s.batcher.futures w.future with
  | .pending => False
  | .result matched => ∃ tx ∈ s.committed, (w, matched) ∈ tx
  | .exception _ | .cancelled => True

/-- Whoever is done has an outcome of its own. -/
theorem Inv.settled (hinv : Inv settings s) {w : PendingWrite} (hw : w ∈ s.batch i)
    (hdone : s.isDone w = true) : s.Settled w := by
  rw [Flushes.isDone, Batcher.isDone] at hdone
  rw [Settled]
  cases hf : s.batcher.futures w.future with
  | pending => rw [hf] at hdone; cases hdone
  | result matched =>
    obtain ⟨tx, htx, x, hx, hfuture, hmatched⟩ := hinv.results _ _ hf
    obtain ⟨j, hj⟩ := hinv.committed tx htx
    have heq : x.1 = w :=
      hinv.eq_of_future (hinv.mem_submitted (hj x hx)) (hinv.mem_submitted hw) hfuture
    exact ⟨tx, htx, by rwa [← heq, ← hmatched]⟩
  | exception error => trivial
  | cancelled => trivial

theorem Settled.isDone {w : PendingWrite} (h : s.Settled w) : s.isDone w = true := by
  rw [Flushes.isDone, Batcher.isDone]
  rw [Settled] at h
  cases hf : s.batcher.futures w.future <;> rw [hf] at h
  · exact h.elim
  all_goals rfl

/-- Only an interruption ends a task without working off what it had left. -/
theorem Inv.worksOff_finished (hinv : Inv settings s) {e : Event} (he : s.Enabled e)
    (hpc : s.pc i ≠ .finished) (hpc' : (s.apply settings e).pc i = .finished)
    (hnot : ¬s.Interrupts i e) :
    TaskStep i s (s.apply settings e) ∧ WorksOff i (s.remaining i) s (s.apply settings e) := by
  cases e with
  | submit record span => exact absurd hpc' hpc
  | fire t => exact absurd hpc' hpc
  | cancelSubmitter future => exact absurd hpc' hpc
  | setDriver driver => exact absurd hpc' hpc
  | start j =>
    obtain ⟨_, hcreated, _⟩ := he
    by_cases hj : i = j
    · subst hj
      refine ⟨taskStep_start, ?_⟩
      rw [Flushes.remaining, hcreated]
      exact worksOff_start settings i s
    · exact absurd ((taskStep_start.pc i hj).symm.trans hpc') hpc
  | cancelUnstarted j =>
    refine absurd ((Function.update_of_ne ?_ _ _).symm.trans hpc') hpc
    rintro rfl
    exact hnot rfl
  | acquire j =>
    obtain ⟨hwaiting, _⟩ := he
    by_cases hj : i = j
    · subst hj
      refine ⟨taskStep_enterCommit, ?_⟩
      rw [Flushes.remaining, hwaiting]
      exact worksOff_enterCommit i s
    · exact absurd ((taskStep_enterCommit.pc i hj).symm.trans hpc') hpc
  | resume j awaited =>
    have hstep : TaskStep j s (s.resume j awaited) :=
      taskStep_resume (hinv.reported j) (hinv.remaining j).subset
    by_cases hj : i = j
    · subst hj
      exact ⟨hstep, worksOff_resume (hinv.reported i) fun h => hnot ⟨rfl, h⟩⟩
    · exact absurd ((hstep.pc i hj).symm.trans hpc') hpc

theorem interrupts_batcher {e : Event} (h : s.Interrupts i e) :
    (s.apply settings e).batcher = s.batcher := by
  cases e with
  | cancelUnstarted j => rfl
  | resume j awaited =>
    obtain ⟨rfl, habandons⟩ := h
    exact (resume_abandons habandons).1
  | _ => exact h.elim

/-- At the end of a task each of its members has an outcome of its own exactly
when the task was not interrupted, or only cancelled members were left. -/
theorem Inv.settled_iff (hinv : Inv settings s) {e : Event} (he : s.Enabled e)
    (hpc : s.pc i ≠ .finished) (hpc' : (s.apply settings e).pc i = .finished) :
    (∀ w ∈ (s.apply settings e).batch i, (s.apply settings e).Settled w) ↔
      (s.Interrupts i e → ∀ w ∈ s.remaining i, s.batcher.futures w.future = .cancelled) := by
  have hinv' : Inv settings (s.apply settings e) := hinv.apply he
  by_cases hint : s.Interrupts i e
  · have hbatcher : (s.apply settings e).batcher = s.batcher := interrupts_batcher hint
    have hbatch : (s.apply settings e).batch i = s.batch i := by rw [batch, batch, hbatcher]
    have hdone : ∀ w, (s.apply settings e).isDone w = s.isDone w := by
      intro w
      rw [Flushes.isDone, Flushes.isDone, hbatcher]
    constructor
    · intro hall _ w hw
      have hsettled := hall w (hbatch ▸ (hinv.remaining i).subset hw)
      rcases hinv.fresh_remaining hw with hpending | hcancelled
      · rw [Settled, hbatcher, hpending] at hsettled
        exact hsettled.elim
      · exact hcancelled
    · intro hcancelled w hw
      refine hinv'.settled hw ?_
      rw [hbatch] at hw
      rw [hdone]
      rcases hinv.worked i hpc w hw with hleft | hold
      · rw [Flushes.isDone, Batcher.isDone, hcancelled hint w hleft]
        rfl
      · exact hold
  · refine iff_of_true (fun w hw => hinv'.settled hw ?_) (fun h => absurd h hint)
    obtain ⟨hstep, worked, hleft, hdone, _⟩ := hinv.worksOff_finished he hpc hpc' hint
    rw [hstep.batch_eq] at hw
    have hnil : (s.apply settings e).remaining i = [] := by rw [Flushes.remaining, hpc']
    rw [hnil, List.append_nil] at hleft
    rcases hinv.worked i hpc w hw with hmem | hold
    · exact hdone w (hleft ▸ hmem)
    · exact hstep.keeps.isDone hold

theorem Settled.keeps {w : PendingWrite} (h : s.Settled w) (hkeeps : Keeps s s') : s'.Settled w := by
  have hsame := hkeeps.futures w.future h.isDone
  rw [Settled] at h ⊢
  rw [hsame]
  cases hf : s.batcher.futures w.future with
  | result matched =>
    rw [hf] at h
    obtain ⟨tx, htx, hmem⟩ := h
    exact ⟨tx, hkeeps.committed.subset htx, hmem⟩
  | pending => rwa [hf] at h
  | exception error => trivial
  | cancelled => trivial

/-- Whenever the event interrupts a task, the members that task had left had all
been cancelled by their submitters. -/
def Harmless (s : Flushes) (e : Event) : Prop :=
  ∀ i, s.Interrupts i e → ∀ w ∈ s.remaining i, s.batcher.futures w.future = .cancelled

/-- When a task ends, each of its members has an outcome of its own, unless the
task was interrupted: then this holds exactly when every member it had left had
been cancelled by its submitter. In a run without other interruptions, no finished
task has a member that waits. -/
theorem flush_settles (hs : Reachable settings s) :
    (∀ e i, s.Enabled e → s.pc i ≠ .finished → (s.apply settings e).pc i = .finished →
      ((∀ w ∈ (s.apply settings e).batch i, (s.apply settings e).Settled w) ↔
        (s.Interrupts i e → ∀ w ∈ s.remaining i, s.batcher.futures w.future = .cancelled))) ∧
    (ReachableWhen settings Harmless s →
      ∀ i, s.pc i = .finished → ∀ w ∈ s.batch i, s.Settled w) := by
  refine ⟨fun e i he hpc hpc' => hs.inv.settled_iff he hpc hpc', fun hrun => ?_⟩
  clear hs
  induction hrun with
  | refl => exact fun i hpc => nomatch hpc
  | tail hprev hstep ih =>
    rename_i s s'
    cases hstep with
    | apply he hharmless =>
      have hinv := (ReachableWhen.reachable hprev).inv
      intro i hpc'
      by_cases hpc : s.pc i = .finished
      · have hi : i < s.batcher.writes.length := by
          by_contra hle
          rw [hinv.created i (Nat.le_of_not_lt hle)] at hpc
          cases hpc
        have hkeeps := hinv.keeps_apply he
        intro w hw
        rw [hkeeps.batch_eq hi] at hw
        exact (ih i hpc w hw).keeps hkeeps
      · exact (hinv.settled_iff he hpc hpc').mpr fun hint => hharmless i hint

/-- Two records whose batch fails: the first one's own transaction is in flight. -/
def failedCommit : List Event :=
  [.setDriver true, .submit [] 0, .submit [] 1, .start 0, .resume 0 (.raised (.other "ClientError"))]

/-- The replay is cancelled: the task has ended, and both deliveries wait on. -/
theorem flush_leaves_waiting : ∃ s, Reachable ⟨2, by decide, true, false⟩ s ∧
    s.pc 0 = .finished ∧ s.batch 0 = [⟨[], 0, 0⟩, ⟨[], 1, 1⟩] ∧
      s.batcher.futures 0 = .pending ∧ s.batcher.futures 1 = .pending :=
  ⟨run ⟨2, by decide, true, false⟩ {} (failedCommit ++ [.resume 0 (.raised .cancelled)]),
    steps_run (by decide), by decide, by decide, by decide, by decide⟩

/-- One of the two submitters is gone when the replay is cancelled. -/
theorem flush_settles_cancelledReplay : ∃ s, Reachable ⟨2, by decide, true, false⟩ s ∧
    s.remaining 0 = [⟨[], 0, 0⟩, ⟨[], 1, 1⟩] ∧
      ¬∀ w ∈ (s.apply ⟨2, by decide, true, false⟩ (.resume 0 (.raised .cancelled))).batch 0,
        (s.apply ⟨2, by decide, true, false⟩ (.resume 0 (.raised .cancelled))).Settled w := by
  have hreach : Reachable ⟨2, by decide, true, false⟩
      (run ⟨2, by decide, true, false⟩ {} (failedCommit ++ [.cancelSubmitter 0])) :=
    steps_run (by decide)
  refine ⟨_, hreach, by decide, ?_⟩
  rw [(flush_settles hreach).1 (.resume 0 (.raised .cancelled)) 0 trivial (by decide) (by decide)]
  intro h
  have hcancelled := h ⟨rfl, rfl⟩ ⟨[], 1, 1⟩ (by decide)
  exact absurd hcancelled (by decide)

end Flushes

end Brainzgraphinator
