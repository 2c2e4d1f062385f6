-- SUMMARY: The invariant every schedule of the write tasks keeps.
import Mathlib.Data.List.Infix
import Brainzgraphinator.Delivery.FlushSteps

/-!
# The invariant of the write tasks

A task works its batch off from the front: `remaining` is what it has left. Every
step works off some of the front (`WorksOff`), apart from an interruption that
drops the rest (`Abandons`). Hence `Inv`: what was worked off is settled, and
whoever was not yet worked off still waits or was cancelled by its submitter.
-/

namespace Brainzgraphinator

namespace Flushes

variable {settings : Settings} {s s' : Flushes} {i : Nat}

/-! ## Working off a batch -/

/-- The members a task has left. -/
def remaining (s : Flushes) (i : Nat) : List PendingWrite :=
  match s.pc i with
  | .created | .waiting | .committing | .merging _ => s.batch i
  | .replaying item rest | .replayMerging item _ rest => item :: rest
  | .finished => []

theorem remaining_setPc_finished (i : Nat) (s : Flushes) : (s.setPc i .finished).remaining i = [] := by
  simp [remaining, setPc]

theorem remaining_setPc_replaying (i : Nat) (item : PendingWrite) (rest : List PendingWrite)
    (s : Flushes) : (s.setPc i (.replaying item rest)).remaining i = item :: rest := by
  simp [remaining, setPc]

/-- From `s` to `s'` task `i` settles a front of `items`, and has the others left. -/
def WorksOff (i : Nat) (items : List PendingWrite) (s s' : Flushes) : Prop :=
  ∃ worked, items = worked ++ s'.remaining i ∧ (∀ w ∈ worked, s'.isDone w = true) ∧
    ∀ f, s'.batcher.futures f = s.batcher.futures f ∨ ∃ w ∈ worked, w.future = f

theorem worksOff_of_eq {items : List PendingWrite} (hitems : items = s'.remaining i)
    (hfutures : s'.batcher = s.batcher) : WorksOff i items s s' :=
  ⟨[], hitems, nofun, fun f => .inl (by rw [hfutures])⟩

/-- Settle every member and end the task. -/
theorem Settles.worksOff {values : List (PendingWrite × FutureState)} (h : Settles values s s')
    (i : Nat) : WorksOff i (values.map Prod.fst) s (s'.setPc i .finished) := by
  refine ⟨values.map Prod.fst, ?_, fun w hw => ?_, fun f => ?_⟩
  · rw [remaining_setPc_finished, List.append_nil]
  · obtain ⟨v, hv, rfl⟩ := List.mem_map.mp hw
    exact h.done v hv
  · rcases h.origin f with hf | ⟨v, hv, hf, _⟩
    · exact .inl hf
    · exact .inr ⟨v.1, List.mem_map_of_mem hv, hf⟩

theorem worksOff_fail (i : Nat) (batch : List PendingWrite) (error : Raised) (s : Flushes) :
    WorksOff i batch s ((s.fail batch error).setPc i .finished) := by
  have h := (settles_fail batch error s).worksOff i
  rwa [List.map_map, show Prod.fst ∘ (fun w : PendingWrite => (w, FutureState.exception error)) = id
    from rfl, List.map_id] at h

theorem worksOff_replay (i : Nat) (items : List PendingWrite) (s : Flushes) :
    WorksOff i items s (s.replay i items) := by
  rw [replay_eq]
  split
  · cases items with
    | nil => exact worksOff_of_eq (remaining_setPc_finished i s).symm rfl
    | cons item rest => exact worksOff_of_eq (remaining_setPc_replaying i item rest _).symm rfl
  · exact worksOff_fail i items notInitialized s

theorem worksOff_commitFailed (i : Nat) (error : Raised) (s : Flushes) :
    WorksOff i (s.batch i) s (s.commitFailed i error) := by
  cases error with
  | transient => exact worksOff_fail i _ _ s
  | cancelled => exact worksOff_fail i _ _ s
  | other name =>
    rw [commitFailed]
    split
    · exact worksOff_fail i _ _ s
    · exact worksOff_replay i _ s

theorem worksOff_enterCommit (i : Nat) (s : Flushes) :
    WorksOff i (s.batch i) s (s.enterCommit i) := by
  rw [enterCommit]
  split
  · refine worksOff_of_eq ?_ rfl
    simp [remaining, setPc, beginTx, batch]
  · exact worksOff_commitFailed i notInitialized (s.release i)

theorem worksOff_start (settings : Settings) (i : Nat) (s : Flushes) :
    WorksOff i (s.batch i) s (s.start settings i) := by
  rw [start]
  split
  · refine worksOff_of_eq ?_ rfl
    simp [remaining, setPc, batch]
  · exact worksOff_enterCommit i s

/-- Settle the record that was replayed, and go on. -/
theorem worksOff_settle_replay (item : PendingWrite) (rest : List PendingWrite)
    {value : FutureState} (hvalue : value.done = true) (s : Flushes) :
    WorksOff i (item :: rest) s ((s.settle item value).replay i rest) := by
  have hsettle := settles_settle item hvalue s
  obtain ⟨worked, heq, hdone, hchanged⟩ := worksOff_replay i rest (s.settle item value)
  refine ⟨item :: worked, congrArg (List.cons item) heq, fun w hw => ?_, fun f => ?_⟩
  · rcases List.mem_cons.mp hw with rfl | hw
    · have hitem := hsettle.done _ (List.mem_singleton_self _)
      rcases hchanged w.future with hf | ⟨w', hw', hf⟩
      · rw [Flushes.isDone, Batcher.isDone, hf]
        exact hitem
      · have hdone' := hdone w' hw'
        rwa [Flushes.isDone, Batcher.isDone, hf] at hdone'
    · exact hdone w hw
  · rcases hchanged f with hf | ⟨w, hw, hf⟩
    · rcases hsettle.origin f with hf' | ⟨v, hv, hf', _⟩
      · exact .inl (hf.trans hf')
      · rw [List.mem_singleton.mp hv] at hf'
        exact .inr ⟨item, List.mem_cons_self, hf'⟩
    · exact .inr ⟨w, List.mem_cons_of_mem _ hw, hf⟩

/-- What its await came out with ends the task and settles nobody: only the
`except` clauses of `_write` settle a batch, and `_replay` lets a cancellation
through. -/
def Abandons (s : Flushes) (i : Nat) : Awaited → Prop
  | .raised error =>
    match s.pc i with
    | .merging _ => True
    | .replaying _ _ | .replayMerging _ _ _ => error = .cancelled
    | _ => False
  | _ => False

theorem worksOff_replayRaised (item : PendingWrite) (rest : List PendingWrite) {error : Raised}
    (h : error ≠ .cancelled) (s : Flushes) :
    WorksOff i (item :: rest) s (s.replayRaised i item rest error) := by
  cases error with
  | cancelled => exact absurd rfl h
  | transient => exact worksOff_settle_replay item rest rfl s
  | other name => exact worksOff_settle_replay item rest rfl s

/-- The flags a task carries to the stats merge are those its transaction reported. -/
def Reported (s : Flushes) (i : Nat) : Prop :=
  match s.pc i with
  | .merging flags => flags.length = (s.batch i).length ∧ (s.batch i).zip flags ∈ s.committed
  | .replayMerging item matched _ => [(item, matched)] ∈ s.committed
  | _ => True

theorem worksOff_resume {awaited : Awaited} (hreported : s.Reported i) (h : ¬s.Abandons i awaited) :
    WorksOff i (s.remaining i) s (s.resume i awaited) := by
  unfold resume
  split
  · rename_i hpc
    rw [remaining, hpc]
    exact worksOff_commitFailed i .cancelled (s.release i)
  · rename_i hpc
    rw [remaining, hpc]
    refine worksOff_of_eq ?_ rfl
    simp [remaining, setPc, commitTx, release, batch]
  · rename_i error hpc
    rw [remaining, hpc]
    exact worksOff_commitFailed i error ((s.release i).failTx (s.batch i) error)
  · rename_i flags hpc
    rw [Reported, hpc] at hreported
    rw [remaining, hpc]
    have hall := (settles_setResults ((s.batch i).zip flags) s).worksOff i
    rwa [List.map_map, show Prod.fst ∘ (fun r : PendingWrite × Bool => (r.1, FutureState.result r.2))
      = Prod.fst from rfl, List.map_fst_zip (Nat.le_of_eq hreported.1.symm)] at hall
  · rename_i hpc
    exact absurd (by simp [Abandons, hpc]) h
  · rename_i item rest matched hpc
    rw [remaining, hpc]
    refine worksOff_of_eq ?_ rfl
    simp [remaining, setPc, commitTx]
  · rename_i item rest error hpc
    rw [remaining, hpc]
    rw [Abandons, hpc] at h
    exact worksOff_replayRaised item rest h (s.failTx [item] error)
  · rename_i item matched rest hpc
    rw [remaining, hpc]
    exact worksOff_settle_replay item rest rfl s
  · rename_i item matched rest error hpc
    rw [remaining, hpc]
    rw [Abandons, hpc] at h
    exact worksOff_replayRaised item rest h s
  · exact worksOff_of_eq rfl rfl

theorem resume_abandons {awaited : Awaited} (h : s.Abandons i awaited) :
    (s.resume i awaited).batcher = s.batcher ∧ (s.resume i awaited).pc i = .finished := by
  cases awaited with
  | returned => cases h
  | committed flags => cases h
  | raised error =>
    cases hpc : s.pc i <;> rw [Abandons, hpc] at h <;> try cases h
    all_goals simp [resume, hpc, setPc, replayRaised, failTx]

/-! ## A step of a task -/

theorem taskStep_resume {awaited : Awaited} (hreported : s.Reported i)
    (hremaining : s.remaining i ⊆ s.batch i) : TaskStep i s (s.resume i awaited) := by
  unfold resume
  split
  · exact (taskStep_lock i s _).trans (taskStep_commitFailed _)
  · rename_i flags hpc
    have hcommit : TaskStep i (s.release i) ((s.release i).commitTx ((s.batch i).zip flags)) :=
      taskStep_commitTx fun x hx => (List.of_mem_zip hx).1
    exact ((taskStep_lock i s _).trans hcommit).trans (taskStep_setPc i _ _)
  · rename_i error hpc
    have hfail : TaskStep i (s.release i) ((s.release i).failTx (s.batch i) error) :=
      taskStep_failTx error fun w hw => hw
    exact ((taskStep_lock i s _).trans hfail).trans (taskStep_commitFailed _)
  · rename_i flags hpc
    rw [Reported, hpc] at hreported
    refine ((settles_setResults _ s).taskStep (fun v hv => ?_) (fun v hv m hm => ?_)).trans
      (taskStep_setPc i _ _)
    · obtain ⟨x, hx, rfl⟩ := List.mem_map.mp hv
      exact (List.of_mem_zip hx).1
    · obtain ⟨x, hx, rfl⟩ := List.mem_map.mp hv
      cases hm
      exact ⟨_, hreported.2, hx⟩
  · exact taskStep_setPc i s _
  · rename_i item rest matched hpc
    rw [remaining, hpc] at hremaining
    refine (taskStep_commitTx fun x hx => ?_).trans (taskStep_setPc i _ _)
    rw [List.mem_singleton.mp hx]
    exact hremaining List.mem_cons_self
  · rename_i item rest error hpc
    rw [remaining, hpc] at hremaining
    refine (taskStep_failTx error fun w hw => ?_).trans (taskStep_replayRaised error hremaining)
    rw [List.mem_singleton.mp hw]
    exact hremaining List.mem_cons_self
  · rename_i item matched rest hpc
    rw [remaining, hpc] at hremaining
    rw [Reported, hpc] at hreported
    have hsettle : TaskStep i s (s.settle item (.result matched)) := by
      refine taskStep_settle rfl (hremaining List.mem_cons_self) fun m hm => ?_
      cases hm
      exact ⟨_, hreported, List.mem_singleton_self _⟩
    refine hsettle.trans (taskStep_replay fun w hw => ?_)
    rw [hsettle.batch_eq]
    exact hremaining (List.mem_cons_of_mem _ hw)
  · rename_i item matched rest error hpc
    rw [remaining, hpc] at hremaining
    exact taskStep_replayRaised error hremaining
  · exact taskStep_lock i s s.lock

theorem reported_finished (i : Nat) (s : Flushes) : (s.setPc i .finished).Reported i := by
  simp [Reported, setPc]

theorem reported_replay (items : List PendingWrite) (s : Flushes) : (s.replay i items).Reported i := by
  rw [replay_eq]
  split
  · cases items with
    | nil => exact reported_finished i s
    | cons item rest => simp [Reported, setPc]
  · exact reported_finished i _

theorem reported_commitFailed (error : Raised) (s : Flushes) :
    (s.commitFailed i error).Reported i := by
  cases error with
  | transient => exact reported_finished i _
  | cancelled => exact reported_finished i _
  | other name =>
    rw [commitFailed]
    split
    · exact reported_finished i _
    · exact reported_replay _ s

theorem reported_enterCommit (s : Flushes) : (s.enterCommit i).Reported i := by
  rw [enterCommit]
  split
  · simp [Reported, setPc]
  · exact reported_commitFailed _ _

theorem reported_start (s : Flushes) : (s.start settings i).Reported i := by
  rw [start]
  split
  · simp [Reported, setPc]
  · exact reported_enterCommit s

theorem reported_replayRaised (item : PendingWrite) (rest : List PendingWrite) (error : Raised)
    (s : Flushes) : (s.replayRaised i item rest error).Reported i := by
  cases error with
  | cancelled => exact reported_finished i _
  | transient => exact reported_replay rest _
  | other name => exact reported_replay rest _

theorem reported_resume {awaited : Awaited} (hreported : s.Reported i)
    (hflags : s.Enabled (.resume i awaited)) : (s.resume i awaited).Reported i := by
  unfold resume
  split
  · exact reported_commitFailed _ _
  · rename_i flags hpc
    have hlength := hflags hpc
    simp [Reported, setPc, commitTx, release, batch] at hlength ⊢
    exact hlength
  · exact reported_commitFailed _ _
  · exact reported_finished i _
  · exact reported_finished i _
  · simp [Reported, setPc, commitTx]
  · exact reported_replayRaised _ _ _ _
  · exact reported_replay _ _
  · exact reported_replayRaised _ _ _ _
  · exact hreported

/-! ## The invariant -/

/-- Nobody but its submitter has touched this future. -/
def Fresh (s : Flushes) (f : Nat) : Prop :=
  s.batcher.futures f = .pending ∨ s.batcher.futures f = .cancelled

/-- The batches are those of the batcher, every task has a back of its batch left
and has settled the front, and a future that is not fresh is one of a member that
was worked off. -/
structure Inv (settings : Settings) (s : Flushes) : Prop where
  batcher : Batcher.Inv settings s.batcher
  created : ∀ i, s.batcher.writes.length ≤ i → s.pc i = .created
  remaining : ∀ i, s.remaining i <:+ s.batch i
  reported : ∀ i, s.Reported i
  worked : ∀ i, s.pc i ≠ .finished → ∀ w ∈ s.batch i, w ∈ s.remaining i ∨ s.isDone w = true
  fresh : ∀ f, s.Fresh f ∨ ∃ i, ∃ w ∈ s.batch i, w.future = f ∧ w ∉ s.remaining i
  started : ∀ tx ∈ s.started, ∀ w ∈ tx.2, w ∈ s.batch tx.1
  committed : ∀ tx ∈ s.committed, ∃ i, ∀ x ∈ tx, x.1 ∈ s.batch i
  failed : ∀ tx ∈ s.failed, ∃ i, ∀ w ∈ tx.1, w ∈ s.batch i
  results : ∀ f m, s.batcher.futures f = .result m →
    ∃ tx ∈ s.committed, ∃ x ∈ tx, x.1.future = f ∧ x.2 = m

theorem batch_of_length_le (h : s.batcher.writes.length ≤ i) : s.batch i = [] := by
  rw [batch, List.getElem?_eq_none h]
  rfl

theorem batch_mem_writes (h : i < s.batcher.writes.length) : s.batch i ∈ s.batcher.writes := by
  rw [batch, List.getElem?_eq_getElem h]
  exact List.getElem_mem h

theorem mem_writes_of_mem_batch {w : PendingWrite} (h : w ∈ s.batch i) :
    i < s.batcher.writes.length := by
  by_contra hle
  rw [batch_of_length_le (Nat.le_of_not_lt hle)] at h
  cases h

theorem Inv.init : Inv settings {} where
  batcher := .init
  created _ _ := rfl
  remaining _ := List.suffix_rfl
  reported _ := trivial
  worked _ _ _ hw := .inl hw
  fresh _ := .inl (.inl rfl)
  started := nofun
  committed := nofun
  failed := nofun
  results := nofun

/-! ### Members -/

theorem Inv.mem_submitted (hinv : Inv settings s) {w : PendingWrite} (hw : w ∈ s.batch i) :
    w ∈ s.batcher.submitted := by
  obtain ⟨taken, hsubmitted, hsub, _⟩ := hinv.batcher.taken
  rw [hsubmitted]
  refine List.mem_append_left _ (hsub.subset ?_)
  exact List.mem_flatten_of_mem (batch_mem_writes (mem_writes_of_mem_batch hw)) hw

/-- A future belongs to one record. -/
theorem Inv.eq_of_future (hinv : Inv settings s) {w w' : PendingWrite}
    (hw : w ∈ s.batcher.submitted) (hw' : w' ∈ s.batcher.submitted) (h : w.future = w'.future) :
    w = w' := by
  have hnd : (s.batcher.submitted.map PendingWrite.future).Nodup := by
    rw [hinv.batcher.futures]
    exact List.nodup_range
  exact List.inj_on_of_nodup_map hnd hw hw' h

theorem Inv.nodup_writes (hinv : Inv settings s) : s.batcher.writes.flatten.Nodup := by
  obtain ⟨taken, hsubmitted, hsub, _⟩ := hinv.batcher.taken
  have hnd := hinv.batcher.nodup_submitted
  rw [hsubmitted] at hnd
  exact (List.nodup_append.mp hnd).1.sublist hsub

theorem Inv.nodup_batch (hinv : Inv settings s) (i : Nat) : (s.batch i).Nodup := by
  by_cases hi : i < s.batcher.writes.length
  · exact (List.nodup_flatten.mp hinv.nodup_writes).1 _ (batch_mem_writes hi)
  · rw [batch_of_length_le (Nat.le_of_not_lt hi)]
    exact List.nodup_nil

/-- A record is in one batch. -/
theorem Inv.eq_of_mem_batch (hinv : Inv settings s) {w : PendingWrite} {j : Nat}
    (hi : w ∈ s.batch i) (hj : w ∈ s.batch j) : i = j := by
  have hflatten := List.mem_flatten_of_mem (batch_mem_writes (mem_writes_of_mem_batch hi)) hi
  obtain ⟨k, _, _, _, hunique⟩ := Batcher.exists_unique_mem_flatten hinv.nodup_writes hflatten
  have hget : ∀ l, w ∈ s.batch l → l = k := by
    intro l hl
    refine hunique l (s.batch l) ?_ hl
    rw [batch, List.getElem?_eq_getElem (mem_writes_of_mem_batch hl)]
    rfl
  rw [hget i hi, hget j hj]

/-- Whoever is not worked off is fresh. -/
theorem Inv.fresh_remaining (hinv : Inv settings s) {w : PendingWrite} (hw : w ∈ s.remaining i) :
    s.Fresh w.future := by
  rcases hinv.fresh w.future with hfresh | ⟨j, w', hw', hfuture, hnot⟩
  · exact hfresh
  · have hbatch := (hinv.remaining i).subset hw
    have heq : w' = w := hinv.eq_of_future (hinv.mem_submitted hw') (hinv.mem_submitted hbatch) hfuture
    subst heq
    rw [hinv.eq_of_mem_batch hbatch hw'] at hw
    exact absurd hw hnot

/-! ### Every event -/

theorem isSuffix_of_worksOff {items : List PendingWrite} (h : WorksOff i items s s') :
    s'.remaining i <:+ items := by
  obtain ⟨worked, heq, _⟩ := h
  exact ⟨worked, heq.symm⟩

/-- What task `i` has left after a step that works off its batch or drops it. -/
theorem remaining_isSuffix
    (h : WorksOff i (s.remaining i) s s' ∨ s'.batcher = s.batcher ∧ s'.pc i = .finished) :
    s'.remaining i <:+ s.remaining i := by
  rcases h with h | ⟨_, hpc⟩
  · exact isSuffix_of_worksOff h
  · rw [Flushes.remaining, hpc]
    exact List.nil_suffix

theorem Inv.task (hinv : Inv settings s) (hi : i < s.batcher.writes.length)
    (hstep : TaskStep i s s')
    (hadvance : WorksOff i (s.remaining i) s s' ∨ s'.batcher = s.batcher ∧ s'.pc i = .finished)
    (hreported : s'.Reported i) (hfinished : s.pc i = .finished → s'.pc i = .finished) :
    Inv settings s' := by
  have hbatch := hstep.batch_eq
  have hother : ∀ j, j ≠ i → s'.remaining j = s.remaining j := by
    intro j hj
    rw [Flushes.remaining, Flushes.remaining, hstep.pc j hj, hbatch j]
  have hleft : ∀ j, s'.remaining j <:+ s.remaining j := by
    intro j
    by_cases hj : j = i
    · subst hj
      exact remaining_isSuffix hadvance
    · rw [hother j hj]
  refine ⟨hinv.batcher.steps (hstep.steps settings), fun j hj => ?_, fun j => ?_, fun j => ?_,
    fun j hj w hw => ?_, fun f => ?_, fun tx htx => ?_, fun tx htx => ?_, fun tx htx => ?_,
    fun f m hf => ?_⟩
  · have hlength : s'.batcher.writes.length = s.batcher.writes.length := by rw [hstep.batcher]
    have hne : j ≠ i := Nat.ne_of_gt (Nat.lt_of_lt_of_le hi (hlength ▸ hj))
    rw [hstep.pc j hne]
    exact hinv.created j (hlength ▸ hj)
  · rw [hbatch j]
    exact (hleft j).trans (hinv.remaining j)
  · by_cases hj : j = i
    · rw [hj]
      exact hreported
    · have hold := hinv.reported j
      rw [Reported] at hold ⊢
      rw [hstep.pc j hj, hbatch j]
      cases hpc : s.pc j <;> rw [hpc] at hold <;> try trivial
      · exact ⟨hold.1, hstep.keeps.committed.subset hold.2⟩
      · exact hstep.keeps.committed.subset hold
  · rw [hbatch j] at hw
    by_cases hji : j = i
    · subst hji
      rcases hadvance with ⟨worked, heq, hdone, _⟩ | ⟨_, hpc⟩
      · rcases hinv.worked j (fun hpc => hj (hfinished hpc)) w hw with hleft | hold
        · rw [heq, List.mem_append] at hleft
          exact hleft.symm.imp_right (hdone w)
        · exact .inr (hstep.keeps.isDone hold)
      · exact absurd hpc hj
    · rw [hother j hji]
      rw [hstep.pc j hji] at hj
      exact (hinv.worked j hj w hw).imp_right hstep.keeps.isDone
  · have hworked : s'.batcher.futures f = s.batcher.futures f ∨
        ∃ w ∈ s.batch i, w.future = f ∧ w ∉ s'.remaining i := by
      rcases hadvance with ⟨worked, heq, _, hchanged⟩ | ⟨hbatcher, _⟩
      · refine (hchanged f).imp_right ?_
        rintro ⟨w, hw, hf⟩
        have hnd := (hinv.nodup_batch i).sublist (hinv.remaining i).sublist
        rw [heq, List.nodup_append] at hnd
        refine ⟨w, (hinv.remaining i).subset (heq ▸ List.mem_append_left _ hw), hf, ?_⟩
        exact fun hmem => hnd.2.2 w hw w hmem rfl
      · exact .inl (by rw [hbatcher])
    rcases hworked with hsame | ⟨w, hw, hf, hnot⟩
    · rcases hinv.fresh f with hfresh | ⟨j, w, hw, hf, hnot⟩
      · rw [Fresh, hsame]
        exact .inl hfresh
      · exact .inr ⟨j, w, hbatch j ▸ hw, hf, fun hmem => hnot ((hleft j).subset hmem)⟩
    · exact .inr ⟨i, w, hbatch i ▸ hw, hf, hnot⟩
  · rcases hstep.started tx htx with hold | ⟨howner, hnew⟩
    · intro w hw
      rw [hbatch]
      exact hinv.started tx hold w hw
    · intro w hw
      rw [hbatch, howner]
      exact hnew w hw
  · rcases hstep.committed tx htx with hold | hnew
    · obtain ⟨j, hj⟩ := hinv.committed tx hold
      exact ⟨j, fun x hx => hbatch j ▸ hj x hx⟩
    · exact ⟨i, fun x hx => hbatch i ▸ hnew x hx⟩
  · rcases hstep.failed tx htx with hold | hnew
    · obtain ⟨j, hj⟩ := hinv.failed tx hold
      exact ⟨j, fun x hx => hbatch j ▸ hj x hx⟩
    · exact ⟨i, fun x hx => hbatch i ▸ hnew x hx⟩
  · rcases hstep.results f m hf with hold | hnew
    · obtain ⟨tx, htx, hx⟩ := hinv.results f m hold
      exact ⟨tx, hstep.keeps.committed.subset htx, hx⟩
    · exact hnew

/-- A callback of the batcher: no future changes, and tasks are only added. -/
theorem Inv.arrival (hinv : Inv settings s) {b : Batcher}
    (hbatcher : Batcher.Inv settings b) (hfutures : b.futures = s.batcher.futures)
    (hwrites : s.batcher.writes <+: b.writes) : Inv settings { s with batcher := b } := by
  have hbatch : ∀ {j}, j < s.batcher.writes.length → ({ s with batcher := b } : Flushes).batch j = s.batch j := by
    intro j hj
    obtain ⟨added, hadded⟩ := hwrites
    rw [batch, batch, ← hadded, List.getElem?_append_left hj]
  have hmem : ∀ {j w}, w ∈ s.batch j → w ∈ ({ s with batcher := b } : Flushes).batch j :=
    fun hw => hbatch (mem_writes_of_mem_batch hw) ▸ hw
  have hremaining : ∀ {j}, j < s.batcher.writes.length →
      ({ s with batcher := b } : Flushes).remaining j = s.remaining j := by
    intro j hj
    rw [Flushes.remaining, Flushes.remaining, hbatch hj]
  have hnew : ∀ {j}, s.batcher.writes.length ≤ j →
      ({ s with batcher := b } : Flushes).remaining j = ({ s with batcher := b } : Flushes).batch j := by
    intro j hj
    rw [Flushes.remaining, hinv.created j hj]
  refine ⟨hbatcher, fun j hj => ?_, fun j => ?_, fun j => ?_, fun j hj w hw => ?_, fun f => ?_,
    fun tx htx w hw => hmem (hinv.started tx htx w hw), fun tx htx => ?_, fun tx htx => ?_, ?_⟩
  · exact hinv.created j (Nat.le_trans hwrites.length_le hj)
  · rcases Nat.lt_or_ge j s.batcher.writes.length with hlt | hge
    · rw [hremaining hlt, hbatch hlt]
      exact hinv.remaining j
    · rw [hnew hge]
  · have hold := hinv.reported j
    rcases Nat.lt_or_ge j s.batcher.writes.length with hlt | hge
    · rw [Reported] at hold ⊢
      rwa [hbatch hlt]
    · rw [Reported, hinv.created j hge]
      trivial
  · rcases Nat.lt_or_ge j s.batcher.writes.length with hlt | hge
    · rw [hremaining hlt, Flushes.isDone, Batcher.isDone, hfutures]
      rw [hbatch hlt] at hw
      exact hinv.worked j hj w hw
    · rw [hnew hge]
      exact .inl hw
  · rcases hinv.fresh f with hfresh | ⟨j, w, hw, hf, hnot⟩
    · rw [Fresh, hfutures]
      exact .inl hfresh
    · exact .inr ⟨j, w, hmem hw, hf, hremaining (mem_writes_of_mem_batch hw) ▸ hnot⟩
  · obtain ⟨j, hj⟩ := hinv.committed tx htx
    exact ⟨j, fun x hx => hmem (hj x hx)⟩
  · obtain ⟨j, hj⟩ := hinv.failed tx htx
    exact ⟨j, fun w hw => hmem (hj w hw)⟩
  · rw [hfutures]
    exact hinv.results

theorem Inv.cancelSubmitter (hinv : Inv settings s) (future : Nat) :
    Inv settings { s with batcher := s.batcher.settle future .cancelled } := by
  have hbatcher := hinv.batcher.settle future .cancelled
  have hsame : ∀ f, f ≠ future →
      (s.batcher.settle future .cancelled).futures f = s.batcher.futures f := by
    intro f hf
    rw [Batcher.settle]
    split
    · rfl
    · exact Function.update_of_ne hf _ _
  have hfuture : (s.batcher.settle future .cancelled).futures future = .cancelled ∨
      (s.batcher.settle future .cancelled).futures future = s.batcher.futures future := by
    rw [Batcher.settle]
    split
    · exact .inr rfl
    · exact .inl (Function.update_self _ _ _)
  have hkept : ∀ f, (s.batcher.futures f).done = true →
      (s.batcher.settle future .cancelled).futures f = s.batcher.futures f :=
    fun f hf => Batcher.settle_kept hf
  rw [Batcher.settle_eq] at hbatcher ⊢
  refine ⟨hbatcher, hinv.created, hinv.remaining, hinv.reported, fun j hj w hw => ?_, fun f => ?_,
    hinv.started, hinv.committed, hinv.failed, fun f m hf => ?_⟩
  · refine (hinv.worked j hj w hw).imp_right fun hdone => ?_
    exact (congrArg FutureState.done (hkept w.future hdone)).trans hdone
  · by_cases hf : f = future
    · subst hf
      rcases hfuture with hcancelled | hold
      · exact .inl (.inr hcancelled)
      · refine (hinv.fresh f).imp_left fun hfresh => ?_
        rw [Fresh] at hfresh ⊢
        simpa only [hold] using hfresh
    · refine (hinv.fresh f).imp_left fun hfresh => ?_
      rw [Fresh] at hfresh ⊢
      simpa only [hsame f hf] using hfresh
  · refine hinv.results f m ?_
    by_cases hff : f = future
    · subst hff
      rcases hfuture with hcancelled | hold
      · cases hcancelled.symm.trans hf
      · exact hold.symm.trans hf
    · exact (hsame f hff).symm.trans hf

theorem Inv.apply (hinv : Inv settings s) {e : Event} (he : s.Enabled e) :
    Inv settings (s.apply settings e) := by
  cases e with
  | submit record span =>
    obtain ⟨hfutures, _, hwrites⟩ := Batcher.submit_keeps settings record span s.batcher
    exact hinv.arrival (hinv.batcher.submit record span) hfutures hwrites
  | fire t =>
    obtain ⟨hfutures, _, hwrites⟩ :=
      Batcher.flushNow_keeps settings { s.batcher with armed := s.batcher.armed.erase t }
    exact hinv.arrival (hinv.batcher.fire he) hfutures hwrites
  | cancelSubmitter future => exact hinv.cancelSubmitter future
  | setDriver driver => exact { hinv with }
  | start i =>
    obtain ⟨hi, hpc, _⟩ := he
    refine hinv.task hi taskStep_start (.inl ?_) (reported_start s) (fun h => ?_)
    · rw [Flushes.remaining, hpc]
      exact worksOff_start settings i s
    · rw [hpc] at h
      cases h
  | cancelUnstarted i =>
    obtain ⟨hi, hpc⟩ := he
    have hfinished : (s.setPc i .finished).pc i = .finished := Function.update_self _ _ _
    exact hinv.task hi (taskStep_setPc i s .finished) (.inr ⟨rfl, hfinished⟩)
      (reported_finished i s) fun _ => hfinished
  | acquire i =>
    obtain ⟨hpc, _⟩ := he
    have hi : i < s.batcher.writes.length := by
      by_contra hle
      rw [hinv.created i (Nat.le_of_not_lt hle)] at hpc
      cases hpc
    refine hinv.task hi taskStep_enterCommit (.inl ?_) (reported_enterCommit s) (fun h => ?_)
    · rw [Flushes.remaining, hpc]
      exact worksOff_enterCommit i s
    · rw [hpc] at h
      cases h
  | resume i awaited =>
    by_cases hi : i < s.batcher.writes.length
    · have hstep : TaskStep i s (s.resume i awaited) :=
        taskStep_resume (hinv.reported i) (hinv.remaining i).subset
      refine hinv.task hi hstep ?_ (reported_resume (hinv.reported i) he) (fun hpc => ?_)
      · by_cases habandons : s.Abandons i awaited
        · exact .inr (resume_abandons habandons)
        · exact .inl (worksOff_resume (hinv.reported i) habandons)
      · have heq : s.resume i awaited = s := by simp [resume, hpc]
        rw [Flushes.apply, heq]
        exact hpc
    · have hpc := hinv.created i (Nat.le_of_not_lt hi)
      have heq : s.resume i awaited = s := by simp [resume, hpc]
      rw [Flushes.apply, heq]
      exact hinv

/-- No event takes anything of the past back. -/
theorem Inv.keeps_apply (hinv : Inv settings s) {e : Event} (he : s.Enabled e) :
    Keeps s (s.apply settings e) := by
  cases e with
  | submit record span =>
    obtain ⟨hfutures, hsubmitted, hwrites⟩ := Batcher.submit_keeps settings record span s.batcher
    exact { Keeps.refl s with
      writes := hwrites
      submitted := hsubmitted ▸ List.prefix_append _ _
      futures := fun f _ => congrFun hfutures f }
  | fire t =>
    obtain ⟨hfutures, hsubmitted, hwrites⟩ :=
      Batcher.flushNow_keeps settings { s.batcher with armed := s.batcher.armed.erase t }
    exact { Keeps.refl s with
      writes := hwrites
      submitted := hsubmitted ▸ List.prefix_rfl
      futures := fun f _ => congrFun hfutures f }
  | cancelSubmitter future =>
    have heq := Batcher.settle_eq future .cancelled s.batcher
    rw [Flushes.apply, heq]
    exact { Keeps.refl s with futures := fun f hf => Batcher.settle_kept hf }
  | setDriver driver => exact { Keeps.refl s with }
  | start i => exact taskStep_start.keeps
  | cancelUnstarted i => exact (taskStep_setPc i s .finished).keeps
  | acquire i => exact taskStep_enterCommit.keeps
  | resume i awaited => exact (taskStep_resume (hinv.reported i) (hinv.remaining i).subset).keeps

theorem Reachable.inv (h : Reachable settings s) : Inv settings s := by
  induction h with
  | refl => exact .init
  | tail _ hstep ih =>
    cases hstep with
    | apply he => exact ih.apply he

end Flushes

end Brainzgraphinator
