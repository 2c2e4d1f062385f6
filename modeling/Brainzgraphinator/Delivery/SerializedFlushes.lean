-- SUMMARY: With serialized flushes, when the write transactions of a data type run one at a time and in order.
import Brainzgraphinator.Base.TicketQueue
import Brainzgraphinator.Delivery.FlushInvariant

/-!
# Serialized flushes

With `SERIALIZE_FLUSHES` on, the write tasks of a data type are the tickets of a fair
lock: `tickets` is what the lock sees of them, and every step of a task is one of a
ticket queue (`tickets_step`). The guard is left before a failed batch is replayed,
so a replaying task is detached; whether another task gets the lock meanwhile decides
whether the transactions stay apart.
-/

namespace Brainzgraphinator

/-- What the commit lock sees of a task. A task between two replays has
transactions to come. -/
def FlushPc.phase : FlushPc → TicketPhase
  | .created => .idle
  | .waiting => .queued
  | .committing => .holding
  | .replaying _ _ | .replayMerging _ _ (_ :: _) => .detached
  | .merging _ | .replayMerging _ _ [] | .finished => .done

namespace Flushes

variable {settings : Settings} {s s' : Flushes} {i j : Nat}

/-! ## Tasks as tickets -/

def tickets (s : Flushes) : TicketQueue where
  phase i := (s.pc i).phase
  queue := s.lock
  log := s.started.map Prod.fst

theorem tickets_setPc (i : Nat) (pc : FlushPc) (s : Flushes) :
    (s.setPc i pc).tickets = s.tickets.setPhase i pc.phase := by
  simp only [tickets, setPc, TicketQueue.setPhase, TicketQueue.mk.injEq, and_true]
  funext j
  by_cases hj : j = i
  · subst hj
    simp
  · simp [hj]

/-- Settling futures is no matter of the lock. -/
theorem Settles.tickets {values : List (PendingWrite × FutureState)} (h : Settles values s s') :
    s'.tickets = s.tickets := by
  rw [h.eq]
  rfl

theorem tickets_beginTx (i : Nat) (records : List PendingWrite) (s : Flushes) :
    (s.beginTx i records).tickets = { s.tickets with log := s.tickets.log ++ [i] } := by
  simp [tickets, beginTx]

theorem tickets_fail (batch : List PendingWrite) (error : Raised) (s : Flushes) :
    (s.fail batch error).tickets = s.tickets := (settles_fail batch error s).tickets

/-- The ticket goes on with another section. -/
def again (i : Nat) (t : TicketQueue) : TicketQueue :=
  { t.setPhase i .detached with log := t.log ++ [i] }

/-- A replay begins the next transaction, or ends the task. -/
theorem tickets_replay (i : Nat) (items : List PendingWrite) (s : Flushes) :
    (s.replay i items).tickets = s.tickets.setPhase i .done ∨
      s.driver = true ∧ items ≠ [] ∧ (s.replay i items).tickets = again i s.tickets := by
  rw [replay_eq]
  split
  · rename_i hdriver
    cases items with
    | nil => exact .inl (tickets_setPc i _ s)
    | cons item rest =>
      refine .inr ⟨hdriver, List.cons_ne_nil _ _, ?_⟩
      rw [tickets_setPc, tickets_beginTx]
      rfl
  · refine .inl ?_
    rw [tickets_setPc, tickets_fail]
    rfl

theorem tickets_commitFailed (i : Nat) (error : Raised) (s : Flushes) :
    (s.commitFailed i error).tickets = s.tickets.setPhase i .done ∨
      (∃ name, error = .other name) ∧ s.driver = true ∧
        (s.commitFailed i error).tickets = again i s.tickets := by
  have hfail : ((s.fail (s.batch i) error).setPc i .finished).tickets = s.tickets.setPhase i .done := by
    rw [tickets_setPc, tickets_fail]
    rfl
  cases error with
  | transient => exact .inl hfail
  | cancelled => exact .inl hfail
  | other name =>
    rw [commitFailed]
    split
    · exact .inl hfail
    · rcases tickets_replay i (s.batch i) s with hdone | ⟨hdriver, _, hagain⟩
      · exact .inl hdone
      · exact .inr ⟨⟨name, rfl⟩, hdriver, hagain⟩

theorem tickets_settle (w : PendingWrite) {value : FutureState} (hvalue : value.done = true)
    (s : Flushes) : (s.settle w value).tickets = s.tickets := (settles_settle w hvalue s).tickets

theorem tickets_replayRaised (i : Nat) (item : PendingWrite) (rest : List PendingWrite)
    (error : Raised) (s : Flushes) :
    (s.replayRaised i item rest error).tickets = s.tickets.setPhase i .done ∨
      rest ≠ [] ∧ (s.replayRaised i item rest error).tickets = again i s.tickets := by
  have hnext : ∀ {value : FutureState}, value.done = true →
      ((s.settle item value).replay i rest).tickets = s.tickets.setPhase i .done ∨
        rest ≠ [] ∧ ((s.settle item value).replay i rest).tickets = again i s.tickets := by
    intro value hvalue
    rcases tickets_replay i rest (s.settle item value) with hdone | ⟨_, hrest, hagain⟩
    · rw [tickets_settle item hvalue] at hdone
      exact .inl hdone
    · rw [tickets_settle item hvalue] at hagain
      exact .inr ⟨hrest, hagain⟩
  cases error with
  | cancelled => exact .inl (tickets_setPc i _ s)
  | transient => exact hnext rfl
  | other name => exact hnext rfl

/-! ## Every event is a step of the ticket queue -/

/-- The lock is granted, with a driver, only while no other task is in its replays. -/
def GrantsInOrder (s : Flushes) (e : Event) : Prop :=
  ∀ i, e = .acquire i → s.driver = true → s.tickets.Undetached

theorem phase_eq {i : Nat} {pc : FlushPc} (h : s.pc i = pc) : s.tickets.phase i = pc.phase := by
  rw [← h]
  rfl

theorem eq_created_of_phase (h : s.tickets.phase i = .idle) : s.pc i = .created := by
  change (s.pc i).phase = .idle at h
  cases hpc : s.pc i <;> rw [hpc] at h
  case replayMerging item matched rest => cases rest <;> cases h
  all_goals cases h

/-- A task outside of the lock ends, or goes on replaying. -/
theorem step_outside {t : TicketQueue} (hqueued : s.tickets.phase i ≠ .queued)
    (hholding : s.tickets.phase i ≠ .holding)
    (h : t = s.tickets.setPhase i .done ∨ s.tickets.phase i = .detached ∧ t = again i s.tickets) :
    TicketQueue.Step s.tickets t := by
  rcases h with rfl | ⟨hphase, rfl⟩
  · exact .finish hqueued hholding
  · have hsame : s.tickets.setPhase i .detached = s.tickets := by
      rw [TicketQueue.setPhase, ← hphase, Function.update_eq_self]
    rw [again, hsame]
    exact .next hphase

theorem tickets_resume (i : Nat) (awaited : Awaited) (s : Flushes) :
    Relation.ReflTransGen TicketQueue.Step s.tickets (s.resume i awaited).tickets := by
  unfold resume
  split
  · rename_i hpc
    rcases tickets_commitFailed i .cancelled (s.release i) with hdone | ⟨⟨name, hname⟩, _⟩
    · rw [hdone]
      exact .single (.leave (.inl (phase_eq hpc)))
    · cases hname
  · rename_i flags hpc
    rw [tickets_setPc]
    exact .single (.leave (.inr (phase_eq hpc)))
  · rename_i error hpc
    rcases tickets_commitFailed i error ((s.release i).failTx (s.batch i) error) with
      hdone | ⟨_, _, hagain⟩
    · rw [hdone]
      exact .single (.leave (.inr (phase_eq hpc)))
    · rw [hagain]
      exact .single (.detach (phase_eq hpc))
  · rename_i flags hpc
    have hphase := phase_eq hpc
    rw [tickets_setPc, (settles_setResults _ s).tickets]
    exact .single (.finish (by rw [hphase]; rintro ⟨⟩) (by rw [hphase]; rintro ⟨⟩))
  · rename_i flags error hpc
    have hphase := phase_eq hpc
    rw [tickets_setPc]
    exact .single (.finish (by rw [hphase]; rintro ⟨⟩) (by rw [hphase]; rintro ⟨⟩))
  · rename_i item rest matched hpc
    have hphase := phase_eq hpc
    rw [tickets_setPc]
    cases rest with
    | nil => exact .single (.finish (by rw [hphase]; rintro ⟨⟩) (by rw [hphase]; rintro ⟨⟩))
    | cons item' rest =>
      have hsame : s.tickets.setPhase i .detached = s.tickets := by
        rw [TicketQueue.setPhase, ← (show s.tickets.phase i = .detached from hphase),
          Function.update_eq_self]
      exact hsame.symm ▸ .refl
  · rename_i item rest error hpc
    have hphase := phase_eq hpc
    have h := tickets_replayRaised i item rest error (s.failTx [item] error)
    exact .single (step_outside (by rw [hphase]; rintro ⟨⟩) (by rw [hphase]; rintro ⟨⟩)
      (h.imp_right fun hagain => ⟨hphase, hagain.2⟩))
  · rename_i item matched rest hpc
    have hphase := phase_eq hpc
    refine .single (step_outside (by rw [hphase]; cases rest <;> rintro ⟨⟩)
      (by rw [hphase]; cases rest <;> rintro ⟨⟩) ?_)
    have h := tickets_replay i rest (s.settle item (.result matched))
    rw [tickets_settle item rfl] at h
    refine h.imp_right ?_
    rintro ⟨_, hrest, hagain⟩
    refine ⟨?_, hagain⟩
    rw [hphase]
    cases rest with
    | nil => exact absurd rfl hrest
    | cons item' rest => rfl
  · rename_i item matched rest error hpc
    have hphase := phase_eq hpc
    refine .single (step_outside (by rw [hphase]; cases rest <;> rintro ⟨⟩)
      (by rw [hphase]; cases rest <;> rintro ⟨⟩) ?_)
    refine (tickets_replayRaised i item rest error s).imp_right ?_
    rintro ⟨hrest, hagain⟩
    refine ⟨?_, hagain⟩
    rw [hphase]
    cases rest with
    | nil => exact absurd rfl hrest
    | cons item' rest => rfl
  · exact .refl

theorem tickets_step (hserial : settings.serializeFlushes = true) {e : Event} (he : s.Enabled e)
    (hgrants : s.GrantsInOrder e) :
    Relation.ReflTransGen TicketQueue.Step s.tickets (s.apply settings e).tickets := by
  cases e with
  | submit record span => exact .refl
  | fire t => exact .refl
  | cancelSubmitter future => exact .refl
  | setDriver driver => exact .refl
  | start i =>
    obtain ⟨_, hpc, hfirst⟩ := he
    rw [apply, start, if_pos hserial, tickets_setPc]
    refine .single (.enqueue (phase_eq hpc) fun j hj hidle => hfirst j hj ?_)
    exact eq_created_of_phase hidle
  | cancelUnstarted i =>
    obtain ⟨_, hpc⟩ := he
    have hphase := phase_eq hpc
    rw [apply, tickets_setPc]
    exact .single (.finish (by rw [hphase]; rintro ⟨⟩) (by rw [hphase]; rintro ⟨⟩))
  | acquire i =>
    obtain ⟨hpc, hhead⟩ := he
    rw [apply, enterCommit]
    split
    · rename_i hdriver
      rw [tickets_setPc, tickets_beginTx]
      exact .single (.enter (phase_eq hpc) hhead (hgrants i rfl hdriver))
    · rename_i hdriver
      rcases tickets_commitFailed i notInitialized (s.release i) with hdone | ⟨_, h, _⟩
      · rw [hdone]
        exact .single (.leave (.inl (phase_eq hpc)))
      · exact absurd h hdriver
  | resume i awaited => exact tickets_resume i awaited s

/-! ## Commits in submission order -/

/-- The members of task `i` that a transaction of it may still commit. -/
def unwritten (s : Flushes) (i : Nat) : List PendingWrite :=
  match s.pc i with
  | .created | .waiting | .committing => s.batch i
  | .replaying item rest => item :: rest
  | .replayMerging _ _ rest => rest
  | .merging _ | .finished => []

def futures (ws : List PendingWrite) : List Nat := ws.map PendingWrite.future

/-- The records committed so far, in the order of their transactions. -/
def written (s : Flushes) : List PendingWrite := s.committed.flatten.map Prod.fst

/-- A task that is not over for the lock may have a batch to write. -/
theorem unwritten_of_done (h : s.tickets.phase i = .done) : s.unwritten i = [] := by
  change (s.pc i).phase = .done at h
  rw [unwritten]
  cases hpc : s.pc i <;> rw [hpc] at h
  case replayMerging item matched rest =>
    cases rest with
    | nil => rfl
    | cons item' rest => cases h
  all_goals cases h

/-- From `s` to `s'` task `i` commits a part of what it had to write; only then is
it in a section. -/
def Commits (i : Nat) (items : List PendingWrite) (s s' : Flushes) : Prop :=
  ∃ new, s'.written = s.written ++ new ∧ (new ++ s'.unwritten i).Sublist items ∧
    (new ≠ [] → s.tickets.Active i)

theorem commits_of_eq {items : List PendingWrite} (hwritten : s'.written = s.written)
    (hitems : (s'.unwritten i).Sublist items) : Commits i items s s' :=
  ⟨[], by rw [hwritten, List.append_nil], hitems, fun h => absurd rfl h⟩

theorem Settles.committed {values : List (PendingWrite × FutureState)} (h : Settles values s s') :
    s'.committed = s.committed := by
  rw [h.eq]
  rfl

theorem commits_replay (i : Nat) (items : List PendingWrite) (s : Flushes) :
    Commits i items s (s.replay i items) := by
  rw [replay_eq]
  split
  · cases items with
    | nil => exact commits_of_eq rfl (by simp [unwritten, setPc])
    | cons item rest => exact commits_of_eq rfl (by simp [unwritten, setPc])
  · refine commits_of_eq ?_ (by simp [unwritten, setPc])
    rw [written, written]
    exact congrArg _ (congrArg _ (settles_fail items notInitialized s).committed)

theorem commits_commitFailed (i : Nat) (error : Raised) (s : Flushes) :
    Commits i (s.batch i) s (s.commitFailed i error) := by
  have hfail : Commits i (s.batch i) s ((s.fail (s.batch i) error).setPc i .finished) := by
    refine commits_of_eq ?_ (by simp [unwritten, setPc])
    rw [written, written]
    exact congrArg _ (congrArg _ (settles_fail (s.batch i) error s).committed)
  cases error with
  | transient => exact hfail
  | cancelled => exact hfail
  | other name =>
    rw [commitFailed]
    split
    · exact hfail
    · exact commits_replay i _ s

theorem commits_settle_replay (item : PendingWrite) (rest : List PendingWrite) {value : FutureState}
    (hvalue : value.done = true) (s : Flushes) :
    Commits i rest s ((s.settle item value).replay i rest) := by
  obtain ⟨new, hwritten, hsub, hactive⟩ := commits_replay i rest (s.settle item value)
  have hsame : (s.settle item value).written = s.written := by
    rw [written, written, (settles_settle item hvalue s).committed]
  rw [tickets_settle item hvalue] at hactive
  rw [hsame] at hwritten
  exact ⟨new, hwritten, hsub, hactive⟩

theorem commits_replayRaised (item : PendingWrite) (rest : List PendingWrite) (error : Raised)
    (s : Flushes) : Commits i rest s (s.replayRaised i item rest error) := by
  cases error with
  | cancelled => exact commits_of_eq rfl (by simp [replayRaised, unwritten, setPc])
  | transient => exact commits_settle_replay item rest rfl s
  | other name => exact commits_settle_replay item rest rfl s

theorem commits_enterCommit (i : Nat) (s : Flushes) : Commits i (s.batch i) s (s.enterCommit i) := by
  rw [enterCommit]
  split
  · exact commits_of_eq rfl (by simp [unwritten, setPc, beginTx, batch])
  · obtain ⟨new, hwritten, hsub, hactive⟩ := commits_commitFailed i notInitialized (s.release i)
    exact ⟨new, hwritten, hsub, hactive⟩

theorem commits_start (settings : Settings) (i : Nat) (s : Flushes) :
    Commits i (s.batch i) s (s.start settings i) := by
  rw [start]
  split
  · exact commits_of_eq rfl (by simp [unwritten, setPc, batch])
  · exact commits_enterCommit i s

theorem written_commitTx (results : List (PendingWrite × Bool)) (s : Flushes) :
    (s.commitTx results).written = s.written ++ results.map Prod.fst := by
  simp [written, commitTx]

theorem commits_resume {awaited : Awaited} (hflags : s.Enabled (.resume i awaited)) :
    Commits i (s.unwritten i) s (s.resume i awaited) := by
  unfold resume
  split
  · rename_i hpc
    rw [unwritten, hpc]
    obtain ⟨new, hwritten, hsub, hactive⟩ := commits_commitFailed i .cancelled (s.release i)
    exact ⟨new, hwritten, hsub, hactive⟩
  · rename_i flags hpc
    have hlength := hflags hpc
    rw [unwritten, hpc]
    refine ⟨s.batch i, ?_, by simp [unwritten, setPc], fun _ => .inl (phase_eq hpc)⟩
    have hfst : ((s.batch i).zip flags).map Prod.fst = s.batch i :=
      List.map_fst_zip (Nat.le_of_eq hlength.symm)
    exact (written_commitTx _ (s.release i)).trans (by rw [hfst]; rfl)
  · rename_i error hpc
    rw [unwritten, hpc]
    obtain ⟨new, hwritten, hsub, hactive⟩ :=
      commits_commitFailed i error ((s.release i).failTx (s.batch i) error)
    exact ⟨new, hwritten, hsub, hactive⟩
  · rename_i flags hpc
    refine commits_of_eq ?_ (by simp [unwritten, setPc])
    rw [written, written]
    exact congrArg _ (congrArg _ (settles_setResults _ s).committed)
  · exact commits_of_eq rfl (by simp [unwritten, setPc])
  · rename_i item rest matched hpc
    rw [unwritten, hpc]
    refine ⟨[item], written_commitTx _ s, ?_, fun _ => .inr (phase_eq hpc)⟩
    simp [unwritten, setPc, commitTx]
  · rename_i item rest error hpc
    rw [unwritten, hpc]
    obtain ⟨new, hwritten, hsub, hactive⟩ := commits_replayRaised item rest error (s.failTx [item] error)
    exact ⟨new, hwritten, hsub.trans (List.sublist_cons_self _ _), hactive⟩
  · rename_i item matched rest hpc
    rw [unwritten, hpc]
    exact commits_settle_replay item rest rfl s
  · rename_i item matched rest error hpc
    rw [unwritten, hpc]
    exact commits_replayRaised item rest error s
  · exact commits_of_eq rfl (List.Sublist.refl _)

/-- The batches of the tasks follow each other in submission order. -/
theorem Inv.sorted_writes (hinv : Inv settings s) : (futures s.batcher.writes.flatten).Pairwise (· < ·) := by
  obtain ⟨taken, hsubmitted, hsub, _⟩ := hinv.batcher.taken
  have hrange : (futures s.batcher.submitted).Pairwise (· < ·) := by
    rw [futures, hinv.batcher.futures]
    exact List.pairwise_lt_range
  rw [hsubmitted, futures, List.map_append, List.pairwise_append] at hrange
  exact hrange.1.sublist (hsub.map _)

theorem Inv.sorted_batch (hinv : Inv settings s) (i : Nat) : (futures (s.batch i)).Pairwise (· < ·) := by
  by_cases hi : i < s.batcher.writes.length
  · refine hinv.sorted_writes.sublist (List.Sublist.map _ ?_)
    exact List.sublist_flatten_of_mem (batch_mem_writes hi)
  · rw [batch_of_length_le (Nat.le_of_not_lt hi)]
    exact List.Pairwise.nil

theorem Inv.future_lt (hinv : Inv settings s) {w w' : PendingWrite} (hw : w ∈ s.batch i)
    (hw' : w' ∈ s.batch j) (h : i < j) : w.future < w'.future := by
  have hi := mem_writes_of_mem_batch hw
  have hj := mem_writes_of_mem_batch hw'
  have hsorted := hinv.sorted_writes
  rw [futures, List.map_flatten, List.pairwise_flatten] at hsorted
  have hpair := List.pairwise_iff_getElem.mp hsorted.2 i j (by simpa using hi) (by simpa using hj) h
  refine hpair _ ?_ _ ?_
  · rw [List.getElem_map]
    rw [batch, List.getElem?_eq_getElem hi] at hw
    exact List.mem_map_of_mem hw
  · rw [List.getElem_map]
    rw [batch, List.getElem?_eq_getElem hj] at hw'
    exact List.mem_map_of_mem hw'

/-! ## Serialized and ordered -/

/-- A write transaction of the task is in flight. -/
def InFlight (s : Flushes) (i : Nat) : Prop :=
  s.pc i = .committing ∨ ∃ item rest, s.pc i = .replaying item rest

/-- One transaction is in flight at a time; an earlier flush has none once a later
one has begun its first; and records are committed in submission order. -/
structure Serialized (s : Flushes) : Prop where
  alone : ∀ i j, s.InFlight i → s.InFlight j → i = j
  inOrder : (s.started.map Prod.fst).Pairwise (· ≤ ·)
  ended : ∀ tx ∈ s.started, ∀ i < tx.1, ¬s.InFlight i
  written : (futures s.written).Pairwise (· < ·)

theorem InFlight.active (h : s.InFlight i) : s.tickets.Active i := by
  rcases h with hpc | ⟨item, rest, hpc⟩
  · exact .inl (phase_eq hpc)
  · exact .inr (phase_eq hpc)

/-- Committed records are older than those that may still be committed. -/
structure Ordered (s : Flushes) : Prop where
  queue : s.tickets.Inv
  sorted : (futures s.written).Pairwise (· < ·)
  ahead : ∀ w ∈ s.written, ∀ j, ∀ w' ∈ s.unwritten j, w.future < w'.future

theorem Ordered.init : Ordered {} := ⟨.init, List.Pairwise.nil, nofun⟩

theorem Ordered.serialized (h : Ordered s) : s.Serialized where
  alone _ _ hi hj := h.queue.active_unique hi.active hj.active
  inOrder := h.queue.log
  ended tx htx i hlt hi := by
    have hdone := h.queue.ended (List.mem_map_of_mem htx) hlt
    rcases hi.active with hactive | hactive <;> rw [hdone] at hactive <;> cases hactive
  written := h.sorted

theorem unwritten_sublist (s : Flushes) (j : Nat) : (s.unwritten j).Sublist (s.remaining j) := by
  rw [unwritten, remaining]
  cases s.pc j <;> simp

theorem Inv.unwritten_sublist_batch (hinv : Inv settings s) (j : Nat) :
    (s.unwritten j).Sublist (s.batch j) :=
  (unwritten_sublist s j).trans (hinv.remaining j).sublist

theorem Inv.written_mem (hinv : Inv settings s) {w : PendingWrite} (hw : w ∈ s.written) :
    ∃ k, w ∈ s.batch k := by
  obtain ⟨x, hx, rfl⟩ := List.mem_map.mp hw
  obtain ⟨tx, htx, hmem⟩ := List.mem_flatten.mp hx
  obtain ⟨k, hk⟩ := hinv.committed tx htx
  exact ⟨k, hk x hmem⟩

/-- A step of a task commits what is newer than everything committed, and older
than everything another task may still commit. -/
theorem Ordered.task (h : Ordered s) (hinv : Inv settings s) (hstep : TaskStep i s s')
    (hcommits : Commits i (s.unwritten i) s s') (hqueue : s'.tickets.Inv) : Ordered s' := by
  obtain ⟨new, hwritten, hsub, hactive⟩ := hcommits
  have hpairwise : (futures (new ++ s'.unwritten i)).Pairwise (· < ·) :=
    (hinv.sorted_batch i).sublist ((hsub.trans (hinv.unwritten_sublist_batch i)).map _)
  rw [futures, List.map_append, List.pairwise_append] at hpairwise
  have hnew : ∀ w ∈ new, w ∈ s.unwritten i := fun w hw => hsub.subset (List.mem_append_left _ hw)
  refine ⟨hqueue, ?_, fun w hw j w' hw' => ?_⟩
  · rw [hwritten, futures, List.map_append, List.pairwise_append]
    refine ⟨h.sorted, hpairwise.1, fun f hf g hg => ?_⟩
    obtain ⟨w, hw, rfl⟩ := List.mem_map.mp hf
    obtain ⟨w', hw', rfl⟩ := List.mem_map.mp hg
    exact h.ahead w hw i w' (hnew w' hw')
  · rw [hwritten, List.mem_append] at hw
    by_cases hj : j = i
    · subst hj
      rcases hw with hw | hw
      · exact h.ahead w hw j w' (hsub.subset (List.mem_append_right _ hw'))
      · exact hpairwise.2.2 _ (List.mem_map_of_mem hw) _ (List.mem_map_of_mem hw')
    · have hsame : s'.unwritten j = s.unwritten j := by
        rw [unwritten, unwritten, hstep.pc j hj, hstep.batch_eq]
      rw [hsame] at hw'
      rcases hw with hw | hw
      · exact h.ahead w hw j w' hw'
      · -- An older task has nothing left to write once this one is in a section.
        have hbegun := h.queue.begun i (hactive (List.ne_nil_of_mem hw))
        rcases Nat.lt_or_gt_of_ne hj with hlt | hlt
        · rw [unwritten_of_done (h.queue.ended hbegun hlt)] at hw'
          cases hw'
        · exact hinv.future_lt ((hinv.unwritten_sublist_batch i).subset (hnew w hw))
            ((hinv.unwritten_sublist_batch j).subset hw') hlt

/-- Arrivals add batches that are newer than everything committed. -/
theorem Ordered.arrival (h : Ordered s) (hinv : Inv settings s) (hinv' : Inv settings s')
    (hkeeps : Keeps s s') (hpc : s'.pc = s.pc) (htickets : s'.tickets = s.tickets)
    (hcommitted : s'.committed = s.committed) : Ordered s' := by
  have hwritten : s'.written = s.written := by rw [written, written, hcommitted]
  refine ⟨htickets ▸ h.queue, hwritten ▸ h.sorted, fun w hw j w' hw' => ?_⟩
  rw [hwritten] at hw
  rcases Nat.lt_or_ge j s.batcher.writes.length with hlt | hge
  · have hsame : s'.unwritten j = s.unwritten j := by
      rw [unwritten, unwritten, hpc, hkeeps.batch_eq hlt]
    exact h.ahead w hw j w' (hsame ▸ hw')
  · obtain ⟨k, hk⟩ := hinv.written_mem hw
    have hklt := mem_writes_of_mem_batch hk
    rw [← hkeeps.batch_eq hklt] at hk
    exact hinv'.future_lt hk ((hinv'.unwritten_sublist_batch j).subset hw')
      (Nat.lt_of_lt_of_le hklt hge)

theorem Ordered.apply (h : Ordered s) (hinv : Inv settings s)
    (hserial : settings.serializeFlushes = true) {e : Event} (he : s.Enabled e)
    (hgrants : s.GrantsInOrder e) : Ordered (s.apply settings e) := by
  have hinv' : Inv settings (s.apply settings e) := hinv.apply he
  have hkeeps := hinv.keeps_apply he
  have hqueue := h.queue.steps (tickets_step hserial he hgrants)
  cases e with
  | submit record span => exact h.arrival hinv hinv' hkeeps rfl rfl rfl
  | fire t => exact h.arrival hinv hinv' hkeeps rfl rfl rfl
  | cancelSubmitter future => exact h.arrival hinv hinv' hkeeps rfl rfl rfl
  | setDriver driver => exact h.arrival hinv hinv' hkeeps rfl rfl rfl
  | start i =>
    have hpc := he.2.1
    refine h.task hinv taskStep_start ?_ hqueue
    rw [unwritten, hpc]
    exact commits_start settings i s
  | cancelUnstarted i =>
    refine h.task hinv (taskStep_setPc i s .finished) (commits_of_eq rfl ?_) hqueue
    simp [Flushes.apply, unwritten, setPc]
  | acquire i =>
    have hpc := he.1
    refine h.task hinv taskStep_enterCommit ?_ hqueue
    rw [unwritten, hpc]
    exact commits_enterCommit i s
  | resume i awaited =>
    have hstep : TaskStep i s (s.resume i awaited) :=
      taskStep_resume (hinv.reported i) (hinv.remaining i).subset
    exact h.task hinv hstep (commits_resume he) hqueue

theorem ReachableWhen.ordered (hserial : settings.serializeFlushes = true)
    (h : ReachableWhen settings GrantsInOrder s) : Ordered s := by
  induction h with
  | refl => exact .init
  | tail hprev hstep ih =>
    cases hstep with
    | apply he hgrants => exact ih.apply (ReachableWhen.reachable hprev).inv hserial he hgrants

/-- A task that gets the lock beside one in its replays has a transaction in flight
beside one of the other's, now or when the other goes on. -/
theorem overlap {i : Nat} (he : s.Enabled (.acquire i)) (hdriver : s.driver = true)
    (hphase : s.tickets.phase j = .detached) :
    ∃ es, s.Admissible settings (.acquire i :: es) ∧ ¬(s.run settings (.acquire i :: es)).Serialized := by
  have hne : j ≠ i := by
    rintro rfl
    rw [phase_eq he.1] at hphase
    cases hphase
  have hacquire : s.apply settings (.acquire i) = (s.beginTx i (s.batch i)).setPc i .committing := by
    simp [apply, enterCommit, hdriver]
  have hi : (s.apply settings (.acquire i)).pc i = .committing := by
    rw [hacquire]
    exact Function.update_self _ _ _
  have hj : (s.apply settings (.acquire i)).pc j = s.pc j := by
    rw [hacquire]
    exact Function.update_of_ne hne _ _
  change (s.pc j).phase = .detached at hphase
  cases hpc : s.pc j <;> rw [hpc] at hphase hj
  case replaying item rest =>
    exact ⟨[], ⟨he, trivial⟩, fun h => hne (h.alone j i (.inr ⟨item, rest, hj⟩) (.inl hi))⟩
  case replayMerging item matched rest =>
    cases rest with
    | nil => cases hphase
    | cons item' rest =>
      refine ⟨[.resume j .returned], ⟨he, trivial, trivial⟩, fun h => ?_⟩
      have hnext : (s.run settings [.acquire i, .resume j .returned]) =
          (((s.apply settings (.acquire i)).settle item (.result matched)).beginTx j [item']).setPc j
            (.replaying item' rest) := by
        have hdriver' :
            ((s.apply settings (.acquire i)).settle item (.result matched)).driver = true := by
          rw [hacquire]
          exact hdriver
        change (s.apply settings (.acquire i)).resume j .returned = _
        simp only [resume, hj, replay, if_pos hdriver']
      have hreplaying : (s.run settings [.acquire i, .resume j .returned]).pc j =
          .replaying item' rest := by
        rw [hnext]
        exact Function.update_self _ _ _
      have hcommitting : (s.run settings [.acquire i, .resume j .returned]).pc i = .committing := by
        rw [hnext]
        exact (Function.update_of_ne hne.symm _ _).trans hi
      exact hne (h.alone j i (.inr ⟨item', rest, hreplaying⟩) (.inl hcommitting))
  all_goals cases hphase

/-- With serialized flushes, the write transactions of a data type run one at a
time, in creation order of their flushes and with their records in submission order,
in every run in which the lock is granted only while no other task is in its
replays. Any other grant has two transactions in flight, at once or after some more steps. -/
theorem flushes_serialized (hserial : settings.serializeFlushes = true) :
    (ReachableWhen settings GrantsInOrder s → s.Serialized) ∧
      ∀ e, s.Enabled e → ¬s.GrantsInOrder e →
        ∃ es, s.Admissible settings (e :: es) ∧ ¬(s.run settings (e :: es)).Serialized := by
  refine ⟨fun h => (h.ordered hserial).serialized, fun e he hgrants => ?_⟩
  simp only [GrantsInOrder, TicketQueue.Undetached, not_forall, not_not] at hgrants
  obtain ⟨i, rfl, hdriver, j, hphase⟩ := hgrants
  exact overlap he hdriver hphase

/-- A record of artist `1` with this text. -/
def artistRecord (disambiguation : String) : Dict :=
  [("disambiguation", .str disambiguation), ("discogs_artist_id", .int 1)]

/-- The first batch fails and is replayed while the second one commits. -/
def replayBesideCommit : List Event :=
  [.setDriver true, .submit (artistRecord "old") 0, .submit [] 1, .start 0, .acquire 0,
    .submit (artistRecord "new") 2, .submit [] 3, .start 1,
    .resume 0 (.raised (.other "ClientError")), .acquire 1]

/-- Two write transactions are in flight, and the older record overwrites the newer
one in the end. -/
theorem flushes_overlap : ∃ s, Reachable ⟨2, by decide, true, true⟩ s ∧
    s.InFlight 0 ∧ s.InFlight 1 ∧ ∃ s', Relation.ReflTransGen (Step ⟨2, by decide, true, true⟩) s s' ∧
      s'.written.map PendingWrite.record = [artistRecord "new", [], artistRecord "old"] :=
  ⟨run ⟨2, by decide, true, true⟩ {} replayBesideCommit, steps_run (by decide +kernel),
    .inr ⟨⟨artistRecord "old", 0, 0⟩, [⟨[], 1, 1⟩], by decide +kernel⟩, .inl (by decide +kernel),
    run ⟨2, by decide, true, true⟩ (run ⟨2, by decide, true, true⟩ {} replayBesideCommit)
      [.resume 1 (.committed [true, false]), .resume 0 (.committed [true])],
    steps_run (by decide +kernel), by decide +kernel⟩

/-- The lock is granted while every task so far is outside of its replays. -/
theorem grantsInOrder_acquire (hs : ReachableWhen settings GrantsInOrder s)
    (h : ∀ j < s.batcher.writes.length, s.tickets.phase j ≠ .detached) :
    s.GrantsInOrder (.acquire i) := by
  intro _ _ _ j
  rcases Nat.lt_or_ge j s.batcher.writes.length with hlt | hge
  · exact h j hlt
  · rw [phase_eq (hs.reachable.inv.created j hge)]
    nofun

theorem ReachableWhen.event {p : Flushes → Event → Prop} (h : ReachableWhen settings p s) (e : Event)
    (he : s.Enabled e) (hp : p s e) : ReachableWhen settings p (s.apply settings e) :=
  h.tail (.apply he hp)

/-- One record in a batch, and flushes serialized. -/
def oneByOne : Settings := ⟨1, by decide, true, true⟩

/-- Two flushes; the second waits for the first. -/
theorem flushes_serialized_twoFlushes : ∃ s, ReachableWhen oneByOne GrantsInOrder s ∧
    s.written.map PendingWrite.record = [artistRecord "old", artistRecord "new"] ∧ s.Serialized := by
  have hinit : ReachableWhen oneByOne GrantsInOrder {} := .refl
  have hstarted := ((hinit.event (.setDriver true) trivial nofun).event
    (.submit (artistRecord "old") 0) trivial nofun).event (.start 0) (by decide +kernel) nofun
  have hheld := hstarted.event (.acquire 0) (by decide +kernel)
    (grantsInOrder_acquire hstarted (by decide +kernel))
  have hwaiting := ((hheld.event (.submit (artistRecord "new") 1) trivial nofun).event (.start 1)
    (by decide +kernel) nofun).event (.resume 0 (.committed [true])) (by decide +kernel) nofun
  have hcommitted := (hwaiting.event (.acquire 1) (by decide +kernel)
    (grantsInOrder_acquire hwaiting (by decide +kernel))).event (.resume 1 (.committed [true]))
      (by decide +kernel) nofun
  exact ⟨_, hcommitted, by decide +kernel, (flushes_serialized rfl).1 hcommitted⟩

end Flushes

end Brainzgraphinator
