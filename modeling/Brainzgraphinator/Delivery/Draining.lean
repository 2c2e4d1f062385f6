-- SUMMARY: What the service has taken on comes to an end, and only an interrupted write task leaves a delivery waiting.
import Mathlib.Algebra.BigOperators.Intervals
import Mathlib.Algebra.Order.BigOperators.Group.Finset
import Mathlib.Algebra.Order.BigOperators.Group.List
import Mathlib.Algebra.Ring.Nat
import Brainzgraphinator.Base.Descent
import Brainzgraphinator.Delivery.AckAfterCommit
import Brainzgraphinator.Delivery.FlushSettles
import Brainzgraphinator.Delivery.Linger

/-!
# Draining

`Works` are the steps in which the service works on what it has taken on: its flush timer
runs, a write task goes on with whatever its await came out with, a delivery hears of its
record. Each of them takes something off the `load`. Where none is left nothing is
pending, every write task has ended and the commit lock is free; a delivery that still
waits was in the batch of a task that was interrupted (`Drained`).
-/

namespace Brainzgraphinator

open Descent

/-! ## Write tasks -/

/-- The await comes out with something that it can come out with. -/
def FlushPc.Fits : FlushPc → Awaited → Prop
  | .waiting, .raised error => error = .cancelled
  | .committing, .committed _ | .committing, .raised _ => True
  | .merging _, .returned | .merging _, .raised _ => True
  | .replaying _ _, .committed flags => flags.length = 1
  | .replaying _ _, .raised _ => True
  | .replayMerging _ _ _, .returned | .replayMerging _ _ _, .raised _ => True
  | _, _ => False

/-- The awaits a task has before it at most, with a batch of this length. -/
def FlushPc.load (batch : Nat) : FlushPc → Nat
  | .created => 2 * batch + 4
  | .waiting => 2 * batch + 3
  | .committing => 2 * batch + 2
  | .merging _ => 1
  | .replaying _ rest => 2 * rest.length + 2
  | .replayMerging _ _ rest => 2 * rest.length + 1
  | .finished => 0

namespace Flushes

variable {settings : Settings} {s s' : Flushes} {i j : Nat}

/-- The write tasks go on with what they have. -/
def Works (s : Flushes) : Event → Prop
  | .fire _ | .start _ | .acquire _ => True
  | .resume i awaited => (s.pc i).Fits awaited
  | .submit _ _ | .cancelSubmitter _ | .setDriver _ | .cancelUnstarted _ => False

/-- What a flush of the pending records takes, and what the tasks have before them. -/
def load (s : Flushes) : Nat :=
  (if s.batcher.pending = [] then 0 else 2 * s.batcher.pending.length + 5) +
    ∑ i ∈ Finset.range s.batcher.writes.length, (s.pc i).load (s.batch i).length

/-! ### The lock -/

/-- The lock holds those that wait for it and its holder. -/
structure LockInv (s : Flushes) : Prop where
  nodup : s.lock.Nodup
  mem : ∀ i ∈ s.lock, s.pc i = .waiting ∨ s.pc i = .committing
  waiting : ∀ i, s.pc i = .waiting → i ∈ s.lock

theorem LockInv.init : LockInv {} := ⟨List.nodup_nil, nofun, fun _ h => by cases h⟩

/-- Task `i` leaves the lock, if it is in it. -/
theorem LockInv.leave (h : LockInv s) (hpc : ∀ j, j ≠ i → s'.pc j = s.pc j) (hi : s'.pc i ≠ .waiting)
    (hlock : s'.lock = s.lock.erase i) : LockInv s' := by
  refine ⟨hlock ▸ h.nodup.erase i, fun j hj => ?_, fun j hj => ?_⟩
  · rw [hlock, h.nodup.mem_erase_iff] at hj
    rw [hpc j hj.1]
    exact h.mem j hj.2
  · have hne : j ≠ i := by
      rintro rfl
      exact hi hj
    rw [hlock, h.nodup.mem_erase_iff]
    exact ⟨hne, h.waiting j (hpc j hne ▸ hj)⟩

theorem LockInv.erase_eq (h : LockInv s) (hwaiting : s.pc i ≠ .waiting) (hcommitting : s.pc i ≠ .committing) :
    s.lock.erase i = s.lock :=
  List.erase_of_not_mem fun hi => (h.mem i hi).elim hwaiting hcommitting

/-- Ending or replaying, a task neither waits for the lock nor changes it. -/
structure Outside (i n : Nat) (s s' : Flushes) : Prop where
  lock : s'.lock = s.lock
  load : ∀ batch, (s'.pc i).load batch ≤ 2 * n
  waiting : s'.pc i ≠ .waiting

theorem outside_finished (i n : Nat) {values : List (PendingWrite × FutureState)} (h : Settles values s s') :
    Outside i n s (s'.setPc i .finished) := by
  have hpc : (s'.setPc i .finished).pc i = .finished := Function.update_self _ _ _
  refine ⟨?_, fun batch => ?_, ?_⟩
  · rw [h.eq]
    rfl
  · rw [hpc]
    exact Nat.zero_le _
  · rw [hpc]
    rintro ⟨⟩

theorem outside_replay (i : Nat) (items : List PendingWrite) (s : Flushes) :
    Outside i items.length s (s.replay i items) := by
  rw [replay_eq]
  split
  · cases items with
    | nil => exact outside_finished i _ (settles_nil s)
    | cons item rest =>
      have hpc : ((s.beginTx i [item]).setPc i (.replaying item rest)).pc i = .replaying item rest :=
        Function.update_self _ _ _
      refine ⟨rfl, fun batch => ?_, ?_⟩
      · dsimp only
        rw [hpc, FlushPc.load, List.length_cons]
        omega
      · dsimp only
        rw [hpc]
        rintro ⟨⟩
  · exact outside_finished i _ (settles_fail items notInitialized s)

theorem outside_commitFailed (i : Nat) (error : Raised) (s : Flushes) :
    Outside i (s.batch i).length s (s.commitFailed i error) := by
  have hfail := outside_finished i (s.batch i).length (settles_fail (s.batch i) error s)
  cases error with
  | transient => exact hfail
  | cancelled => exact hfail
  | other name =>
    rw [commitFailed]
    split
    · exact hfail
    · exact outside_replay i _ s

theorem outside_settle_replay (i : Nat) (item : PendingWrite) (rest : List PendingWrite) {value : FutureState}
    (hvalue : value.done = true) (s : Flushes) :
    Outside i rest.length s ((s.settle item value).replay i rest) := by
  have h := outside_replay i rest (s.settle item value)
  refine ⟨h.lock.trans ?_, h.load, h.waiting⟩
  rw [(settles_settle item hvalue s).eq]
  rfl

theorem outside_replayRaised (i : Nat) (item : PendingWrite) (rest : List PendingWrite) (error : Raised)
    (s : Flushes) : Outside i rest.length s (s.replayRaised i item rest error) := by
  cases error with
  | cancelled => exact outside_finished i _ (settles_nil s)
  | transient => exact outside_settle_replay i item rest rfl s
  | other name => exact outside_settle_replay i item rest rfl s

/-! ### One step of a task -/

/-- Task `i` leaves the lock, or was not in it, and has less before it than this. -/
structure Advances (i n : Nat) (s s' : Flushes) : Prop where
  lock : s'.lock = s.lock.erase i
  load : (s'.pc i).load (s.batch i).length < n
  waiting : s'.pc i ≠ .waiting

theorem Outside.advances {n m : Nat} {s₀ : Flushes} (h : Outside i m s₀ s') (hlock : s₀.lock = s.lock.erase i)
    (hm : 2 * m < n) : Advances i n s s' :=
  ⟨h.lock.trans hlock, Nat.lt_of_le_of_lt (h.load _) hm, h.waiting⟩

theorem advances_setPc (s₀ : Flushes) {n : Nat} (hlock : s₀.lock = s.lock.erase i) {pc : FlushPc}
    (hpc : pc ≠ .waiting) (hload : pc.load (s.batch i).length < n) : Advances i n s (s₀.setPc i pc) := by
  have hself : (s₀.setPc i pc).pc i = pc := Function.update_self _ _ _
  exact ⟨hlock, by rw [hself]; exact hload, by rw [hself]; exact hpc⟩

/-- A task that goes on with what its await came out with. -/
theorem advances_resume (hlock : LockInv s) {awaited : Awaited} (hfits : (s.pc i).Fits awaited) :
    Advances i ((s.pc i).load (s.batch i).length) s (s.resume i awaited) := by
  have hout : s.pc i ≠ .waiting → s.pc i ≠ .committing → s.lock = s.lock.erase i :=
    fun hwaiting hcommitting => (hlock.erase_eq hwaiting hcommitting).symm
  cases hpc : s.pc i with
  | created => rw [hpc] at hfits; cases awaited <;> cases hfits
  | finished => rw [hpc] at hfits; cases awaited <;> cases hfits
  | waiting =>
    rw [hpc] at hfits
    cases awaited with
    | raised error =>
      obtain rfl : error = .cancelled := hfits
      simp only [resume, hpc]
      refine (outside_commitFailed i .cancelled (s.release i)).advances rfl ?_
      change 2 * (s.batch i).length < 2 * (s.batch i).length + 3
      omega
    | returned => cases hfits
    | committed flags => cases hfits
  | committing =>
    rw [hpc] at hfits
    cases awaited with
    | returned => cases hfits
    | committed flags =>
      simp only [resume, hpc]
      refine advances_setPc ((s.release i).commitTx _) rfl ?_ ?_
      · rintro ⟨⟩
      · rw [FlushPc.load, FlushPc.load]
        omega
    | raised error =>
      simp only [resume, hpc]
      refine (outside_commitFailed i error ((s.release i).failTx (s.batch i) error)).advances rfl ?_
      change 2 * (s.batch i).length < 2 * (s.batch i).length + 2
      omega
  | merging flags =>
    have herase := hout (by rw [hpc]; rintro ⟨⟩) (by rw [hpc]; rintro ⟨⟩)
    rw [hpc] at hfits
    cases awaited with
    | committed flags => cases hfits
    | returned =>
      simp only [resume, hpc]
      have hfinished := outside_finished i 0 (settles_setResults ((s.batch i).zip flags) s)
      exact hfinished.advances herase Nat.zero_lt_one
    | raised error =>
      simp only [resume, hpc]
      exact (outside_finished i 0 (settles_nil s)).advances herase Nat.zero_lt_one
  | replaying item rest =>
    have herase := hout (by rw [hpc]; rintro ⟨⟩) (by rw [hpc]; rintro ⟨⟩)
    rw [hpc] at hfits
    cases awaited with
    | returned => cases hfits
    | committed flags =>
      obtain ⟨matched, rfl⟩ := List.length_eq_one_iff.mp (show flags.length = 1 from hfits)
      simp only [resume, hpc]
      refine advances_setPc (s.commitTx _) herase ?_ ?_
      · rintro ⟨⟩
      · rw [FlushPc.load, FlushPc.load]
        omega
    | raised error =>
      simp only [resume, hpc]
      refine (outside_replayRaised i item rest error (s.failTx [item] error)).advances herase ?_
      rw [FlushPc.load]
      omega
  | replayMerging item matched rest =>
    have herase := hout (by rw [hpc]; rintro ⟨⟩) (by rw [hpc]; rintro ⟨⟩)
    rw [hpc] at hfits
    cases awaited with
    | committed flags => cases hfits
    | returned =>
      simp only [resume, hpc]
      refine (outside_settle_replay i item rest rfl s).advances herase ?_
      rw [FlushPc.load]
      omega
    | raised error =>
      simp only [resume, hpc]
      refine (outside_replayRaised i item rest error s).advances herase ?_
      rw [FlushPc.load]
      omega

/-- Anything else the await does not come out with. -/
theorem resume_of_not_fits {awaited : Awaited} (h : ¬(s.pc i).Fits awaited) : s.resume i awaited = s := by
  unfold resume
  split
  case h_10 => rfl
  all_goals
    rename_i hpc
    rw [hpc] at h
  · exact absurd rfl h
  · exact absurd trivial h
  · exact absurd trivial h
  · exact absurd trivial h
  · exact absurd trivial h
  · exact absurd rfl h
  · exact absurd trivial h
  · exact absurd trivial h
  · exact absurd trivial h

/-- A task enters the guarded commit, with the lock or without one. -/
theorem lockInv_enterCommit (h : LockInv s) : LockInv (s.enterCommit i) := by
  rw [enterCommit]
  split
  · have hself : ((s.beginTx i (s.batch i)).setPc i .committing).pc i = .committing := Function.update_self _ _ _
    have hother : ∀ j, j ≠ i → ((s.beginTx i (s.batch i)).setPc i .committing).pc j = s.pc j :=
      fun j hj => Function.update_of_ne hj _ _
    refine ⟨h.nodup, fun j hj => ?_, fun j hj => ?_⟩
    · by_cases hji : j = i
      · rw [hji, hself]
        exact .inr rfl
      · rw [hother j hji]
        exact h.mem j hj
    · by_cases hji : j = i
      · rw [hji, hself] at hj
        cases hj
      · rw [hother j hji] at hj
        exact h.waiting j hj
  · have hout := outside_commitFailed i notInitialized (s.release i)
    exact h.leave (fun j hj => (taskStep_commitFailed notInitialized).pc j hj) hout.waiting hout.lock

theorem load_enterCommit (i : Nat) (s : Flushes) :
    ((s.enterCommit i).pc i).load (s.batch i).length ≤ 2 * (s.batch i).length + 2 := by
  rw [enterCommit]
  split
  · have hself : ((s.beginTx i (s.batch i)).setPc i .committing).pc i = .committing := Function.update_self _ _ _
    rw [hself, FlushPc.load]
  · have hload := (outside_commitFailed i notInitialized (s.release i)).load (s.batch i).length
    change _ ≤ 2 * (s.batch i).length at hload
    omega

theorem LockInv.apply (h : LockInv s) (hinv : Inv settings s) {e : Event} (he : s.Enabled e) :
    LockInv (s.apply settings e) := by
  cases e with
  | submit record span => exact ⟨h.nodup, h.mem, h.waiting⟩
  | fire t => exact ⟨h.nodup, h.mem, h.waiting⟩
  | cancelSubmitter future => exact ⟨h.nodup, h.mem, h.waiting⟩
  | setDriver driver => exact ⟨h.nodup, h.mem, h.waiting⟩
  | start i =>
    obtain ⟨_, hpc, _⟩ := he
    change LockInv (s.start settings i)
    rw [start]
    split
    · have hself : (({ s with lock := s.lock ++ [i] } : Flushes).setPc i .waiting).pc i = .waiting :=
        Function.update_self _ _ _
      have hother : ∀ j, j ≠ i → (({ s with lock := s.lock ++ [i] } : Flushes).setPc i .waiting).pc j = s.pc j :=
        fun j hj => Function.update_of_ne hj _ _
      have hnot : i ∉ s.lock := by
        intro hi
        rcases h.mem i hi with hwaiting | hcommitting
        · rw [hpc] at hwaiting
          cases hwaiting
        · rw [hpc] at hcommitting
          cases hcommitting
      refine ⟨?_, fun j hj => ?_, fun j hj => ?_⟩
      · refine List.nodup_append.mpr ⟨h.nodup, List.nodup_singleton i, fun j hj k hk => ?_⟩
        rw [List.mem_singleton.mp hk]
        rintro rfl
        exact hnot hj
      · by_cases hji : j = i
        · rw [hji, hself]
          exact .inl rfl
        · rw [hother j hji]
          exact h.mem j ((List.mem_append.mp hj).resolve_right fun hlast => hji (List.mem_singleton.mp hlast))
      · by_cases hji : j = i
        · rw [hji]
          exact List.mem_append_right _ (List.mem_singleton_self i)
        · rw [hother j hji] at hj
          exact List.mem_append_left _ (h.waiting j hj)
    · exact lockInv_enterCommit h
  | cancelUnstarted i =>
    obtain ⟨_, hpc⟩ := he
    have hself : (s.setPc i .finished).pc i = .finished := Function.update_self _ _ _
    refine h.leave (fun j hj => Function.update_of_ne hj _ _) ?_ (h.erase_eq ?_ ?_).symm
    · change (s.setPc i .finished).pc i ≠ .waiting
      rw [hself]
      rintro ⟨⟩
    · rw [hpc]
      rintro ⟨⟩
    · rw [hpc]
      rintro ⟨⟩
  | acquire i => exact lockInv_enterCommit h
  | resume i awaited =>
    change LockInv (s.resume i awaited)
    by_cases hfits : (s.pc i).Fits awaited
    · have hadvances := advances_resume h hfits
      have hstep : TaskStep i s (s.resume i awaited) :=
        taskStep_resume (hinv.reported i) (hinv.remaining i).subset
      exact h.leave hstep.pc hadvances.waiting hadvances.lock
    · rw [resume_of_not_fits hfits]
      exact h

/-! ### The load -/

/-- A task that has less before it takes it off the load. -/
theorem load_task (hstep : TaskStep i s s') (hi : i < s.batcher.writes.length)
    (h : (s'.pc i).load (s.batch i).length < (s.pc i).load (s.batch i).length) : s'.load < s.load := by
  have hpending : s'.batcher.pending = s.batcher.pending := by rw [hstep.batcher]
  have hwrites : s'.batcher.writes = s.batcher.writes := by rw [hstep.batcher]
  rw [load, load, hpending, hwrites]
  refine Nat.add_lt_add_left (Finset.sum_lt_sum (fun j _ => ?_) ⟨i, Finset.mem_range.mpr hi, ?_⟩) _
  · rw [hstep.batch_eq]
    by_cases hj : j = i
    · subst hj
      exact Nat.le_of_lt h
    · rw [hstep.pc j hj]
  · rw [hstep.batch_eq]
    exact h

theorem load_fire (hinv : Inv settings s) {t : Nat} (ht : t ∈ s.batcher.armed) :
    (s.apply settings (.fire t)).load < s.load := by
  have hpending : s.batcher.pending ≠ [] := by
    intro hnil
    have harmed := hinv.batcher.armed
    rw [if_pos hnil] at harmed
    rw [harmed.2] at ht
    cases ht
  obtain ⟨hpending', _, hwrites⟩ := hinv.batcher.fire_cases ht
  rw [load, load, if_neg hpending]
  change (if (s.batcher.fire settings t).pending = [] then 0 else _) +
    ∑ i ∈ Finset.range (s.batcher.fire settings t).writes.length,
      (s.pc i).load (((s.batcher.fire settings t).writes[i]?).getD []).length < _
  rw [if_pos hpending', Nat.zero_add]
  rcases hwrites with hsame | ⟨live, hlive, happend⟩
  · rw [hsame]
    change ∑ i ∈ Finset.range s.batcher.writes.length, (s.pc i).load (s.batch i).length < _
    omega
  · have hlength := hlive.length_le
    rw [happend, List.length_append, List.length_singleton, Finset.sum_range_succ, List.getElem?_concat_length,
      Option.getD_some, hinv.created _ (Nat.le_refl _), FlushPc.load]
    have hold : ∑ i ∈ Finset.range s.batcher.writes.length,
        (s.pc i).load (((s.batcher.writes ++ [live])[i]?).getD []).length =
          ∑ i ∈ Finset.range s.batcher.writes.length, (s.pc i).load (s.batch i).length := by
      refine Finset.sum_congr rfl fun i hi => ?_
      rw [List.getElem?_append_left (Finset.mem_range.mp hi), batch]
    rw [hold]
    omega

theorem load_works (hinv : Inv settings s) (hlock : LockInv s) {e : Event} (he : s.Enabled e) (hworks : s.Works e) :
    (s.apply settings e).load < s.load := by
  cases e with
  | submit record span => cases hworks
  | cancelSubmitter future => cases hworks
  | setDriver driver => cases hworks
  | cancelUnstarted i => cases hworks
  | fire t => exact load_fire hinv he
  | start i =>
    obtain ⟨hi, hpc, _⟩ := he
    refine load_task taskStep_start hi ?_
    change ((s.start settings i).pc i).load _ < _
    rw [hpc, start]
    split
    · have hself : (({ s with lock := s.lock ++ [i] } : Flushes).setPc i .waiting).pc i = .waiting :=
        Function.update_self _ _ _
      rw [hself, FlushPc.load, FlushPc.load]
      omega
    · have hload := load_enterCommit i s
      rw [FlushPc.load]
      omega
  | acquire i =>
    obtain ⟨hpc, _⟩ := he
    have hi : i < s.batcher.writes.length := by
      by_contra hle
      rw [hinv.created i (Nat.le_of_not_lt hle)] at hpc
      cases hpc
    refine load_task taskStep_enterCommit hi ?_
    change ((s.enterCommit i).pc i).load _ < _
    have hload := load_enterCommit i s
    rw [hpc, FlushPc.load]
    omega
  | resume i awaited =>
    have hi : i < s.batcher.writes.length := by
      by_contra hle
      have hcreated := hinv.created i (Nat.le_of_not_lt hle)
      change (s.pc i).Fits awaited at hworks
      rw [hcreated] at hworks
      cases awaited <;> cases hworks
    exact load_task (taskStep_resume (hinv.reported i) (hinv.remaining i).subset) hi (advances_resume hlock hworks).load

/-! ### Who can go on -/

/-- Where a task has not ended, some task can go on without an interruption: it, an older
one that has yet to start, or the one that holds the lock it waits for. -/
theorem exists_works (hlock : LockInv s) (hi : i < s.batcher.writes.length) (hpc : s.pc i ≠ .finished) :
    ∃ e, s.Enabled e ∧ s.Works e ∧ ∀ k, ¬s.Interrupts k e := by
  have hresume : ∀ j awaited, s.Enabled (.resume j awaited) → (s.pc j).Fits awaited → ¬s.Abandons j awaited →
      ∃ e, s.Enabled e ∧ s.Works e ∧ ∀ k, ¬s.Interrupts k e := by
    intro j awaited henabled hfits hnot
    refine ⟨.resume j awaited, henabled, hfits, fun k hk => ?_⟩
    obtain ⟨rfl, habandons⟩ := hk
    exact hnot habandons
  have hraised : ∀ j, s.pc j = .committing → ∃ e, s.Enabled e ∧ s.Works e ∧ ∀ k, ¬s.Interrupts k e := by
    intro j hj
    refine hresume j (.raised .transient) trivial ?_ ?_
    · rw [hj]
      trivial
    · rw [Abandons, hj]
      exact id
  cases h : s.pc i with
  | finished => exact absurd h hpc
  | created =>
    -- The oldest task that has yet to start.
    classical
    have hex : ∃ k, s.pc k = .created := ⟨i, h⟩
    refine ⟨.start (Nat.find hex), ⟨?_, Nat.find_spec hex, fun k hk => Nat.find_min hex hk⟩, trivial, fun _ => id⟩
    exact Nat.lt_of_le_of_lt (Nat.find_min' hex h) hi
  | waiting =>
    cases hhead : s.lock with
    | nil =>
      have hmem := hlock.waiting i h
      rw [hhead] at hmem
      cases hmem
    | cons holder rest =>
      have hmem : holder ∈ s.lock := by
        rw [hhead]
        exact List.mem_cons_self
      rcases hlock.mem holder hmem with hwaiting | hcommitting
      · exact ⟨.acquire holder, ⟨hwaiting, by rw [hhead]; rfl⟩, trivial, fun _ => id⟩
      · exact hraised holder hcommitting
  | committing => exact hraised i h
  | merging flags => exact hresume i .returned trivial (by rw [h]; trivial) id
  | replaying item rest =>
    refine hresume i (.raised .transient) trivial (by rw [h]; trivial) ?_
    rw [Abandons, h]
    rintro ⟨⟩
  | replayMerging item matched rest =>
    refine hresume i (.raised .transient) trivial (by rw [h]; trivial) ?_
    rw [Abandons, h]
    rintro ⟨⟩

theorem exists_works_of_pending (hinv : Inv settings s) (h : s.batcher.pending ≠ []) :
    ∃ e, s.Enabled e ∧ s.Works e ∧ ∀ k, ¬s.Interrupts k e := by
  have harmed := hinv.batcher.armed
  rw [if_neg h] at harmed
  obtain ⟨t, _, htimers⟩ := harmed
  refine ⟨.fire t, ?_, trivial, fun _ => id⟩
  change t ∈ s.batcher.armed
  rw [htimers]
  exact List.mem_singleton_self t

/-! ### Whom an ended task leaves behind -/

/-- No task that has ended has a member that waits. -/
def LeavesNobody (s : Flushes) : Prop := ∀ i, s.pc i = .finished → ∀ w ∈ s.batch i, s.Settled w

theorem LeavesNobody.apply (h : LeavesNobody s) (hinv : Inv settings s) {e : Event} (he : s.Enabled e)
    (hharmless : s.Harmless e) : LeavesNobody (s.apply settings e) := by
  intro i hpc'
  by_cases hpc : s.pc i = .finished
  · have hi : i < s.batcher.writes.length := by
      by_contra hle
      rw [hinv.created i (Nat.le_of_not_lt hle)] at hpc
      cases hpc
    have hkeeps := hinv.keeps_apply he
    intro w hw
    rw [hkeeps.batch_eq hi] at hw
    exact (h i hpc w hw).keeps hkeeps
  · exact (hinv.settled_iff he hpc hpc').mpr fun hint => hharmless i hint

end Flushes

/-! ## Deliveries -/

/-- The awaits a delivery has before it. -/
def DeliveryPc.load : DeliveryPc → Nat
  | .awaiting _ | .writing => 2
  | .merging _ => 1
  | .received | .returned _ | .raised _ => 0

namespace Service

variable {settings : Settings} {p : Flushes → Flushes.Event → Prop} {bodies : Nat → Except String Json}
  {s s' : Service} {d : Nat}

/-- The service works on with what it has taken on; its write tasks take what `p` lets
happen to them. -/
inductive Works (settings : Settings) (p : Flushes → Flushes.Event → Prop) : Service → Service → Prop
  | flush {s : Service} {e : Flushes.Event} : s.flushes.Enabled e → s.flushes.Works e → p s.flushes e →
      Works settings p s { s with flushes := s.flushes.apply settings e }
  /-- The future of a delivery is done, and the delivery goes on. -/
  | wake {s : Service} {d future : Nat} : s.pc d = .awaiting future →
      (s.flushes.batcher.futures future).done = true → Works settings p s (s.wake d)
  | wrote {s : Service} {d : Nat} (result : Except Raised Bool) : s.pc d = .writing →
      Works settings p s (s.wrote d result)
  | merged {s : Service} {d : Nat} {matched : Bool} (error : Option Raised) : s.pc d = .merging matched →
      Works settings p s (s.merged d error)

theorem Works.step (h : Works settings p s s') : Step settings bodies s s' := by
  cases h with
  | flush he hworks _ =>
    refine .flush he ?_
    rintro record span rfl
    cases hworks
  | wake _ _ => exact .wake _ s
  | wrote result _ => exact .wrote _ result s
  | merged error _ => exact .merged _ error s

def load (s : Service) : Nat :=
  s.flushes.load + (s.flushes.batcher.submitted.map fun w => (s.pc w.span).load).sum +
    (s.singles.map fun w => (s.pc w.delivery).load).sum

/-- A delivery has a result, has raised or has yet to begin. -/
def Over (s : Service) (d : Nat) : Prop :=
  s.pc d = .received ∨ (∃ result, s.pc d = .returned result) ∨ ∃ error, s.pc d = .raised error

/-- What is left in the end: nothing is pending, every task has ended, the lock is free, and a
delivery is over or waits for a future that the task of its batch left behind. -/
structure Drained (s : Service) : Prop where
  pending : s.flushes.batcher.pending = []
  armed : s.flushes.batcher.armed = []
  finished : ∀ i < s.flushes.batcher.writes.length, s.flushes.pc i = .finished
  lock : s.flushes.lock = []
  deliveries : ∀ d, s.Over d ∨ ∃ i < s.flushes.batcher.writes.length, ∃ w ∈ s.flushes.batch i,
    w.span = d ∧ s.pc d = .awaiting w.future ∧ s.flushes.batcher.futures w.future = .pending

/-! ### The load goes down -/

/-- A delivery whose record is with the batcher or in a single-record write takes its own
steps off the load. -/
theorem load_delivery (hflushes : s'.flushes = s.flushes)
    (hsingles : s'.singles.map SingleWrite.delivery = s.singles.map SingleWrite.delivery)
    (hpc : ∀ d', d' ≠ d → s'.pc d' = s.pc d') (hlt : (s'.pc d).load < (s.pc d).load)
    (hsubmitted : s.Submitted d) : s'.load < s.load := by
  have hle : ∀ d', (s'.pc d').load ≤ (s.pc d').load := by
    intro d'
    by_cases hd : d' = d
    · rw [hd]
      exact Nat.le_of_lt hlt
    · rw [hpc d' hd]
  have hmap : ∀ s : Service, (s.singles.map fun w => (s.pc w.delivery).load) =
      (s.singles.map SingleWrite.delivery).map fun d => (s.pc d).load := by
    intro s
    rw [List.map_map]
    rfl
  rw [load, load, hflushes, hmap, hmap, hsingles]
  rcases hsubmitted with ⟨w, hw, rfl⟩ | ⟨w, hw, rfl⟩
  · have hbatched := List.sum_lt_sum (fun w => (s'.pc w.span).load) (fun w => (s.pc w.span).load)
      (fun w _ => hle w.span) ⟨w, hw, hlt⟩
    have hsingle := List.sum_le_sum (f := fun d => (s'.pc d).load) (g := fun d => (s.pc d).load)
      (l := s.singles.map SingleWrite.delivery) fun d _ => hle d
    omega
  · have hbatched := List.sum_le_sum (f := fun w : PendingWrite => (s'.pc w.span).load)
      (g := fun w => (s.pc w.span).load) (l := s.flushes.batcher.submitted) fun w _ => hle w.span
    have hsingle := List.sum_lt_sum (fun d => (s'.pc d).load) (fun d => (s.pc d).load)
      (fun d _ => hle d) ⟨w.delivery, List.mem_map_of_mem hw, hlt⟩
    omega

theorem submitted_of_awaiting (hinv : Inv settings bodies s) {future : Nat} (hpc : s.pc d = .awaiting future) :
    ∃ w ∈ s.flushes.batcher.submitted, w.span = d ∧ w.future = future := by
  have hsound := hinv.sound d
  rwa [hpc] at hsound

theorem submitted_of_merging (hinv : Inv settings bodies s) {matched : Bool} (hpc : s.pc d = .merging matched) :
    s.Submitted d := by
  have hsound := hinv.sound d
  rw [hpc] at hsound
  obtain ⟨body, _, hcommitted⟩ := hsound
  rcases hcommitted with ⟨tx, htx, x, hx, hspan, _⟩ | hsingle
  · obtain ⟨j, hj⟩ := hinv.flushes.committed tx htx
    exact .inl ⟨x.1, hinv.flushes.mem_submitted (hj x hx), hspan⟩
  · exact .inr ⟨_, hsingle, rfl⟩

theorem submitted_of_writing (hinv : Inv settings bodies s) (hpc : s.pc d = .writing) : s.Submitted d := by
  have hsound := hinv.sound d
  rw [hpc] at hsound
  obtain ⟨w, hw, hd, _⟩ := hsound
  exact .inr ⟨w, hw, hd⟩

theorem load_failure (error : Raised) : (failure error).load = 0 := by
  cases error <;> rfl

theorem load_setPc (hsubmitted : s.Submitted d) {pc : DeliveryPc} (hlt : pc.load < (s.pc d).load) :
    (s.setPc d pc).load < s.load := by
  refine load_delivery (d := d) rfl rfl (fun d' hd => Function.update_of_ne hd _ _) ?_ hsubmitted
  have hself : (s.setPc d pc).pc d = pc := Function.update_self _ _ _
  rwa [hself]

theorem load_works (hinv : Inv settings bodies s) (hlock : Flushes.LockInv s.flushes) (h : Works settings p s s') :
    s'.load < s.load := by
  cases h with
  | @flush e he hworks _ =>
    have hsubmitted : (s.flushes.apply settings e).batcher.submitted = s.flushes.batcher.submitted := by
      refine submitted_apply hinv.flushes he ?_
      rintro record span rfl
      cases hworks
    have hlt := Flushes.load_works hinv.flushes hlock he hworks
    rw [load, load]
    dsimp only
    rw [hsubmitted]
    omega
  | @wake d future hpc hdone =>
    obtain ⟨w, hw, hspan, _⟩ := submitted_of_awaiting hinv hpc
    have hsubmitted : s.Submitted d := .inl ⟨w, hw, hspan⟩
    have hload : (s.pc d).load = 2 := by rw [hpc]; rfl
    unfold wake
    rw [hpc]
    dsimp only
    cases hf : s.flushes.batcher.futures future with
    | pending =>
      rw [hf] at hdone
      cases hdone
    | result matched => exact load_setPc hsubmitted (by rw [hload]; exact Nat.one_lt_two)
    | exception error => exact load_setPc hsubmitted (by rw [hload, load_failure]; exact Nat.zero_lt_two)
    | cancelled => exact load_setPc hsubmitted (by rw [hload, load_failure]; exact Nat.zero_lt_two)
  | @wrote d result hpc =>
    have hload : (s.pc d).load = 2 := by rw [hpc]; rfl
    rw [wrote, hpc]
    dsimp only
    refine load_delivery (d := d) rfl ?_ (fun d' hd => Function.update_of_ne hd _ _) ?_ (submitted_of_writing hinv hpc)
    · change (s.singles.map (settled d result)).map SingleWrite.delivery = _
      rw [List.map_map]
      refine List.map_congr_left fun w _ => ?_
      rw [Function.comp_apply, settled]
      split <;> rfl
    · rw [hload]
      cases result with
      | ok matched =>
        have hself : (s.endSingle d (.ok matched)).pc d = .merging matched := Function.update_self _ _ _
        rw [hself]
        exact Nat.one_lt_two
      | error error =>
        have hself : (s.endSingle d (.error error)).pc d = failure error := Function.update_self _ _ _
        rw [hself, load_failure]
        exact Nat.zero_lt_two
  | @merged d matched error hpc =>
    have hsubmitted := submitted_of_merging hinv hpc
    have hload : (s.pc d).load = 1 := by rw [hpc]; rfl
    rw [merged, hpc]
    dsimp only
    cases error with
    | none => exact load_setPc hsubmitted (by rw [hload]; exact Nat.zero_lt_one)
    | some error => exact load_setPc hsubmitted (by rw [hload, load_failure]; exact Nat.zero_lt_one)

theorem flushes_wake (d : Nat) (s : Service) : (s.wake d).flushes = s.flushes := by
  unfold wake
  repeat' split
  all_goals rfl

theorem flushes_wrote (d : Nat) (result : Except Raised Bool) (s : Service) :
    (s.wrote d result).flushes = s.flushes := by
  unfold wrote
  split <;> rfl

theorem flushes_merged (d : Nat) (error : Option Raised) (s : Service) : (s.merged d error).flushes = s.flushes := by
  unfold merged
  repeat' split
  all_goals rfl

theorem flushes_step (h : Step settings bodies s s') :
    s'.flushes = s.flushes ∨ ∃ e, s.flushes.Enabled e ∧ s'.flushes = s.flushes.apply settings e := by
  cases h with
  | flush he _ => exact .inr ⟨_, he, rfl⟩
  | @handler _ d hpc =>
    unfold handler operation
    split
    · exact .inl rfl
    · split
      · exact .inl rfl
      · rename_i body _
        split
        · exact .inl rfl
        · dsimp only
          split
          · exact .inl rfl
          · split
            · exact .inl rfl
            · split
              · exact .inl rfl
              · split
                · exact .inr ⟨.submit body d, trivial, rfl⟩
                · exact .inl rfl
      · exact .inl rfl
  | shutdown => exact .inl rfl
  | wake d => exact .inl (flushes_wake d s)
  | cancel d =>
    unfold cancel
    split
    · rename_i future _
      exact .inr ⟨.cancelSubmitter future, trivial, rfl⟩
    all_goals exact .inl rfl
  | wrote d result => exact .inl (flushes_wrote d result s)
  | merged d error => exact .inl (flushes_merged d error s)

/-- What the descent rests on. -/
structure Sane (settings : Settings) (bodies : Nat → Except String Json) (s : Service) : Prop where
  inv : Inv settings bodies s
  lock : Flushes.LockInv s.flushes

theorem Sane.step (h : Sane settings bodies s) (hstep : Step settings bodies s s') : Sane settings bodies s' := by
  refine ⟨h.inv.step hstep, ?_⟩
  rcases flushes_step hstep with hsame | ⟨e, he, happly⟩
  · exact hsame ▸ h.lock
  · exact happly ▸ h.lock.apply h.inv.flushes he

theorem Reachable.sane (h : Reachable settings bodies s) : Sane settings bodies s := by
  induction h with
  | refl => exact ⟨.init, .init⟩
  | tail _ hstep ih => exact ih.step hstep

theorem works_descends : Descends (Works settings p) (Sane settings bodies) load where
  keeps h hworks := h.step hworks.step
  lt h hworks := load_works h.inv h.lock hworks

theorem leavesNobody_path (h : Sane settings bodies s) (hharmless : ∀ t e, p t e → t.Harmless e)
    (hleaves : s.flushes.LeavesNobody) {n : Nat} (hpath : Path (Works settings p) n s s') :
    s'.flushes.LeavesNobody := by
  induction hpath with
  | nil => exact hleaves
  | snoc hprefix hworks ih =>
    have hsane := works_descends.inv_of_path h hprefix
    have hleft := ih h hleaves
    cases hworks with
    | flush he _ hp => exact hleft.apply hsane.inv.flushes he (hharmless _ _ hp)
    | wake hpc _ => rwa [flushes_wake]
    | wrote result hpc => rwa [flushes_wrote]
    | merged error hpc => rwa [flushes_merged]

/-! ### The end -/

/-- Where the service cannot work on, it has drained. -/
theorem Sane.drained (h : Sane settings bodies s) (hp : ∀ t e, (∀ i, ¬t.Interrupts i e) → p t e)
    (hstuck : Stuck (Works settings p) s) : s.Drained := by
  have hidle : ¬∃ e, s.flushes.Enabled e ∧ s.flushes.Works e ∧ ∀ k, ¬s.flushes.Interrupts k e := by
    rintro ⟨e, he, hworks, hnot⟩
    exact hstuck _ (.flush he hworks (hp _ e hnot))
  have hpending : s.flushes.batcher.pending = [] := by
    by_contra hne
    exact hidle (Flushes.exists_works_of_pending h.inv.flushes hne)
  have hfinished : ∀ i < s.flushes.batcher.writes.length, s.flushes.pc i = .finished := by
    intro i hi
    by_contra hne
    exact hidle (Flushes.exists_works h.lock hi hne)
  refine ⟨hpending, ?_, hfinished, ?_, fun d => ?_⟩
  · have harmed := h.inv.flushes.batcher.armed
    rw [if_pos hpending] at harmed
    exact harmed.2
  · refine List.eq_nil_iff_forall_not_mem.mpr fun i hi => ?_
    have hcreated : s.flushes.pc i ≠ .finished := by
      rcases h.lock.mem i hi with hpc | hpc <;> rw [hpc] <;> rintro ⟨⟩
    rcases Nat.lt_or_ge i s.flushes.batcher.writes.length with hlt | hge
    · exact hcreated (hfinished i hlt)
    · rcases h.lock.mem i hi with hpc | hpc <;> rw [h.inv.flushes.created i hge] at hpc <;> cases hpc
  · cases hpc : s.pc d with
    | received => exact .inl (.inl hpc)
    | returned result => exact .inl (.inr (.inl ⟨result, hpc⟩))
    | raised error => exact .inl (.inr (.inr ⟨error, hpc⟩))
    | writing => exact absurd (.wrote (.error .transient) hpc) (hstuck _)
    | merging matched => exact absurd (.merged none hpc) (hstuck _)
    | awaiting future =>
      obtain ⟨w, hw, hspan, rfl⟩ := submitted_of_awaiting h.inv hpc
      have hwaits : (s.flushes.batcher.futures w.future).done ≠ true := fun hdone => hstuck _ (.wake hpc hdone)
      obtain ⟨taken, hsubmitted, _, hperm⟩ := h.inv.flushes.batcher.taken
      rw [hsubmitted, hpending, List.append_nil] at hw
      rcases List.mem_append.mp (hperm.mem_iff.mpr hw) with hdropped | hwritten
      · exact absurd (h.inv.flushes.batcher.done w hdropped) hwaits
      · obtain ⟨batch, hbatch, hmem⟩ := List.mem_flatten.mp hwritten
        obtain ⟨i, hi, rfl⟩ := List.mem_iff_getElem.mp hbatch
        refine .inr ⟨i, hi, w, ?_, hspan, rfl, ?_⟩
        · rw [Flushes.batch, List.getElem?_eq_getElem hi]
          exact hmem
        · cases hf : s.flushes.batcher.futures w.future with
          | pending => rfl
          | _ =>
            rw [hf] at hwaits
            exact absurd rfl hwaits

theorem Drained.over (h : Drained s) (hleaves : s.flushes.LeavesNobody) (d : Nat) : s.Over d := by
  rcases h.deliveries d with hover | ⟨i, hi, w, hw, _, _, hpending⟩
  · exact hover
  · have hdone := (hleaves i (h.finished i hi) w hw).isDone
    rw [Flushes.isDone, Batcher.isDone, hpending] at hdone
    cases hdone

/-- From every state that any interleaving leads to, and whatever the awaits come out with:
the service cannot work on for more than `load` steps, it can come to an end, and wherever
it does it has drained. Where no ended task has left a delivery waiting, and from then on
interruptions only hit members that were cancelled, every delivery is over in the end. -/
theorem drains (hs : Reachable settings bodies s) (hp : ∀ t e, (∀ i, ¬t.Interrupts i e) → p t e) :
    (∀ n s', Path (Works settings p) n s s' → n ≤ s.load) ∧
      (∃ n s', Path (Works settings p) n s s' ∧ Stuck (Works settings p) s') ∧
      ∀ n s', Path (Works settings p) n s s' → Stuck (Works settings p) s' → s'.Drained ∧
        (s.flushes.LeavesNobody → (∀ t e, p t e → t.Harmless e) → ∀ d, s'.Over d) := by
  have hdescends : Descends (Works settings p) (Sane settings bodies) load := works_descends
  refine ⟨fun n s' hpath => ?_, hdescends.exists_stuck hs.sane, fun n s' hpath hstuck => ?_⟩
  · exact Nat.le_of_add_right_le (hdescends.length_add_le hs.sane hpath)
  · have hdrained := (hdescends.inv_of_path hs.sane hpath).drained hp hstuck
    refine ⟨hdrained, fun hleaves hharmless => hdrained.over ?_⟩
    exact leavesNobody_path hs.sane hharmless hleaves hpath

/-- Two records. -/
def drainedBodies (d : Nat) : Except String Json := .ok (.obj [("id", .str (if d = 0 then "a" else "b"))])

/-- The task of one record waits for the lock, the other record for its timer: both
deliveries are over in the end. -/
theorem drains_twoDeliveries : ∃ s, Reachable ⟨2, by decide, true, true⟩ drainedBodies s ∧
    s.pc 0 = .awaiting 0 ∧ s.pc 1 = .awaiting 1 ∧ ∃ n s', n ≤ 16 ∧
      Path (Works ⟨2, by decide, true, true⟩ Flushes.Harmless) n s s' ∧ s'.Drained ∧ s'.Over 0 ∧ s'.Over 1 := by
  obtain ⟨s, hs, hfirst, hsecond, htask, hwrites, hload⟩ : ∃ s, Reachable ⟨2, by decide, true, true⟩ drainedBodies s ∧
      s.pc 0 = .awaiting 0 ∧ s.pc 1 = .awaiting 1 ∧ s.flushes.pc 0 = .waiting ∧
        s.flushes.batcher.writes.length = 1 ∧ s.load = 16 := by
    have hinit : Reachable ⟨2, by decide, true, true⟩ drainedBodies {} := .refl
    have hfirst := ((hinit.tail (.flush (e := .setDriver true) trivial nofun)).tail
      (.handler (d := 0) rfl)).tail (.flush (e := .fire 0) (by decide +kernel) nofun)
    have hboth := (hfirst.tail (.flush (e := .start 0) (by decide +kernel) nofun)).tail
      (.handler (d := 1) (by decide +kernel))
    exact ⟨_, hboth, by decide +kernel, by decide +kernel, by decide +kernel, by decide +kernel, by decide +kernel⟩
  have hleaves : s.flushes.LeavesNobody := by
    intro i hpc
    rcases Nat.lt_or_ge i s.flushes.batcher.writes.length with hi | hi
    · rw [hwrites] at hi
      obtain rfl := Nat.lt_one_iff.mp hi
      rw [htask] at hpc
      cases hpc
    · rw [hs.sane.inv.flushes.created i hi] at hpc
      cases hpc
  have hpermits : ∀ t e, (∀ i, ¬Flushes.Interrupts t i e) → t.Harmless e :=
    fun t e hnot i hint => absurd hint (hnot i)
  obtain ⟨hbound, ⟨n, s', hpath, hstuck⟩, hend⟩ := drains hs hpermits
  obtain ⟨hdrained, hover⟩ := hend n s' hpath hstuck
  have hall := hover hleaves fun _ _ => id
  exact ⟨s, hs, hfirst, hsecond, n, s', hload ▸ hbound n s' hpath, hpath, hdrained, hall 0, hall 1⟩

end Service

end Brainzgraphinator
