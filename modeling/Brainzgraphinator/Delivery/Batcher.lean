-- SUMMARY: The write batcher: pending records, its flush timer, and the batches it hands to the write tasks.
import Mathlib.Data.List.Nodup
import Mathlib.Logic.Function.Basic
import Mathlib.Logic.Relation
import Brainzgraphinator.Projections.Json

/-!
# The write batcher

`Batcher` is the state of one `WriteBatcher` between two callbacks of the event
loop, with the loop's armed timers and the futures of its submitters. A callback
runs without interruption: a `submit` up to its `await`, a timer's `flushNow`, or
one that settles a future.

`submitted`, `dropped` and `writes` are a record of the past: every record in
submission order, those whose future was done when their batch was cut, and the
batches for which a `_write` task was created.
-/

namespace Brainzgraphinator

/-! ## Futures -/

/-- The exceptions that reach a delivery. -/
inductive Raised where
  /-- One of `_TRANSIENT_WRITE_ERRORS`. -/
  | transient
  /-- `asyncio.CancelledError`. -/
  | cancelled
  /-- Any other exception, by type name. -/
  | other (name : String)
  deriving DecidableEq

inductive FutureState where
  | pending
  | result (matched : Bool)
  | exception (error : Raised)
  | cancelled
  deriving DecidableEq

def FutureState.done : FutureState → Bool
  | .pending => false
  | .result _ | .exception _ | .cancelled => true

/-- One delivery waiting for its batch to commit; `span` is the delivery's own. -/
structure PendingWrite where
  record : Dict
  span : Nat
  future : Nat
  deriving DecidableEq

/-! ## Settings -/

structure Settings where
  batchSize : Nat
  batchSize_pos : 1 ≤ batchSize
  batchMode : Bool
  serializeFlushes : Bool

/-! ## The batcher -/

structure Batcher where
  pending : List PendingWrite := []
  timer : Option Nat := none
  /-- The timer handles of the loop that neither ran nor were cancelled. -/
  armed : List Nat := []
  nextTimer : Nat := 0
  futures : Nat → FutureState := fun _ => .pending
  submitted : List PendingWrite := []
  dropped : List PendingWrite := []
  writes : List (List PendingWrite) := []

namespace Batcher

variable (settings : Settings)

/-- `self.timer = loop.call_later(BATCH_LINGER, self._flush_now)`. -/
def callLater (b : Batcher) : Batcher :=
  { b with timer := some b.nextTimer, armed := b.nextTimer :: b.armed, nextTimer := b.nextTimer + 1 }

/-- Cancel the timer, if there is one. -/
def cancelTimer (b : Batcher) : Batcher :=
  match b.timer with
  | none => b
  | some t => { b with armed := b.armed.erase t, timer := none }

/-- The write's future is done. -/
def isDone (b : Batcher) (w : PendingWrite) : Bool := (b.futures w.future).done

/-- Keep the members that still wait and create their `_write` task. -/
def createWrite (batch : List PendingWrite) (b : Batcher) : Batcher :=
  let live := batch.filter fun w => !b.isDone w
  { b with
    dropped := b.dropped ++ batch.filter b.isDone
    writes := if live = [] then b.writes else b.writes ++ [live] }

def flushNow (b : Batcher) : Batcher :=
  let b := b.cancelTimer
  let batch := b.pending.take settings.batchSize
  let b := { b with pending := b.pending.drop settings.batchSize }
  let b := if b.pending ≠ [] then b.callLater else b
  b.createWrite batch

/-- `submit`, up to `await future`. -/
def submit (record : Dict) (span : Nat) (b : Batcher) : Batcher :=
  let w : PendingWrite := ⟨record, span, b.submitted.length⟩
  let b := { b with pending := b.pending ++ [w], submitted := b.submitted ++ [w] }
  if settings.batchSize ≤ b.pending.length then b.flushNow settings
  else if b.timer = none then b.callLater
  -- The linger restarts on every arrival.
  else b.cancelTimer.callLater

/-- The loop runs the callback of the timer `t`. -/
def fire (t : Nat) (b : Batcher) : Batcher :=
  flushNow settings { b with armed := b.armed.erase t }

/-- Settle a future, unless it is done. -/
def settle (future : Nat) (value : FutureState) (b : Batcher) : Batcher :=
  if (b.futures future).done then b
  else { b with futures := Function.update b.futures future value }

/-- One callback of the loop. -/
inductive Step : Batcher → Batcher → Prop
  | submit (record : Dict) (span : Nat) (b : Batcher) : Step b (b.submit settings record span)
  | fire {t : Nat} {b : Batcher} : t ∈ b.armed → Step b (b.fire settings t)
  | settle (future : Nat) (value : FutureState) (b : Batcher) : Step b (b.settle future value)

/-- The states any order of callbacks can lead to. -/
def Reachable (b : Batcher) : Prop := Relation.ReflTransGen (Step settings) {} b

end Batcher

/-! ## Nothing lost, nothing written twice -/

namespace Batcher

variable {settings : Settings} {b : Batcher}

/-- What holds between callbacks. The records taken off the queue are the front
of the submissions: each of them was dropped or written, in order. -/
structure Inv (settings : Settings) (b : Batcher) : Prop where
  size : b.pending.length < settings.batchSize
  armed : if b.pending = [] then b.timer = none ∧ b.armed = []
    else ∃ t, b.timer = some t ∧ b.armed = [t]
  taken : ∃ taken, b.submitted = taken ++ b.pending ∧ b.writes.flatten.Sublist taken ∧
    (b.dropped ++ b.writes.flatten).Perm taken
  sizes : ∀ batch ∈ b.writes, 1 ≤ batch.length ∧ batch.length ≤ settings.batchSize
  futures : b.submitted.map PendingWrite.future = List.range b.submitted.length
  done : ∀ w ∈ b.dropped, b.isDone w = true

theorem Inv.init : Inv settings {} := by
  refine ⟨settings.batchSize_pos, ?_, ⟨[], rfl, List.Sublist.refl _, List.Perm.refl _⟩, nofun, rfl, nofun⟩
  exact ⟨rfl, rfl⟩

/-! ### Cutting a batch -/

theorem cancelTimer_pending (b : Batcher) : b.cancelTimer.pending = b.pending := by
  unfold cancelTimer
  split <;> rfl

/-- With at most a full batch pending, a flush takes everything. -/
theorem flushNow_eq (h : b.pending.length ≤ settings.batchSize) :
    b.flushNow settings = ({ b.cancelTimer with pending := [] } : Batcher).createWrite b.pending := by
  simp only [flushNow, cancelTimer_pending, List.take_of_length_le h, List.drop_of_length_le h, ne_eq,
    not_true_eq_false, if_false]

theorem cancelTimer_fields (b : Batcher) :
    b.cancelTimer.futures = b.futures ∧ b.cancelTimer.submitted = b.submitted ∧
      b.cancelTimer.dropped = b.dropped ∧ b.cancelTimer.writes = b.writes ∧
      b.cancelTimer.timer = none := by
  unfold cancelTimer
  split
  · rename_i h
    exact ⟨rfl, rfl, rfl, rfl, h⟩
  · exact ⟨rfl, rfl, rfl, rfl, rfl⟩

/-- The only armed timer is the batcher's own. -/
theorem Inv.armed_cancelTimer (hinv : Inv settings b) {b' : Batcher} (htimer : b'.timer = b.timer)
    (harmed : b'.armed = b.armed) : b'.cancelTimer.armed = [] := by
  have hown := hinv.armed
  split at hown
  · simp [cancelTimer, htimer, harmed, hown.1, hown.2]
  · obtain ⟨t, ht, hlist⟩ := hown
    simp [cancelTimer, htimer, harmed, ht, hlist]

theorem perm_filter_append (p : PendingWrite → Bool) (xs : List PendingWrite) :
    (xs.filter p ++ xs.filter fun w => !p w).Perm xs := by
  induction xs with
  | nil => exact List.Perm.refl _
  | cons x xs ih =>
    by_cases h : p x = true
    · simpa [h] using ih.cons x
    · have hne : (xs.filter p ++ x :: xs.filter fun w => !p w).Perm (x :: xs) :=
        List.perm_middle.trans (ih.cons x)
      simpa [h] using hne

/-- What creating a write keeps of the invariant. -/
theorem createWrite_taken {taken : List PendingWrite} (batch : List PendingWrite)
    (hsub : b.writes.flatten.Sublist taken) (hperm : (b.dropped ++ b.writes.flatten).Perm taken) :
    (b.createWrite batch).writes.flatten.Sublist (taken ++ batch) ∧
      ((b.createWrite batch).dropped ++ (b.createWrite batch).writes.flatten).Perm (taken ++ batch) := by
  have hflatten : (b.createWrite batch).writes.flatten =
      b.writes.flatten ++ batch.filter fun w => !b.isDone w := by
    simp only [createWrite]
    split
    · rename_i hnil
      rw [hnil, List.append_nil]
    · rw [List.flatten_append, List.flatten_singleton]
  rw [hflatten]
  refine ⟨hsub.append List.filter_sublist, ?_⟩
  simp only [createWrite]
  calc (b.dropped ++ batch.filter b.isDone) ++
        (b.writes.flatten ++ batch.filter fun w => !b.isDone w)
      = b.dropped ++ (batch.filter b.isDone ++ b.writes.flatten) ++
        batch.filter fun w => !b.isDone w := by simp only [List.append_assoc]
    _ |>.Perm (b.dropped ++ (b.writes.flatten ++ batch.filter b.isDone) ++
        batch.filter fun w => !b.isDone w) :=
      ((List.perm_append_comm).append_left _).append_right _
    _ = (b.dropped ++ b.writes.flatten) ++
        (batch.filter b.isDone ++ batch.filter fun w => !b.isDone w) := by
      simp only [List.append_assoc]
    _ |>.Perm (taken ++ batch) := hperm.append (perm_filter_append _ _)

/-- Cutting a batch of at most full size keeps the invariant. -/
theorem Inv.flush {taken : List PendingWrite} (hsize : b.pending.length ≤ settings.batchSize)
    (harmed : b.cancelTimer.armed = []) (hsubmitted : b.submitted = taken ++ b.pending)
    (hsub : b.writes.flatten.Sublist taken) (hperm : (b.dropped ++ b.writes.flatten).Perm taken)
    (hsizes : ∀ batch ∈ b.writes, 1 ≤ batch.length ∧ batch.length ≤ settings.batchSize)
    (hfutures : b.submitted.map PendingWrite.future = List.range b.submitted.length)
    (hdone : ∀ w ∈ b.dropped, b.isDone w = true) : Inv settings (b.flushNow settings) := by
  rw [flushNow_eq hsize]
  obtain ⟨hf, hs, hd, hw, ht⟩ := cancelTimer_fields b
  have htaken := createWrite_taken (b := { b.cancelTimer with pending := [] }) b.pending
    (hw.symm ▸ hsub) (hw.symm ▸ hd.symm ▸ hperm)
  refine ⟨settings.batchSize_pos, ⟨ht, harmed⟩, ⟨taken ++ b.pending, ?_, htaken⟩, ?_, ?_, ?_⟩
  · simp only [createWrite, hs, hsubmitted, List.append_nil]
  · intro batch hbatch
    simp only [createWrite] at hbatch
    split at hbatch
    · exact hsizes batch (hw ▸ hbatch)
    · rename_i hne
      rcases List.mem_append.mp hbatch with hbatch | hbatch
      · exact hsizes batch (hw ▸ hbatch)
      · rw [List.mem_singleton.mp hbatch]
        exact ⟨List.length_pos_iff.mpr hne, Nat.le_trans (List.length_filter_le _ _) hsize⟩
  · simp only [createWrite, hs, hfutures]
  · intro w hmem
    simp only [createWrite, hd, List.mem_append] at hmem
    rcases hmem with hmem | hmem
    · have hold := hdone w hmem
      rwa [isDone, ← hf] at hold
    · exact (List.mem_filter.mp hmem).2

/-! ### What a callback keeps -/

theorem createWrite_keeps (batch : List PendingWrite) (b : Batcher) :
    (b.createWrite batch).futures = b.futures ∧ (b.createWrite batch).submitted = b.submitted ∧
      b.writes <+: (b.createWrite batch).writes := by
  refine ⟨rfl, rfl, ?_⟩
  simp only [createWrite]
  split
  · exact List.prefix_rfl
  · exact List.prefix_append _ _

/-- A flush settles nothing and only adds a write. -/
theorem flushNow_keeps (settings : Settings) (b : Batcher) :
    (b.flushNow settings).futures = b.futures ∧ (b.flushNow settings).submitted = b.submitted ∧
      b.writes <+: (b.flushNow settings).writes := by
  obtain ⟨hf, hs, _, hw, _⟩ := cancelTimer_fields b
  rw [← hf, ← hs, ← hw]
  unfold flushNow
  dsimp only
  split
  · exact createWrite_keeps _ _
  · exact createWrite_keeps _ _

theorem submit_keeps (settings : Settings) (record : Dict) (span : Nat) (b : Batcher) :
    (b.submit settings record span).futures = b.futures ∧
      (b.submit settings record span).submitted =
        b.submitted ++ [⟨record, span, b.submitted.length⟩] ∧
      b.writes <+: (b.submit settings record span).writes := by
  unfold submit
  dsimp only
  split
  · exact flushNow_keeps settings _
  · split
    · exact ⟨rfl, rfl, List.prefix_rfl⟩
    · obtain ⟨hf, hs, _, hw, _⟩ := cancelTimer_fields
        { b with
          pending := b.pending ++ [⟨record, span, b.submitted.length⟩]
          submitted := b.submitted ++ [⟨record, span, b.submitted.length⟩] }
      exact ⟨hf, hs, [], by rw [List.append_nil]; exact hw.symm⟩

/-! ### Every callback -/

/-- When the armed timer runs, it is the batcher's own. -/
theorem Inv.erase_armed (hinv : Inv settings b) {t : Nat} (ht : t ∈ b.armed) :
    ({ b with armed := b.armed.erase t } : Batcher).cancelTimer.armed = [] := by
  have harmed := hinv.armed
  split at harmed
  · rw [harmed.2] at ht
    cases ht
  · obtain ⟨t', htimer, hlist⟩ := harmed
    rw [hlist, List.mem_singleton] at ht
    subst ht
    simp [cancelTimer, htimer, hlist]

theorem Inv.fire (hinv : Inv settings b) {t : Nat} (ht : t ∈ b.armed) :
    Inv settings (b.fire settings t) := by
  obtain ⟨taken, hsubmitted, hsub, hperm⟩ := hinv.taken
  exact Inv.flush (Nat.le_of_lt hinv.size) (hinv.erase_armed ht) hsubmitted hsub hperm hinv.sizes
    hinv.futures hinv.done

theorem Inv.submit (hinv : Inv settings b) (record : Dict) (span : Nat) :
    Inv settings (b.submit settings record span) := by
  obtain ⟨taken, hsubmitted, hsub, hperm⟩ := hinv.taken
  have harmed := hinv.armed
  have hlength : (b.pending ++ [(⟨record, span, b.submitted.length⟩ : PendingWrite)]).length =
      b.pending.length + 1 := by simp
  have hsubmitted' : b.submitted ++ [(⟨record, span, b.submitted.length⟩ : PendingWrite)] =
      taken ++ (b.pending ++ [⟨record, span, b.submitted.length⟩]) := by
    rw [← List.append_assoc, ← hsubmitted]
  have hfutures : (b.submitted ++ [(⟨record, span, b.submitted.length⟩ : PendingWrite)]).map
      PendingWrite.future = List.range
        (b.submitted ++ [(⟨record, span, b.submitted.length⟩ : PendingWrite)]).length := by
    rw [List.map_append, hinv.futures, List.length_append, List.length_singleton, List.range_succ]
    rfl
  unfold Batcher.submit
  dsimp only
  split
  · -- The batch is full.
    refine Inv.flush ?_ ?_ hsubmitted' hsub hperm hinv.sizes hfutures hinv.done
    · exact Nat.le_trans (Nat.le_of_eq hlength) hinv.size
    · exact hinv.armed_cancelTimer rfl rfl
  · rename_i hnotfull
    have hsize : (b.pending ++ [(⟨record, span, b.submitted.length⟩ : PendingWrite)]).length <
        settings.batchSize := Nat.lt_of_not_le hnotfull
    have hne : b.pending ++ [(⟨record, span, b.submitted.length⟩ : PendingWrite)] ≠ [] := by simp
    split at harmed
    · rw [if_pos harmed.1]
      refine ⟨hsize, ?_, ⟨taken, hsubmitted', hsub, hperm⟩, hinv.sizes, hfutures, hinv.done⟩
      rw [callLater, if_neg hne, harmed.2]
      exact ⟨_, rfl, rfl⟩
    · obtain ⟨t, htimer, hlist⟩ := harmed
      have htimer' : b.timer ≠ none := by simp [htimer]
      rw [if_neg htimer']
      simp only [cancelTimer, htimer, callLater, hlist, List.erase_cons_head]
      refine ⟨hsize, ?_, ⟨taken, hsubmitted', hsub, hperm⟩, hinv.sizes, hfutures, hinv.done⟩
      rw [if_neg hne]
      exact ⟨_, rfl, rfl⟩

/-- Settling changes futures only. -/
theorem settle_eq (future : Nat) (value : FutureState) (b : Batcher) :
    b.settle future value = { b with futures := (b.settle future value).futures } := by
  unfold settle
  split <;> rfl

/-- A future that is done keeps its value. -/
theorem settle_kept {future : Nat} {value : FutureState} {f : Nat}
    (h : (b.futures f).done = true) : (b.settle future value).futures f = b.futures f := by
  unfold settle
  split
  · rfl
  · rename_i hpending
    have hne : f ≠ future := by
      rintro rfl
      exact hpending h
    exact Function.update_of_ne hne _ _

theorem Inv.settle (hinv : Inv settings b) (future : Nat) (value : FutureState) :
    Inv settings (b.settle future value) := by
  have hdone : ∀ w ∈ b.dropped, (b.settle future value).isDone w = true := by
    intro w hw
    have hold := hinv.done w hw
    rwa [isDone, settle_kept hold]
  rw [settle_eq] at hdone ⊢
  exact ⟨hinv.size, hinv.armed, hinv.taken, hinv.sizes, hinv.futures, hdone⟩

theorem Inv.step {b' : Batcher} (hinv : Inv settings b) (h : Step settings b b') :
    Inv settings b' := by
  cases h with
  | submit record span => exact hinv.submit record span
  | fire ht => exact hinv.fire ht
  | settle future value => exact hinv.settle future value

theorem Inv.steps {b' : Batcher} (hinv : Inv settings b)
    (h : Relation.ReflTransGen (Step settings) b b') : Inv settings b' := by
  induction h with
  | refl => exact hinv
  | tail _ hstep ih => exact ih.step hstep

theorem Reachable.inv (h : Reachable settings b) : Inv settings b := Inv.init.steps h

/-! ### The batcher is exact -/

theorem Inv.nodup_submitted (hinv : Inv settings b) : b.submitted.Nodup :=
  List.Nodup.of_map PendingWrite.future (hinv.futures ▸ List.nodup_range)

/-- A member of a duplicate-free concatenation is in one of the lists, once. -/
theorem exists_unique_mem_flatten {xss : List (List PendingWrite)} (hnd : xss.flatten.Nodup)
    {w : PendingWrite} (hw : w ∈ xss.flatten) :
    ∃ i : Nat, ∃ batch : List PendingWrite, xss[i]? = some batch ∧ batch.count w = 1 ∧
      ∀ j batch', xss[j]? = some batch' → w ∈ batch' → j = i := by
  obtain ⟨hnodup, hpairwise⟩ := List.nodup_flatten.mp hnd
  obtain ⟨batch, hbatch, hmem⟩ := List.mem_flatten.mp hw
  obtain ⟨i, hi, rfl⟩ := List.mem_iff_getElem.mp hbatch
  refine ⟨i, _, List.getElem?_eq_getElem hi, List.count_eq_one_of_mem (hnodup _ hbatch) hmem, ?_⟩
  intro j batch' hj hmem'
  obtain ⟨hj', rfl⟩ := List.getElem?_eq_some_iff.mp hj
  rcases Nat.lt_trichotomy j i with hlt | heq | hlt
  · exact absurd hmem (List.pairwise_iff_getElem.mp hpairwise j i hj' hi hlt hmem')
  · exact heq
  · exact absurd hmem' (List.pairwise_iff_getElem.mp hpairwise i j hi hj' hlt hmem)

/-- All of these were taken off the queue by one callback, which leaves no timer: those whose
future was done are dropped, and the others are in the one write it created, once. -/
def HandedOn (members : List PendingWrite) (b b' : Batcher) : Prop :=
  b'.pending = [] ∧ b'.armed = [] ∧
    ∀ w ∈ members, if b.isDone w = true then w ∈ b'.dropped
      else ∃ batch, b'.writes = b.writes ++ [batch] ∧ batch.count w = 1

/-- A flush of at most a full batch hands all of it on. -/
theorem flushNow_handedOn (hsize : b.pending.length ≤ settings.batchSize)
    (harmed : b.cancelTimer.armed = []) (hnd : b.pending.Nodup) :
    HandedOn b.pending b (b.flushNow settings) := by
  obtain ⟨hf, _, hd, hw, _⟩ := cancelTimer_fields b
  rw [flushNow_eq hsize]
  refine ⟨rfl, harmed, ?_⟩
  intro w hmem
  simp only [createWrite, isDone, hf, hd, hw]
  split
  · rename_i hdropped
    exact List.mem_append_right _ (List.mem_filter.mpr ⟨hmem, hdropped⟩)
  · rename_i hwaits
    have hlive : w ∈ b.pending.filter fun w => !(b.futures w.future).done :=
      List.mem_filter.mpr ⟨hmem, by rw [Bool.eq_false_iff.mpr hwaits]; rfl⟩
    rw [if_neg (List.ne_nil_of_mem hlive)]
    exact ⟨_, rfl, List.count_eq_one_of_mem (hnd.filter _) hlive⟩

/-- The armed timer hands on all that is pending when it runs. -/
theorem Inv.handedOn_fire (hinv : Inv settings b) {t : Nat} (ht : t ∈ b.armed) :
    HandedOn b.pending b (b.fire settings t) := by
  have hnd : b.pending.Nodup := by
    obtain ⟨taken, hsubmitted, _⟩ := hinv.taken
    exact (hsubmitted ▸ hinv.nodup_submitted).of_append_right
  exact flushNow_handedOn (b := { b with armed := b.armed.erase t }) (Nat.le_of_lt hinv.size)
    (hinv.erase_armed ht) hnd

/-- A submission that fills the batch hands it on, and any other one waits. -/
theorem Inv.handedOn_submit (hinv : Inv settings b) (record : Dict) (span : Nat) :
    if b.pending.length + 1 = settings.batchSize then
      HandedOn (b.pending ++ [⟨record, span, b.submitted.length⟩]) b (b.submit settings record span)
    else (b.submit settings record span).pending = b.pending ++ [⟨record, span, b.submitted.length⟩] := by
  have hlength : (b.pending ++ [(⟨record, span, b.submitted.length⟩ : PendingWrite)]).length =
      b.pending.length + 1 := List.length_append
  have hsize := hinv.size
  have hnd : (b.pending ++ [(⟨record, span, b.submitted.length⟩ : PendingWrite)]).Nodup := by
    have hnext := (hinv.submit record span).nodup_submitted
    rw [(submit_keeps settings record span b).2.1] at hnext
    obtain ⟨taken, hsubmitted, _⟩ := hinv.taken
    rw [hsubmitted, List.append_assoc, ← hsubmitted] at hnext
    exact hnext.of_append_right
  unfold Batcher.submit
  dsimp only
  split
  · rename_i hfull
    rw [if_pos (hlength ▸ Nat.le_of_eq hfull.symm)]
    refine flushNow_handedOn (b :=
      { b with
        pending := b.pending ++ [⟨record, span, b.submitted.length⟩]
        submitted := b.submitted ++ [⟨record, span, b.submitted.length⟩] })
      (Nat.le_of_eq (hlength.trans hfull)) ?_ hnd
    exact hinv.armed_cancelTimer rfl rfl
  · rename_i hnotfull
    rw [if_neg (by rw [hlength]; omega)]
    split
    · rfl
    · exact cancelTimer_pending _

/-- In every state: less than a full batch is pending, and exactly one timer is
armed for it; every submitted record is pending, was dropped with a future that
was done, or is in exactly one write, once; and the writes are of legal size and
in submission order. What is pending waits for its timer or for the submission
that fills the batch, and either hands all of it on. -/
theorem batcher_exact (h : Reachable settings b) :
    b.pending.length < settings.batchSize ∧
    (if b.pending = [] then b.timer = none ∧ b.armed = []
      else ∃ t, b.timer = some t ∧ b.armed = [t]) ∧
    (∀ w ∈ b.submitted, w ∉ b.pending → w ∉ b.dropped →
      ∃ i : Nat, ∃ batch : List PendingWrite, b.writes[i]? = some batch ∧ batch.count w = 1 ∧
        ∀ j batch', b.writes[j]? = some batch' → w ∈ batch' → j = i) ∧
    (∀ w ∈ b.dropped, w ∉ b.pending ∧ w ∉ b.writes.flatten ∧ b.isDone w = true) ∧
    (∀ w ∈ b.pending, w ∉ b.writes.flatten) ∧
    (∀ batch ∈ b.writes, 1 ≤ batch.length ∧ batch.length ≤ settings.batchSize) ∧
    b.writes.flatten.Sublist b.submitted ∧ b.submitted.Nodup ∧
    (∀ t ∈ b.armed, HandedOn b.pending b (b.fire settings t)) ∧
    ∀ record span,
      (b.submit settings record span).submitted = b.submitted ++ [⟨record, span, b.submitted.length⟩] ∧
      if b.pending.length + 1 = settings.batchSize then
        HandedOn (b.pending ++ [⟨record, span, b.submitted.length⟩]) b (b.submit settings record span)
      else (b.submit settings record span).pending =
        b.pending ++ [⟨record, span, b.submitted.length⟩] := by
  have hinv := h.inv
  obtain ⟨taken, hsubmitted, hsub, hperm⟩ := hinv.taken
  have hnd := hinv.nodup_submitted
  have hsplit := hnd
  rw [hsubmitted, List.nodup_append] at hsplit
  obtain ⟨htaken, _, hdisjoint⟩ := hsplit
  have hparts := hperm.nodup_iff.mpr htaken
  rw [List.nodup_append] at hparts
  have hnotpending : ∀ w ∈ taken, w ∉ b.pending := fun w hw hp => hdisjoint w hw w hp rfl
  refine ⟨hinv.size, hinv.armed, ?_, ?_, ?_, hinv.sizes, ?_, hnd, ?_, ?_⟩
  · intro w hw hp hd
    rw [hsubmitted, List.mem_append] at hw
    have hmem := hperm.mem_iff.mpr (hw.resolve_right hp)
    exact exists_unique_mem_flatten hparts.2.1 ((List.mem_append.mp hmem).resolve_left hd)
  · intro w hw
    have hmem := hperm.mem_iff.mp (List.mem_append_left _ hw)
    exact ⟨hnotpending w hmem, fun hw' => hparts.2.2 w hw w hw' rfl, hinv.done w hw⟩
  · intro w hp hw
    exact hnotpending w (hsub.subset hw) hp
  · rw [hsubmitted]
    exact hsub.trans (List.sublist_append_left _ _)
  · intro t ht
    exact hinv.handedOn_fire ht
  · intro record span
    exact ⟨(submit_keeps settings record span b).2.1, hinv.handedOn_submit record span⟩

/-- Three submissions into batches of two: one write, and one record that its timer hands on. -/
theorem batcher_exact_threeSubmits : ∃ b,
    Reachable ⟨2, by decide, true, false⟩ b ∧ b.writes = [[⟨[], 0, 0⟩, ⟨[], 1, 1⟩]] ∧
      b.pending = [⟨[], 2, 2⟩] ∧ (∃ t, b.timer = some t ∧ b.armed = [t]) ∧
      b.writes.flatten.Sublist b.submitted ∧
      HandedOn b.pending b (b.fire ⟨2, by decide, true, false⟩ 1) := by
  have hreach : Reachable ⟨2, by decide, true, false⟩
      (((({} : Batcher).submit ⟨2, by decide, true, false⟩ [] 0).submit ⟨2, by decide, true, false⟩
        [] 1).submit ⟨2, by decide, true, false⟩ [] 2) :=
    ((Relation.ReflTransGen.single (.submit [] 0 _)).tail (.submit [] 1 _)).tail (.submit [] 2 _)
  obtain ⟨_, harmed, _, _, _, _, hsub, _, hfire, _⟩ := batcher_exact hreach
  exact ⟨_, hreach, rfl, rfl, harmed, hsub, hfire 1 (by decide)⟩

end Batcher

end Brainzgraphinator
