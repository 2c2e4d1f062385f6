-- SUMMARY: The write tasks of one batcher, await by await, with the commit lock and the write transactions.
import Brainzgraphinator.Delivery.Batcher

/-!
# Write tasks

`Flushes` is a batcher with the `_write` tasks of its batches. Task `i` works on
the `i`-th batch, and `pc i` is the await it is suspended at. Between two awaits a
task runs without interruption, so every step below takes a task from one await
to the next: `resume` is given what the await came out with.

`started`, `committed` and `failed` are a record of the write transactions: what
they carry, what a commit reported for each record, and what ended the others.
-/

namespace Brainzgraphinator

/-! ## The state -/

/-- Where a `_write` task is. -/
inductive FlushPc where
  /-- The task has not run yet. -/
  | created
  /-- `async with self._commit_guard()`. -/
  | waiting
  /-- `await self._commit(batch)`: the batch transaction is in flight. -/
  | committing
  /-- `await _merge_global_stats(batch_stats)`. -/
  | merging (flags : List Bool)
  /-- In `_replay(item)`: the record's own transaction is in flight. -/
  | replaying (item : PendingWrite) (rest : List PendingWrite)
  /-- In `_replay(item)`, at `await _merge_global_stats(stats)`. -/
  | replayMerging (item : PendingWrite) (matched : Bool) (rest : List PendingWrite)
  | finished
  deriving DecidableEq

/-- What an await came out with. -/
inductive Awaited where
  | returned
  /-- The transaction committed; one matched flag for every record. -/
  | committed (flags : List Bool)
  | raised (error : Raised)

structure Flushes where
  batcher : Batcher := {}
  /-- `graph is not None`. -/
  driver : Bool := false
  pc : Nat → FlushPc := fun _ => .created
  /-- The commit lock: its holder, then those that wait for it. -/
  lock : List Nat := []
  started : List (Nat × List PendingWrite) := []
  committed : List (List (PendingWrite × Bool)) := []
  failed : List (List PendingWrite × Raised) := []

namespace Flushes

/-- The batch of task `i`. -/
def batch (s : Flushes) (i : Nat) : List PendingWrite := (s.batcher.writes[i]?).getD []

def isDone (s : Flushes) (w : PendingWrite) : Bool := s.batcher.isDone w

/-! ## The code of a task -/

def setPc (i : Nat) (pc : FlushPc) (s : Flushes) : Flushes :=
  { s with pc := Function.update s.pc i pc }

/-- `if not item.future.done(): item.future.set_…`. -/
def settle (w : PendingWrite) (value : FutureState) (s : Flushes) : Flushes :=
  { s with batcher := s.batcher.settle w.future value }

/-- Settle the members one after another. -/
def settleAll (values : List (PendingWrite × FutureState)) (s : Flushes) : Flushes :=
  values.foldl (fun s v => s.settle v.1 v.2) s

/-- `_fail`. -/
def fail (batch : List PendingWrite) (error : Raised) (s : Flushes) : Flushes :=
  s.settleAll (batch.map fun w => (w, .exception error))

/-- Give every member its own flag. -/
def setResults (results : List (PendingWrite × Bool)) (s : Flushes) : Flushes :=
  s.settleAll (results.map fun r => (r.1, .result r.2))

/-- Leave the commit guard. -/
def release (i : Nat) (s : Flushes) : Flushes := { s with lock := s.lock.erase i }

/-- Open a write transaction for these records. -/
def beginTx (i : Nat) (records : List PendingWrite) (s : Flushes) : Flushes :=
  { s with started := s.started ++ [(i, records)] }

def commitTx (results : List (PendingWrite × Bool)) (s : Flushes) : Flushes :=
  { s with committed := s.committed ++ [results] }

def failTx (records : List PendingWrite) (error : Raised) (s : Flushes) : Flushes :=
  { s with failed := s.failed ++ [(records, error)] }

/-- `RuntimeError("Neo4j driver not initialized")`. -/
def notInitialized : Raised := .other "RuntimeError"

/-- `for item in batch: await self._replay(item)`. -/
def replay (i : Nat) : List PendingWrite → Flushes → Flushes
  | [], s => s.setPc i .finished
  | item :: rest, s =>
    if s.driver then (s.beginTx i [item]).setPc i (.replaying item rest)
    else replay i rest (s.settle item (.exception notInitialized))

/-- The `except` clauses of `_write`. -/
def commitFailed (i : Nat) (error : Raised) (s : Flushes) : Flushes :=
  match error with
  | .transient | .cancelled => (s.fail (s.batch i) error).setPc i .finished
  | .other _ =>
    if (s.batch i).length = 1 then (s.fail (s.batch i) error).setPc i .finished
    else s.replay i (s.batch i)

/-- `_commit`, inside the guard. -/
def enterCommit (i : Nat) (s : Flushes) : Flushes :=
  if s.driver then (s.beginTx i (s.batch i)).setPc i .committing
  else (s.release i).commitFailed i notInitialized

/-- The first step of a task. -/
def start (settings : Settings) (i : Nat) (s : Flushes) : Flushes :=
  if settings.serializeFlushes then ({ s with lock := s.lock ++ [i] }).setPc i .waiting
  else s.enterCommit i

/-- The `except Exception` of `_replay`; a cancellation passes it and ends the task. -/
def replayRaised (i : Nat) (item : PendingWrite) (rest : List PendingWrite) (error : Raised)
    (s : Flushes) : Flushes :=
  match error with
  | .cancelled => s.setPc i .finished
  | error => replay i rest (s.settle item (.exception error))

/-- Task `i` goes on with what its await came out with. -/
def resume (i : Nat) (awaited : Awaited) (s : Flushes) : Flushes :=
  match s.pc i, awaited with
  | .waiting, .raised .cancelled => (s.release i).commitFailed i .cancelled
  | .committing, .committed flags =>
    ((s.release i).commitTx ((s.batch i).zip flags)).setPc i (.merging flags)
  | .committing, .raised error => ((s.release i).failTx (s.batch i) error).commitFailed i error
  | .merging flags, .returned => (s.setResults ((s.batch i).zip flags)).setPc i .finished
  | .merging _, .raised _ => s.setPc i .finished
  | .replaying item rest, .committed [matched] =>
    (s.commitTx [(item, matched)]).setPc i (.replayMerging item matched rest)
  | .replaying item rest, .raised error => (s.failTx [item] error).replayRaised i item rest error
  | .replayMerging item matched rest, .returned => replay i rest (s.settle item (.result matched))
  | .replayMerging item _ rest, .raised error => s.replayRaised i item rest error
  | _, _ => s

/-! ## Runs -/

inductive Event where
  | submit (record : Dict) (span : Nat)
  | fire (timer : Nat)
  /-- A waiting submitter is cancelled. -/
  | cancelSubmitter (future : Nat)
  | setDriver (driver : Bool)
  | start (task : Nat)
  /-- A task is cancelled before its first step. -/
  | cancelUnstarted (task : Nat)
  /-- The commit lock is granted. -/
  | acquire (task : Nat)
  | resume (task : Nat) (awaited : Awaited)

/-- Tasks take their first step in creation order, and the lock is fair. -/
def Enabled (s : Flushes) : Event → Prop
  | .submit _ _ | .cancelSubmitter _ | .setDriver _ => True
  | .fire t => t ∈ s.batcher.armed
  | .start i => i < s.batcher.writes.length ∧ s.pc i = .created ∧ ∀ j < i, s.pc j ≠ .created
  | .cancelUnstarted i => i < s.batcher.writes.length ∧ s.pc i = .created
  | .acquire i => s.pc i = .waiting ∧ s.lock.head? = some i
  | .resume i (.committed flags) => s.pc i = .committing → flags.length = (s.batch i).length
  | .resume _ _ => True

instance (s : Flushes) : (e : Event) → Decidable (s.Enabled e)
  | .submit _ _ | .cancelSubmitter _ | .setDriver _ => .isTrue trivial
  | .fire t => inferInstanceAs (Decidable (t ∈ s.batcher.armed))
  | .start i => inferInstanceAs (Decidable
      (i < s.batcher.writes.length ∧ s.pc i = .created ∧ ∀ j < i, s.pc j ≠ .created))
  | .cancelUnstarted i =>
    inferInstanceAs (Decidable (i < s.batcher.writes.length ∧ s.pc i = .created))
  | .acquire i => inferInstanceAs (Decidable (s.pc i = .waiting ∧ s.lock.head? = some i))
  | .resume i (.committed flags) =>
    inferInstanceAs (Decidable (s.pc i = .committing → flags.length = (s.batch i).length))
  | .resume _ .returned | .resume _ (.raised _) => .isTrue trivial

def apply (settings : Settings) (s : Flushes) : Event → Flushes
  | .submit record span => { s with batcher := s.batcher.submit settings record span }
  | .fire t => { s with batcher := s.batcher.fire settings t }
  | .cancelSubmitter future => { s with batcher := s.batcher.settle future .cancelled }
  | .setDriver driver => { s with driver := driver }
  | .start i => s.start settings i
  | .cancelUnstarted i => s.setPc i .finished
  | .acquire i => s.enterCommit i
  | .resume i awaited => s.resume i awaited

inductive Step (settings : Settings) : Flushes → Flushes → Prop
  | apply {s : Flushes} {e : Event} : s.Enabled e → Step settings s (s.apply settings e)

/-- The states any schedule can lead to. -/
def Reachable (settings : Settings) (s : Flushes) : Prop :=
  Relation.ReflTransGen (Step settings) {} s

/-- A step whose event meets a condition on the state before it. -/
inductive StepWhen (settings : Settings) (p : Flushes → Event → Prop) : Flushes → Flushes → Prop
  | apply {s : Flushes} {e : Event} : s.Enabled e → p s e → StepWhen settings p s (s.apply settings e)

/-- The states of the runs whose every event meets the condition. -/
def ReachableWhen (settings : Settings) (p : Flushes → Event → Prop) (s : Flushes) : Prop :=
  Relation.ReflTransGen (StepWhen settings p) {} s

theorem ReachableWhen.reachable {settings : Settings} {p : Flushes → Event → Prop} {s : Flushes}
    (h : ReachableWhen settings p s) : Reachable settings s := by
  refine Relation.ReflTransGen.mono (fun _ _ hstep => ?_) _ _ h
  cases hstep with
  | apply he _ => exact .apply he

/-- Each event is enabled when its turn comes. -/
def Admissible (settings : Settings) (s : Flushes) : List Event → Prop
  | [] => True
  | e :: es => s.Enabled e ∧ Admissible settings (s.apply settings e) es

instance (settings : Settings) : (s : Flushes) → (es : List Event) → Decidable (s.Admissible settings es)
  | _, [] => .isTrue trivial
  | s, e :: es =>
    have := instDecidableAdmissible settings (s.apply settings e) es
    inferInstanceAs (Decidable (s.Enabled e ∧ Admissible settings (s.apply settings e) es))

def run (settings : Settings) (s : Flushes) (es : List Event) : Flushes :=
  es.foldl (apply settings) s

theorem steps_run {settings : Settings} {s : Flushes} {es : List Event}
    (h : s.Admissible settings es) : Relation.ReflTransGen (Step settings) s (s.run settings es) := by
  induction es generalizing s with
  | nil => exact .refl
  | cons e es ih => exact .head (.apply h.1) (ih h.2)

end Flushes

end Brainzgraphinator
