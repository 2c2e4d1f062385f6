-- SUMMARY: The message handler with its counters: each write transaction with its attempts, and every merge.
import Brainzgraphinator.Base.Runs
import Brainzgraphinator.Delivery.Counters
import Brainzgraphinator.Delivery.AckAfterCommit
import Brainzgraphinator.Projections.EntityWrites

/-!
# The counting handler

`CountingService` is a `Service` with `enrichment_stats` and the dictionaries that are
counted into: the one of each write task and the one of each delivery. A write call that
returns brings the graph its last attempt saw, on which the projection is run, and
whatever the attempts before it came to. `returned` is a record of what the last
attempts of these calls counted.
-/

namespace Brainzgraphinator

structure CountingService where
  service : Service := {}
  enrichmentStats : Counters := .ofEnrichment
  /-- `batch_stats` of a task, or `stats` of the `_replay` it is in. -/
  flushStats : Nat → Counters := fun _ => .empty
  localStats : Nat → Counters := fun _ => .empty
  returned : List Stats := []

namespace CountingService

inductive Event where
  /-- An event of the write tasks that touches no counter. -/
  | flush (e : Flushes.Event)
  /-- `_commit` returns: its last attempt saw this graph. -/
  | commitReturns (task : Nat) (earlier : List (Attempt (List Bool))) (now : Json) (graph : Graph)
  /-- The transaction of a `_replay` is over, and it goes on to its merge. -/
  | replayReturns (task : Nat) (earlier : List (Attempt Unit)) (now : Json) (graph : Graph)
  /-- `await _merge_global_stats(…, entity_keys=False)` of a task. -/
  | flushMerges (task : Nat)
  | handler (delivery : Nat)
  | shutdown
  | wake (delivery : Nat)
  | singleReturns (delivery : Nat) (earlier : List (Attempt Unit)) (now : Json) (graph : Graph)
  | singleRaises (delivery : Nat) (error : Raised)
  /-- `await _merge_global_stats(local_stats)`. -/
  | merges (delivery : Nat)
  | cancel (delivery : Nat)

/-- A task is cancelled. -/
def Event.cancels : Event → Bool
  | .flush (.cancelSubmitter _) | .flush (.cancelUnstarted _) | .flush (.resume _ (.raised .cancelled)) => true
  | .singleRaises _ .cancelled | .cancel _ => true
  | _ => false

/-- The task is at `await _merge_global_stats(…)`. -/
def atMerge : FlushPc → Bool
  | .merging _ | .replayMerging _ _ _ => true
  | _ => false

/-- The events of the write tasks that touch no counter. A merge itself raises nothing. -/
def plain (s : Flushes) : Flushes.Event → Bool
  | .submit _ _ | .resume _ .returned | .resume _ (.committed _) => false
  | .resume i (.raised error) => !atMerge (s.pc i) || error = .cancelled
  | _ => true

/-- `"entities_enriched" if matched else "entities_skipped_no_discogs_match"`. -/
def entityKey (matched : Bool) : String :=
  if matched then "entities_enriched" else "entities_skipped_no_discogs_match"

/-- `KeyError`. -/
def keyError : Raised := .other "KeyError"

/-- The write tasks go on. -/
def resume (i : Nat) (awaited : Awaited) (c : CountingService) : CountingService :=
  { c with service := { c.service with flushes := c.service.flushes.resume i awaited } }

variable (rt : Runtime) (gate : Bool) (t : EntityType) (settings : Settings) (bodies : Nat → Except String Json)

def step (c : CountingService) : Event → Option CountingService
  | .flush e =>
    if plain c.service.flushes e ∧ c.service.flushes.Enabled e then
      some { c with service := { c.service with flushes := c.service.flushes.apply settings e } }
    else none
  | .commitReturns i earlier now graph =>
    match c.service.flushes.pc i with
    | .committing =>
      match batchProjections rt gate now t ((c.service.flushes.batch i).map PendingWrite.record) ⟨graph, {}⟩ with
      | .error _ => none
      | .ok (tx, flags) =>
        let outcome := commitOutcome (earlier ++ [⟨tx.stats, some flags⟩])
        some { c.resume i (.committed outcome.1) with
          flushStats := Function.update c.flushStats i outcome.2
          returned := c.returned ++ [tx.stats] }
    | _ => none
  | .replayReturns i earlier now graph =>
    match c.service.flushes.pc i with
    | .replaying item _ =>
      match processors rt gate now t item.record ⟨graph, {}⟩ with
      | .error _ => none
      | .ok tx =>
        let stats := retried .ofEnrichment (earlier ++ [⟨tx.stats, some ()⟩])
        some { c.resume i (.committed [decide (0 < stats.value "entities_enriched")]) with
          flushStats := Function.update c.flushStats i stats
          returned := c.returned ++ [tx.stats] }
    | _ => none
  | .flushMerges i =>
    if atMerge (c.service.flushes.pc i) then
      let (stats, merged) := mergeGlobalStats false (c.flushStats i).items c.enrichmentStats
      some { c.resume i (if merged then .returned else .raised keyError) with enrichmentStats := stats }
    else none
  | .handler d =>
    match c.service.pc d with
    | .received =>
      some { c with
        service := c.service.handler settings bodies d
        localStats := Function.update c.localStats d .ofDelivery }
    | _ => none
  | .shutdown => some { c with service := { c.service with shutdownRequested := true } }
  | .wake d =>
    match c.service.pc d with
    | .awaiting future =>
      let c' := { c with service := c.service.wake d }
      match c.service.flushes.batcher.futures future with
      | .result matched =>
        some { c' with
          localStats := Function.update c.localStats d ((c.localStats d).add (entityKey matched) 1) }
      | _ => some c'
    | _ => none
  | .singleReturns d earlier now graph =>
    match c.service.pc d, bodies d with
    | .writing, .ok (.obj body) =>
      match processors rt gate now t body ⟨graph, {}⟩ with
      | .error _ => none
      | .ok tx =>
        let stats := retried (c.localStats d) (earlier ++ [⟨tx.stats, some ()⟩])
        some { c with
          service := c.service.wrote d (.ok (decide (0 < stats.value "entities_enriched")))
          localStats := Function.update c.localStats d stats
          returned := c.returned ++ [tx.stats] }
    | _, _ => none
  | .singleRaises d error => some { c with service := c.service.wrote d (.error error) }
  | .merges d =>
    match c.service.pc d with
    | .merging _ =>
      let (stats, merged) := mergeGlobalStats true (c.localStats d).items c.enrichmentStats
      some { c with
        service := c.service.merged d (if merged then none else some keyError)
        enrichmentStats := stats }
    | _ => none
  | .cancel d => some { c with service := c.service.cancel settings d }

end CountingService

end Brainzgraphinator
