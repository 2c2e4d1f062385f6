-- SUMMARY: The message handler of one data type: its deliveries beside the write tasks.
import Brainzgraphinator.Delivery.FlushInvariant

/-!
# The message handler

`Service` is the handler of one data type with its write batcher. Delivery `d` runs
`operation` on the body `bodies d`; what it returns or raises goes to the delivery
runner, which settles it as returned and classifies what is raised. A redelivery is
a delivery of its own.

`completed` is the membership of the data type in `completed_files`. `singles` is a
record of the transactions of single-record writes, beside those of the write tasks.
-/

namespace Brainzgraphinator

/-! ## Results -/

inductive Settlement where
  | ack
  | reject
  | requeue
  | defer
  deriving DecidableEq

structure DeliveryResult where
  settlement : Settlement
  outcome : String
  errorType : Option String := none
  deriving DecidableEq

/-- Where the operation of a delivery is. -/
inductive DeliveryPc where
  /-- The handler has not been called. -/
  | received
  /-- `await future` in `submit`. -/
  | awaiting (future : Nat)
  /-- `await _write_single(…)`: the record's own transaction is in flight. -/
  | writing
  /-- `await _merge_global_stats(local_stats)`. -/
  | merging (matched : Bool)
  | returned (result : DeliveryResult)
  /-- The exception leaves the operation; the delivery runner sees it. -/
  | raised (error : Raised)
  deriving DecidableEq

/-- A transaction of `_write_single`: its delivery, its record and what came of it,
if it is over. -/
structure SingleWrite where
  delivery : Nat
  record : Dict
  result : Option (Except Raised Bool)

/-! ## The state -/

structure Service where
  flushes : Flushes := {}
  pc : Nat → DeliveryPc := fun _ => .received
  shutdownRequested : Bool := false
  completed : Bool := false
  singles : List SingleWrite := []

namespace Service

variable (settings : Settings) (bodies : Nat → Except String Json)

def setPc (d : Nat) (pc : DeliveryPc) (s : Service) : Service :=
  { s with pc := Function.update s.pc d pc }

/-! ## The operation of a delivery -/

/-- `DeliveryResult(Settlement.REJECT, "failed", "ValidationError")`. -/
def validationError : DeliveryResult := ⟨.reject, "failed", some "ValidationError"⟩

/-- The `except` clauses: outages and cancellations escape, the rest is requeued. -/
def failure : Raised → DeliveryPc
  | .transient => .raised .transient
  | .cancelled => .raised .cancelled
  | .other name => .returned ⟨.requeue, "failed", some name⟩

/-- `DeliveryResult(Settlement.ACK, outcome)`. -/
def acked (matched : Bool) : DeliveryResult := ⟨.ack, if matched then "processed" else "skipped", none⟩

/-- `check_file_completion`: the message is a terminal event. -/
def isTerminal (body : Dict) : Bool :=
  body.get "type" = .str "file_complete" || body.get "type" = .str "extraction_complete"

/-- `operation`, up to its first await. -/
def operation (d : Nat) (s : Service) : Service :=
  match bodies d with
  | .error name => s.setPc d (failure (.other name))
  | .ok (.obj body) =>
    if isTerminal body then { s.setPc d (.returned ⟨.ack, "control", none⟩) with completed := true }
    else
      let s := { s with completed := false }
      match Dict.get? body "id" with
      | none => s.setPc d (.returned validationError)
      | some id =>
        if !id.truthy then s.setPc d (.returned validationError)
        else if !s.flushes.driver then s.setPc d (failure Flushes.notInitialized)
        else if settings.batchMode then
          { s.setPc d (.awaiting s.flushes.batcher.submitted.length) with
            flushes := s.flushes.apply settings (.submit body d) }
        else { s.setPc d .writing with singles := s.singles ++ [⟨d, body, none⟩] }
  -- `.get` on something that is not a dictionary.
  | .ok _ => s.setPc d (failure (.other "AttributeError"))

def handler (d : Nat) (s : Service) : Service :=
  if s.shutdownRequested then s.setPc d (.returned ⟨.defer, "shutdown", none⟩)
  else s.operation settings bodies d

/-- The future of a waiting delivery is done, and its task goes on. -/
def wake (d : Nat) (s : Service) : Service :=
  match s.pc d with
  | .awaiting future =>
    match s.flushes.batcher.futures future with
    | .pending => s
    | .result matched => s.setPc d (.merging matched)
    | .exception error => s.setPc d (failure error)
    | .cancelled => s.setPc d (failure .cancelled)
  | _ => s

/-- What comes of the transaction in flight for this delivery. -/
def settled (d : Nat) (result : Except Raised Bool) (w : SingleWrite) : SingleWrite :=
  if w.delivery = d ∧ w.result = none then { w with result := some result } else w

/-- The transaction of `_write_single` is over, and the delivery goes on. -/
def endSingle (d : Nat) (result : Except Raised Bool) (s : Service) : Service :=
  { s.setPc d (match result with | .ok matched => .merging matched | .error error => failure error) with
    singles := s.singles.map (settled d result) }

/-- The task of a delivery is cancelled at its await; the future it waits for goes with it. -/
def cancel (d : Nat) (s : Service) : Service :=
  match s.pc d with
  | .awaiting future =>
    { s.setPc d (failure .cancelled) with
      flushes := s.flushes.apply settings (.cancelSubmitter future) }
  | .writing => s.endSingle d (.error .cancelled)
  | .merging _ => s.setPc d (failure .cancelled)
  | _ => s

/-- What came of the transaction of a single-record write. -/
def wrote (d : Nat) (result : Except Raised Bool) (s : Service) : Service :=
  match s.pc d with
  | .writing => s.endSingle d result
  | _ => s

/-- The local counters are merged, or the merge raises. -/
def merged (d : Nat) (error : Option Raised) (s : Service) : Service :=
  match s.pc d with
  | .merging matched =>
    match error with
    | none => s.setPc d (.returned (acked matched))
    | some error => s.setPc d (failure error)
  | _ => s

/-! ## Runs -/

inductive Step : Service → Service → Prop
  /-- An event of the write tasks and their timer. -/
  | flush {s : Service} {e : Flushes.Event} : s.flushes.Enabled e →
      (∀ record span, e ≠ .submit record span) →
      Step s { s with flushes := s.flushes.apply settings e }
  | handler {s : Service} {d : Nat} : s.pc d = .received → Step s (s.handler settings bodies d)
  | shutdown (s : Service) : Step s { s with shutdownRequested := true }
  | wake (d : Nat) (s : Service) : Step s (s.wake d)
  | cancel (d : Nat) (s : Service) : Step s (s.cancel settings d)
  | wrote (d : Nat) (result : Except Raised Bool) (s : Service) : Step s (s.wrote d result)
  | merged (d : Nat) (error : Option Raised) (s : Service) : Step s (s.merged d error)

/-- The states any interleaving can lead to. -/
def Reachable (s : Service) : Prop := Relation.ReflTransGen (Step settings bodies) {} s

end Service

end Brainzgraphinator
