-- SUMMARY: One extraction of a data type from the broker to the last settlement, and when it ends up in completed_files.
import Brainzgraphinator.Base.Runs
import Brainzgraphinator.Delivery.Service

/-!
# The end of an extraction

The broker delivers the messages of an extraction in publish order, the records and
then the terminal events. What is requeued it delivers again, at any later time. The
handlers of the deliveries run in any order, and each delivery is settled once its
operation is over. A lost connection requeues what is not settled.

`completed_files` is also written by the recovery, which takes the data type out if its
queue held messages when it looked.
-/

namespace Brainzgraphinator

/-- What is published for one data type: its records, then `file_complete` and
`extraction_complete`. -/
structure Extraction where
  records : List (Except String Json)
  terminals : List Dict
  not_terminal : ∀ body : Dict, .ok (.obj body) ∈ records → Service.isTerminal body = false
  terminal : ∀ body ∈ terminals, Service.isTerminal body = true
  terminals_ne_nil : terminals ≠ []

def Extraction.messages (x : Extraction) : List (Except String Json) :=
  x.records ++ x.terminals.map fun body => .ok (.obj body)

namespace Completion

/-! ## The broker and the handler -/

/-- Where a message is. -/
inductive Place where
  /-- In the queue, not delivered yet or requeued. -/
  | queued
  | delivered (delivery : Nat)
  | acked
  | rejected
  deriving DecidableEq

structure Consumption where
  service : Service := {}
  /-- How many messages have been delivered a first time. -/
  sent : Nat := 0
  place : Nat → Place := fun _ => .queued
  /-- The message of each delivery. -/
  deliveries : List Nat := []
  /-- The recovery read a backlog of this data type. -/
  backlog : Bool := false

/-- What the service does between the calls of its handler. -/
inductive Work where
  | flush (e : Flushes.Event)
  | shutdown
  | wake (delivery : Nat)
  | cancel (delivery : Nat)
  | wrote (delivery : Nat) (result : Except Raised Bool)
  | merged (delivery : Nat) (error : Option Raised)

inductive Event where
  | delivers (message : Nat)
  | handles (delivery : Nat)
  | settles (delivery : Nat)
  /-- The connection is lost. -/
  | drops
  | works (work : Work)
  /-- `declaration_result.message_count` in `_recover_consumers`. -/
  | counts (backlog : Bool)
  /-- `completed_files.discard(data_type)` in `_recover_consumers`. -/
  | uncompletes

/-- How the delivery runner settles: what is raised is waited for and requeued, but for a
cancellation, which like a DEFER leaves the message where it is. -/
def settlement : DeliveryPc → Option Place
  | .returned ⟨.ack, _, _⟩ => some .acked
  | .returned ⟨.reject, _, _⟩ => some .rejected
  | .returned ⟨.requeue, _, _⟩ | .raised .transient | .raised (.other _) => some .queued
  | _ => none

/-- The messages not settled go back to the queue. -/
def requeue : Place → Place
  | .delivered _ => .queued
  | place => place

variable (settings : Settings) (x : Extraction)

/-- The handler alone submits. -/
def submits : Flushes.Event → Bool
  | .submit _ _ => true
  | _ => false

def work (s : Service) : Work → Option Service
  | .flush e =>
    if submits e = false ∧ s.flushes.Enabled e then some { s with flushes := s.flushes.apply settings e } else none
  | .shutdown => some { s with shutdownRequested := true }
  | .wake d => some (s.wake d)
  | .cancel d => some (s.cancel settings d)
  | .wrote d result => some (s.wrote d result)
  | .merged d error => some (s.merged d error)

namespace Consumption

/-- The body of a delivery. -/
def bodies (s : Consumption) (d : Nat) : Except String Json :=
  (s.deliveries[d]?.bind (x.messages[·]?)).getD (.error "JSONDecodeError")

def step (s : Consumption) : Event → Option Consumption
  | .delivers m =>
    if m ≤ s.sent ∧ m < x.messages.length ∧ s.place m = .queued then
      some { s with
        sent := max s.sent (m + 1), deliveries := s.deliveries ++ [m]
        place := Function.update s.place m (.delivered s.deliveries.length) }
    else none
  | .handles d =>
    if d < s.deliveries.length ∧ s.service.pc d = .received then
      some { s with service := s.service.handler settings (s.bodies x) d }
    else none
  | .settles d =>
    match s.deliveries[d]? with
    | none => none
    | some m =>
      if s.place m = .delivered d then
        (settlement (s.service.pc d)).map fun place => { s with place := Function.update s.place m place }
      else none
  | .drops => some { s with place := fun m => requeue (s.place m) }
  | .works w => (work settings s.service w).map fun service => { s with service := service }
  | .counts backlog =>
    if backlog = true → ∃ m ∈ List.range x.messages.length, s.place m = .queued then
      some { s with backlog := backlog }
    else none
  | .uncompletes =>
    if s.backlog then some { s with service := { s.service with completed := false }, backlog := false } else none

/-- At the start of the extraction; the mark may be there from the one before. -/
def start (completed : Bool) : Consumption := { service := { completed := completed } }

/-- Every record is acknowledged or rejected, and every terminal event is acknowledged. -/
def Finished (s : Consumption) : Prop :=
  ∀ m ∈ List.range x.messages.length, s.place m = .acked ∨ m < x.records.length ∧ s.place m = .rejected

instance (s : Consumption) : Decidable (s.Finished x) := inferInstanceAs (Decidable (∀ _ ∈ _, _))

/-- `operation` is called on a terminal event, and marks the data type. -/
def Marks (s : Consumption) : Event → Prop
  | .handles d => s.service.shutdownRequested = false ∧
      ∃ body, s.bodies x d = .ok (.obj body) ∧ Service.isTerminal body = true
  | _ => False

/-- `operation` is called on a record, or the recovery goes on: the mark is taken away. -/
def Unmarks (s : Consumption) : Event → Prop
  | .handles d => s.service.shutdownRequested = false ∧
      ∃ body, s.bodies x d = .ok (.obj body) ∧ Service.isTerminal body = false
  | .uncompletes => True
  | _ => False

variable {settings x} {s s' : Consumption} {e : Event}

/-! ## The mark -/

theorem completed_work {s s' : Service} {w : Work} (h : work settings s w = some s') :
    s'.completed = s.completed := by
  cases w with
  | flush e =>
    obtain ⟨_, heq⟩ := Option.ite_none_right_eq_some.mp h
    cases heq
    rfl
  | shutdown => cases h; rfl
  | wake d =>
    cases h
    unfold Service.wake
    repeat' split
    all_goals rfl
  | cancel d =>
    cases h
    unfold Service.cancel
    split
    all_goals rfl
  | wrote d result =>
    cases h
    unfold Service.wrote
    split
    all_goals rfl
  | merged d error =>
    cases h
    unfold Service.merged
    repeat' split
    all_goals rfl

/-- A record that is no dictionary raises before it gets to the mark. -/
theorem completed_operation (bodies : Nat → Except String Json) (d : Nat) (s : Service) :
    (s.operation settings bodies d).completed =
      match bodies d with
      | .ok (.obj body) => Service.isTerminal body
      | _ => s.completed := by
  unfold Service.operation
  split
  · rename_i hbody
    rw [hbody]
    rfl
  · rename_i body hbody
    rw [hbody]
    dsimp only
    split
    · rename_i hterminal
      exact hterminal.symm
    · rename_i hterminal
      rw [Bool.not_eq_true] at hterminal
      rw [hterminal]
      repeat' split
      all_goals rfl
  · rename_i hno hbody
    split
    · rename_i body hobj
      rw [hbody] at hobj
      exact absurd (Except.ok.inj hobj) (hno body)
    · rfl

theorem completed_handler {bodies : Nat → Except String Json} {d : Nat} {s : Service}
    (hrunning : s.shutdownRequested = false) :
    (s.handler settings bodies d).completed =
      match bodies d with
      | .ok (.obj body) => Service.isTerminal body
      | _ => s.completed := by
  rw [Service.handler, hrunning, if_neg Bool.false_ne_true, completed_operation]

theorem Marks.completed (h : s.Marks x e) (hstep : s.step settings x e = some s') : s'.service.completed = true := by
  cases e with
  | handles d =>
    obtain ⟨hrunning, body, hbody, hterminal⟩ := h
    obtain ⟨_, heq⟩ := Option.ite_none_right_eq_some.mp hstep
    cases heq
    rw [completed_handler hrunning, hbody]
    exact hterminal
  | _ => exact h.elim

theorem Unmarks.completed (h : s.Unmarks x e) (hstep : s.step settings x e = some s') :
    s'.service.completed = false := by
  cases e with
  | handles d =>
    obtain ⟨hrunning, body, hbody, hterminal⟩ := h
    obtain ⟨_, heq⟩ := Option.ite_none_right_eq_some.mp hstep
    cases heq
    rw [completed_handler hrunning, hbody]
    exact hterminal
  | uncompletes =>
    obtain ⟨_, heq⟩ := Option.ite_none_right_eq_some.mp hstep
    cases heq
    rfl
  | _ => exact h.elim

/-- Nothing else touches the mark. -/
theorem completed_step (hstep : s.step settings x e = some s') (hmarks : ¬ s.Marks x e) (hunmarks : ¬ s.Unmarks x e) :
    s'.service.completed = s.service.completed := by
  cases e with
  | handles d =>
    obtain ⟨_, heq⟩ := Option.ite_none_right_eq_some.mp hstep
    cases heq
    cases hshutdown : s.service.shutdownRequested with
    | true =>
      rw [Service.handler, if_pos hshutdown]
      rfl
    | false =>
      rw [completed_handler hshutdown]
      split
      · rename_i body hbody
        cases hterminal : Service.isTerminal body with
        | true => exact absurd ⟨hshutdown, body, hbody, hterminal⟩ hmarks
        | false => exact absurd ⟨hshutdown, body, hbody, hterminal⟩ hunmarks
      · rfl
  | works w =>
    obtain ⟨service, hwork, heq⟩ := Option.map_eq_some_iff.mp hstep
    cases heq
    exact completed_work hwork
  | settles d =>
    unfold step at hstep
    dsimp only at hstep
    split at hstep
    · cases hstep
    · obtain ⟨_, hplace⟩ := Option.ite_none_right_eq_some.mp hstep
      obtain ⟨_, _, heq⟩ := Option.map_eq_some_iff.mp hplace
      cases heq
      rfl
  | drops => cases hstep; rfl
  | delivers m | counts backlog =>
    obtain ⟨_, heq⟩ := Option.ite_none_right_eq_some.mp hstep
    cases heq
    rfl
  | uncompletes => exact absurd trivial hunmarks

/-! ## A terminal event is acknowledged only once it was marked -/

theorem pc_handler_of_ne (bodies : Nat → Except String Json) {d d' : Nat} (hd : d' ≠ d) (s : Service) :
    (s.handler settings bodies d).pc d' = s.pc d' := by
  unfold Service.handler Service.operation
  dsimp only
  repeat' split
  all_goals exact Function.update_of_ne hd _ _

theorem pc_handler_shutdown {bodies : Nat → Except String Json} {d : Nat} {s : Service}
    (h : s.shutdownRequested = true) :
    (s.handler settings bodies d).pc d = .returned ⟨.defer, "shutdown", none⟩ := by
  rw [Service.handler, if_pos h]
  exact Function.update_self _ _ _

theorem pc_handler_terminal {bodies : Nat → Except String Json} {d : Nat} {s : Service} {body : Dict}
    (h : s.shutdownRequested = false) (hbody : bodies d = .ok (.obj body))
    (hterminal : Service.isTerminal body = true) :
    (s.handler settings bodies d).pc d = .returned ⟨.ack, "control", none⟩ := by
  rw [Service.handler, h, if_neg Bool.false_ne_true, Service.operation, hbody]
  dsimp only
  rw [if_pos hterminal]
  exact Function.update_self _ _ _

/-- A delivery that is not called yet, or is over, stays as it is. -/
theorem pc_work {s s' : Service} {w : Work} (h : work settings s w = some s') {d : Nat}
    (hquiet : s.pc d = .received ∨ ∃ result, s.pc d = .returned result) : s'.pc d = s.pc d := by
  have hother : ∀ {t : Service} {d' : Nat} {pc : DeliveryPc}, t.pc d = s.pc d →
      (∀ result, s.pc d' ≠ .returned result) → s.pc d' ≠ .received → (t.setPc d' pc).pc d = s.pc d := by
    intro t d' pc ht hreturned hreceived
    refine (Function.update_of_ne ?_ _ _).trans ht
    rintro rfl
    rcases hquiet with hquiet | ⟨result, hquiet⟩
    · exact hreceived hquiet
    · exact hreturned result hquiet
  cases w with
  | flush e =>
    obtain ⟨_, heq⟩ := Option.ite_none_right_eq_some.mp h
    cases heq
    rfl
  | shutdown => cases h; rfl
  | wake d' =>
    cases h
    unfold Service.wake
    split
    · rename_i future hawaiting
      split
      · rfl
      all_goals exact hother rfl (by rw [hawaiting]; nofun) (by rw [hawaiting]; nofun)
    · rfl
  | cancel d' =>
    cases h
    unfold Service.cancel
    split
    case h_4 => rfl
    all_goals
      rename_i hbusy
      exact hother rfl (by rw [hbusy]; nofun) (by rw [hbusy]; nofun)
  | wrote d' result =>
    cases h
    unfold Service.wrote
    split
    · rename_i hwriting
      exact hother rfl (by rw [hwriting]; nofun) (by rw [hwriting]; nofun)
    · rfl
  | merged d' error =>
    cases h
    unfold Service.merged
    split
    · rename_i matched hmerging
      split
      all_goals exact hother rfl (by rw [hmerging]; nofun) (by rw [hmerging]; nofun)
    · rfl

/-- The deliveries of the terminal events, where `marked` says that one was handled. -/
structure Inv (x : Extraction) (s : Consumption) (marked : Prop) : Prop where
  known : ∀ d m : Nat, s.deliveries[d]? = some m → m < x.messages.length
  fresh : ∀ d, s.deliveries.length ≤ d → s.service.pc d = .received
  terminal : ∀ d m : Nat, s.deliveries[d]? = some m → x.records.length ≤ m → s.service.pc d = .received ∨
    ∃ result, s.service.pc d = .returned result ∧
      (result.settlement = .defer ∨ result.settlement = .ack ∧ marked)
  acked : ∀ m, x.records.length ≤ m → s.place m = .acked → marked

theorem Inv.start (c : Bool) (marked : Prop) : Inv x (.start c) marked where
  known d m h := by cases h
  fresh d _ := rfl
  terminal d m h := by cases h
  acked m _ h := by cases h

theorem Inv.mono {marked marked' : Prop} (h : Inv x s marked) (hmono : marked → marked') : Inv x s marked' where
  known := h.known
  fresh := h.fresh
  terminal d m hd hm := (h.terminal d m hd hm).imp_right fun ⟨result, hpc, hsettlement⟩ =>
    ⟨result, hpc, hsettlement.imp_right fun hack => ⟨hack.1, hmono hack.2⟩⟩
  acked m hm hplace := hmono (h.acked m hm hplace)

/-- The body of a delivery of a terminal event. -/
theorem bodies_eq_terminal {d m : Nat} (hd : s.deliveries[d]? = some m) (hm : x.records.length ≤ m)
    (hlt : m < x.messages.length) : ∃ body, s.bodies x d = .ok (.obj body) ∧ Service.isTerminal body = true := by
  have hlen : m - x.records.length < x.terminals.length := by
    rw [Extraction.messages, List.length_append, List.length_map] at hlt
    omega
  have hmessage : x.messages[m]? = some (.ok (.obj x.terminals[m - x.records.length])) := by
    rw [Extraction.messages, List.getElem?_append_right hm, List.getElem?_map, List.getElem?_eq_getElem hlen]
    rfl
  refine ⟨x.terminals[m - x.records.length], ?_, x.terminal _ (List.getElem_mem hlen)⟩
  rw [bodies, hd, Option.bind_some, hmessage]
  rfl

theorem Inv.step {marked marked' : Prop} (h : Inv x s marked) (hstep : s.step settings x e = some s')
    (hmono : marked → marked') (hmarks : s.Marks x e → marked') : Inv x s' marked' := by
  have hinv := h.mono hmono
  cases e with
  | delivers m =>
    -- The new delivery is not handled yet, and its message is with the consumer again.
    obtain ⟨⟨_, hlt, _⟩, heq⟩ := Option.ite_none_right_eq_some.mp hstep
    cases heq
    constructor
    · intro d m' hd
      rcases List.mem_append.mp (List.mem_of_getElem? hd) with hmem | hmem
      · obtain ⟨d', hd'⟩ := List.getElem?_of_mem hmem
        exact hinv.known d' m' hd'
      · rw [List.mem_singleton.mp hmem]
        exact hlt
    · intro d hd
      rw [List.length_append, List.length_singleton] at hd
      exact hinv.fresh d (by omega)
    · intro d m' hd hm'
      by_cases hold : d < s.deliveries.length
      · rw [List.getElem?_append_left hold] at hd
        exact hinv.terminal d m' hd hm'
      · exact .inl (hinv.fresh d (Nat.le_of_not_lt hold))
    · intro m' hm' hplace
      dsimp only at hplace
      by_cases hsame : m' = m
      · rw [hsame, Function.update_self] at hplace
        cases hplace
      · rw [Function.update_of_ne hsame] at hplace
        exact hinv.acked m' hm' hplace
  | handles d =>
    -- A terminal message is marked by its handler, or deferred by a shutdown.
    obtain ⟨⟨hlt, _⟩, heq⟩ := Option.ite_none_right_eq_some.mp hstep
    cases heq
    refine ⟨hinv.known, fun d' hd' => ?_, fun d' m hd' hm => ?_, hinv.acked⟩
    · have hne : d' ≠ d := fun heq => absurd hlt (Nat.not_lt.mpr (heq ▸ hd'))
      exact (pc_handler_of_ne _ hne _).trans (hinv.fresh d' hd')
    · by_cases hd : d' = d
      · subst hd
        obtain ⟨body, hbody, hterminal⟩ := bodies_eq_terminal (s := s) hd' hm (hinv.known d' m hd')
        cases hshutdown : s.service.shutdownRequested with
        | true => exact .inr ⟨_, pc_handler_shutdown hshutdown, .inl rfl⟩
        | false =>
          exact .inr ⟨_, pc_handler_terminal hshutdown hbody hterminal,
            .inr ⟨rfl, hmarks ⟨hshutdown, body, hbody, hterminal⟩⟩⟩
      · dsimp only
        rw [pc_handler_of_ne _ hd]
        exact hinv.terminal d' m hd' hm
  | settles d =>
    unfold Consumption.step at hstep
    dsimp only at hstep
    split at hstep
    · cases hstep
    · rename_i m hd
      obtain ⟨_, hsettles⟩ := Option.ite_none_right_eq_some.mp hstep
      obtain ⟨place, hsettlement, heq⟩ := Option.map_eq_some_iff.mp hsettles
      cases heq
      refine ⟨hinv.known, hinv.fresh, hinv.terminal, fun m' hm' hplace => ?_⟩
      dsimp only at hplace
      by_cases hsame : m' = m
      · rw [hsame, Function.update_self] at hplace
        rw [hsame] at hm'
        -- Only a delivery that returned an ACK is settled so.
        rcases hinv.terminal d m hd hm' with hpc | ⟨⟨settlement, _, _⟩, hpc, hdefer | ⟨_, hmarked⟩⟩
        · rw [hpc] at hsettlement
          cases hsettlement
        · cases hdefer
          rw [hpc] at hsettlement
          cases hsettlement
        · exact hmarked
      · rw [Function.update_of_ne hsame] at hplace
        exact hinv.acked m' hm' hplace
  | drops =>
    cases hstep
    refine ⟨hinv.known, hinv.fresh, hinv.terminal, fun m hm hplace => hinv.acked m hm ?_⟩
    dsimp only at hplace
    cases hold : s.place m with
    | acked => rfl
    | _ => rw [hold] at hplace; cases hplace
  | works w =>
    -- What has not begun, or has returned, is moved by no other delivery and no task.
    obtain ⟨service, hwork, heq⟩ := Option.map_eq_some_iff.mp hstep
    cases heq
    refine ⟨hinv.known, fun d hd => ?_, fun d m hd hm => ?_, hinv.acked⟩
    · exact (pc_work hwork (.inl (hinv.fresh d hd))).trans (hinv.fresh d hd)
    · have hterminal := hinv.terminal d m hd hm
      have hpc := pc_work hwork (hterminal.imp_right fun ⟨result, hpc, _⟩ => ⟨result, hpc⟩)
      dsimp only
      rw [hpc]
      exact hterminal
  | counts backlog =>
    obtain ⟨_, heq⟩ := Option.ite_none_right_eq_some.mp hstep
    cases heq
    exact ⟨hinv.known, hinv.fresh, hinv.terminal, hinv.acked⟩
  | uncompletes =>
    obtain ⟨_, heq⟩ := Option.ite_none_right_eq_some.mp hstep
    cases heq
    exact ⟨hinv.known, hinv.fresh, hinv.terminal, hinv.acked⟩

/-! ## The end -/

theorem inv_of_run {c : Bool} {es : List Event} (h : Runs.Run (step settings x) (fun _ _ => True) (.start c) es s) :
    Inv x s (Runs.Takes (step settings x) (.start c) es (Marks x)) := by
  induction h with
  | nil => exact .start c _
  | snoc hrun _ hstep ih => exact ih.step hstep (fun h => h.snoc _) hrun.takes

/-- A finished extraction has its terminal events handled, and its data type is in
`completed_files` exactly if no record was handled after the last of them, and the recovery
did not go on after it. -/
theorem completed_iff_terminal_last (settings : Settings) (x : Extraction) (c : Bool) (es : List Event)
    (h : Runs.Run (step settings x) (fun _ _ => True) (.start c) es s) (hfinished : s.Finished x) :
    Runs.Takes (step settings x) (.start c) es (Marks x) ∧
      (s.service.completed = true ↔
        Runs.Since (step settings x) (.start c) es s (Marks x) (Unmarks x)) := by
  have htakes : Runs.Takes (step settings x) (.start c) es (Marks x) := by
    refine (inv_of_run h).acked x.records.length le_rfl ?_
    have hterminals := List.length_pos_iff.mpr x.terminals_ne_nil
    have hmem : x.records.length ∈ List.range x.messages.length := by
      rw [List.mem_range, Extraction.messages, List.length_append, List.length_map]
      omega
    exact (hfinished _ hmem).resolve_right fun hrejected => absurd hrejected.1 (lt_irrefl _)
  exact ⟨htakes, h.flag_iff (fun hstep hmarks => hmarks.completed hstep)
    (fun hstep hunmarks => hunmarks.completed hstep) completed_step htakes⟩

/-- A record and both terminal events. -/
def oneRecord : Extraction where
  records := [.ok (.obj [("id", .str "a")])]
  terminals := [[("type", .str "file_complete")], [("type", .str "extraction_complete")]]
  not_terminal := by
    intro body hbody
    cases List.mem_singleton.mp hbody
    decide +kernel
  terminal := by decide +kernel
  terminals_ne_nil := List.cons_ne_nil _ _

def singly : Settings := ⟨1, Nat.one_pos, false, false⟩

/-- The record is written at once. -/
theorem completed_iff_terminal_last_inOrder :
    ∃ es s, Runs.Run (step singly oneRecord) (fun _ _ => True) (start false) es s ∧ s.Finished oneRecord ∧
      Runs.Since (step singly oneRecord) (start false) es s (Marks oneRecord) (Unmarks oneRecord) := by
  have hexec : (Runs.exec (step singly oneRecord) (start false)
      [.works (.flush (.setDriver true)), .delivers 0, .handles 0, .works (.wrote 0 (.ok true)),
        .works (.merged 0 none), .settles 0, .delivers 1, .handles 1, .settles 1, .delivers 2, .handles 2,
        .settles 2]).any (fun s => decide (s.Finished oneRecord ∧ s.service.completed = true)) = true := by
    decide +kernel
  obtain ⟨s, hrun, hfinished, hcompleted⟩ := Runs.exists_run hexec
  exact ⟨_, s, hrun, hfinished, (completed_iff_terminal_last singly oneRecord false _ hrun hfinished).2.mp hcompleted⟩

/-- The database is down when the record is first delivered, and it comes back after the
terminal events. -/
theorem late_record_unmarks :
    ¬ ∀ (settings : Settings) (x : Extraction) (c : Bool) (es : List Event) (s : Consumption),
      Runs.Run (step settings x) (fun _ _ => True) (start c) es s → s.Finished x → s.service.completed = true := by
  intro hclaim
  have hexec : (Runs.exec (step singly oneRecord) (start false)
      [.works (.flush (.setDriver true)), .delivers 0, .handles 0, .works (.wrote 0 (.error .transient)),
        .settles 0, .delivers 1, .handles 1, .settles 1, .delivers 2, .handles 2, .settles 2, .delivers 0, .handles 3,
        .works (.wrote 3 (.ok true)), .works (.merged 3 none),
        .settles 3]).any (fun s => decide (s.Finished oneRecord ∧ s.service.completed = false)) = true := by
    decide +kernel
  obtain ⟨s, hrun, hfinished, hcompleted⟩ := Runs.exists_run hexec
  rw [hclaim singly oneRecord false _ s hrun hfinished] at hcompleted
  cases hcompleted

end Consumption

end Completion

end Brainzgraphinator
