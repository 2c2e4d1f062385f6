-- SUMMARY: The service on its graph: the four message handlers, and the transactions their write calls commit.
import Brainzgraphinator.Base.Runs
import Brainzgraphinator.Delivery.AckAfterCommit
import Brainzgraphinator.Delivery.SerializedFlushes
import Brainzgraphinator.Projections.LastWriter

/-!
# The enricher

`Enricher` is the whole writing side of the service: a handler for each of the four
entity types, and the catalog graph they share. A write call carries a transaction; it
takes effect when the call returns, or without the call being told: the connection may
break after the commit, and the driver may then run the transaction again.

`log` is a record of the transactions that took effect, in order.
-/

namespace Brainzgraphinator

structure Enricher where
  graph : Graph
  services : EntityType → Service := fun _ => {}
  log : List Transaction := []

/-- What carries a transaction: a write task, or a delivery that writes on its own. -/
inductive Writer where
  | task (i : Nat)
  | delivery (d : Nat)

namespace Enricher

/-- The records of a type that took effect. -/
def records (t : EntityType) (c : Enricher) : List Dict :=
  (c.log.filter fun tx => tx.type = t).flatMap Transaction.records

def setService (t : EntityType) (s : Service) (c : Enricher) : Enricher :=
  { c with services := Function.update c.services t s }

inductive Event where
  /-- An event of the write tasks of a type, but for a commit. -/
  | flush (type : EntityType) (e : Flushes.Event)
  | handler (type : EntityType) (delivery : Nat)
  | shutdown
  | wake (type : EntityType) (delivery : Nat)
  | cancel (type : EntityType) (delivery : Nat)
  | singleRaises (type : EntityType) (delivery : Nat) (error : Raised)
  | merged (type : EntityType) (delivery : Nat) (error : Option Raised)
  /-- The transaction in flight takes effect, and the call goes on waiting. -/
  | takesEffect (type : EntityType) (writer : Writer) (now : Json)
  /-- The transaction in flight takes effect, and the call returns. -/
  | returns (type : EntityType) (writer : Writer) (now : Json)

/-- An event that commits nothing; records are submitted by the handler only. -/
def quiet : Flushes.Event → Bool
  | .submit _ _ | .resume _ (.committed _) => false
  | _ => true

variable (rt : Runtime) (gate : Bool) (settings : Settings) (bodies : EntityType → Nat → Except String Json)

/-- What the transaction in flight is to write. -/
def work (t : EntityType) (c : Enricher) : Writer → Option Work
  | .task i =>
    match (c.services t).flushes.pc i with
    | .committing => some (.batch (((c.services t).flushes.batch i).map PendingWrite.record))
    | .replaying item _ => some (.message item.record)
    | _ => none
  | .delivery d =>
    match (c.services t).pc d, bodies t d with
    | .writing, .ok (.obj body) => some (.message body)
    | _, _ => none

/-- The write call returns these flags. -/
def reply (flags : List Bool) (s : Service) : Writer → Service
  | .task i => { s with flushes := s.flushes.resume i (.committed flags) }
  | .delivery d => s.wrote d (.ok (flags.headD false))

/-- The transaction in flight is executed, and its flags are passed on. -/
def transact (t : EntityType) (writer : Writer) (now : Json) (c : Enricher)
    (next : List Bool → Service → Service) : Option Enricher :=
  match work bodies t c writer with
  | none => none
  | some work =>
    match (⟨t, now, work⟩ : Transaction).execute rt gate c.graph with
    | .error _ => none
    | .ok (tx, flags) =>
      some { c.setService t (next flags (c.services t)) with
        graph := tx.graph
        log := c.log ++ [⟨t, now, work⟩] }

def step (c : Enricher) : Event → Option Enricher
  | .flush t e =>
    let s := c.services t
    if quiet e ∧ s.flushes.Enabled e then
      some (c.setService t { s with flushes := s.flushes.apply settings e })
    else none
  | .handler t d =>
    match (c.services t).pc d with
    | .received => some (c.setService t ((c.services t).handler settings (bodies t) d))
    | _ => none
  | .shutdown => some { c with services := fun t => { c.services t with shutdownRequested := true } }
  | .wake t d => some (c.setService t ((c.services t).wake d))
  | .cancel t d => some (c.setService t ((c.services t).cancel settings d))
  | .singleRaises t d error => some (c.setService t ((c.services t).wrote d (.error error)))
  | .merged t d error => some (c.setService t ((c.services t).merged d error))
  | .takesEffect t writer now => c.transact rt gate bodies t writer now fun _ s => s
  | .returns t writer now => c.transact rt gate bodies t writer now fun flags s => reply flags s writer

end Enricher

/-! ## What a step tells a handler -/

namespace Flushes

variable {s : Flushes}

theorem committed_replay (i : Nat) (items : List PendingWrite) (s : Flushes) :
    (s.replay i items).committed = s.committed := by
  rw [replay_eq]
  split
  · cases items <;> rfl
  · exact (settles_fail items notInitialized s).committed

theorem committed_commitFailed (i : Nat) (error : Raised) (s : Flushes) :
    (s.commitFailed i error).committed = s.committed := by
  have hfail : ((s.fail (s.batch i) error).setPc i .finished).committed = s.committed :=
    (settles_fail (s.batch i) error s).committed
  cases error with
  | transient => exact hfail
  | cancelled => exact hfail
  | other name =>
    rw [commitFailed]
    split
    · exact hfail
    · exact committed_replay i _ s

theorem committed_settle_replay (i : Nat) (item : PendingWrite) (rest : List PendingWrite) {value : FutureState}
    (hvalue : value.done = true) (s : Flushes) :
    ((s.settle item value).replay i rest).committed = s.committed :=
  (committed_replay i rest _).trans (settles_settle item hvalue s).committed

theorem committed_replayRaised (i : Nat) (item : PendingWrite) (rest : List PendingWrite) (error : Raised)
    (s : Flushes) : (s.replayRaised i item rest error).committed = s.committed := by
  cases error with
  | cancelled => rfl
  | transient => exact committed_settle_replay i item rest rfl s
  | other name => exact committed_settle_replay i item rest rfl s

theorem committed_enterCommit (i : Nat) (s : Flushes) : (s.enterCommit i).committed = s.committed := by
  rw [enterCommit]
  split
  · rfl
  · exact committed_commitFailed i notInitialized (s.release i)

theorem committed_resume (i : Nat) {awaited : Awaited} (hawaited : ∀ flags, awaited ≠ .committed flags)
    (s : Flushes) : (s.resume i awaited).committed = s.committed := by
  unfold resume
  split
  · exact committed_commitFailed i _ _
  · exact absurd rfl (hawaited _)
  · exact committed_commitFailed i _ _
  · exact (settles_setResults _ s).committed
  · rfl
  · exact absurd rfl (hawaited _)
  · exact committed_replayRaised i _ _ _ _
  · exact committed_settle_replay i _ _ rfl s
  · exact committed_replayRaised i _ _ _ s
  · rfl

/-- A quiet event commits nothing. -/
theorem committed_quiet {settings : Settings} {e : Event} (hquiet : Enricher.quiet e = true) (s : Flushes) :
    (s.apply settings e).committed = s.committed := by
  cases e with
  | submit record span => rfl
  | fire timer => rfl
  | cancelSubmitter future => rfl
  | setDriver driver => rfl
  | start i =>
    change (s.start settings i).committed = s.committed
    rw [start]
    split
    · rfl
    · exact committed_enterCommit i s
  | cancelUnstarted i => rfl
  | acquire i => exact committed_enterCommit i s
  | resume i awaited =>
    refine committed_resume i (fun flags heq => ?_) s
    rw [heq] at hquiet
    cases hquiet

/-- The results of a write call that returns. -/
theorem committed_resume_committed (i : Nat) (flags : List Bool) (s : Flushes) :
    (s.resume i (.committed flags)).committed = s.committed ∨
      (s.pc i = .committing ∧ (s.resume i (.committed flags)).committed = s.committed ++ [(s.batch i).zip flags]) ∨
      ∃ item rest matched, s.pc i = .replaying item rest ∧ flags = [matched] ∧
        (s.resume i (.committed flags)).committed = s.committed ++ [[(item, matched)]] := by
  cases hpc : s.pc i with
  | committing =>
    refine .inr (.inl ⟨rfl, ?_⟩)
    simp only [resume, hpc]
    rfl
  | replaying item rest =>
    rcases flags with _ | ⟨matched, _ | ⟨second, more⟩⟩
    · exact .inl (by simp only [resume, hpc])
    · refine .inr (.inr ⟨item, rest, matched, rfl, rfl, ?_⟩)
      simp only [resume, hpc]
      rfl
    · exact .inl (by simp only [resume, hpc])
  | _ => exact .inl (by simp only [resume, hpc])

end Flushes

namespace Service

variable {settings : Settings} {bodies : Nat → Except String Json} {s s' : Service} {d : Nat} {record : Dict}
  {matched : Bool}

/-- A write call has told the handler what the record's transaction reported. -/
def Told (s : Service) (record : Dict) (matched : Bool) : Prop :=
  (∃ tx ∈ s.flushes.committed, ∃ x ∈ tx, x.1.record = record ∧ x.2 = matched) ∨
    ∃ w ∈ s.singles, w.record = record ∧ w.result = some (.ok matched)

theorem Committed.told {body : Dict} (h : s.Committed d body matched) : s.Told body matched := by
  rcases h with ⟨tx, htx, x, hx, _, hrecord, hmatched⟩ | hsingle
  · exact .inl ⟨tx, htx, x, hx, hrecord, hmatched⟩
  · exact .inr ⟨_, hsingle, rfl, rfl⟩

theorem Told.of_eq (h : s'.Told record matched) (hcommitted : s'.flushes.committed = s.flushes.committed)
    (hsingles : ∀ w ∈ s'.singles, w.result = some (.ok matched) → w ∈ s.singles) : s.Told record matched := by
  rcases h with ⟨tx, htx, h⟩ | ⟨w, hw, hrecord, hresult⟩
  · exact .inl ⟨tx, hcommitted ▸ htx, h⟩
  · exact .inr ⟨w, hsingles w hw hresult, hrecord, hresult⟩

/-- A delivery that fails on its own adds no result. -/
theorem Told.of_endSingle_error {error : Raised} (h : (s.endSingle d (.error error)).Told record matched) :
    s.Told record matched := by
  refine h.of_eq rfl fun w hw hresult => ?_
  obtain ⟨w₀, hw₀, rfl⟩ := List.mem_map.mp hw
  rw [settled] at hresult ⊢
  split at hresult
  · cases hresult
  · rename_i hnot
    rw [if_neg hnot]
    exact hw₀

/-- The handler starts a write call at most. -/
theorem singles_handler {w : SingleWrite} (hw : w ∈ (s.handler settings bodies d).singles) :
    w ∈ s.singles ∨ w.result = none := by
  revert hw
  unfold handler operation
  dsimp only
  repeat' split
  case h_2.isFalse.isFalse.isFalse =>
    intro hw
    rcases List.mem_append.mp hw with hw | hw
    · exact .inl hw
    · rw [List.mem_singleton.mp hw]
      exact .inr rfl
  all_goals exact .inl

theorem Told.of_handler (h : (s.handler settings bodies d).Told record matched) : s.Told record matched := by
  refine h.of_eq ?_ fun w hw hresult => ?_
  · unfold handler operation
    dsimp only
    repeat' split
    all_goals rfl
  · refine (singles_handler hw).resolve_right fun hnone => ?_
    rw [hnone] at hresult
    cases hresult

theorem Told.of_wake (h : (s.wake d).Told record matched) : s.Told record matched := by
  refine h.of_eq ?_ fun w hw _ => ?_
  · unfold wake
    repeat' split
    all_goals rfl
  · revert hw
    unfold wake
    repeat' split
    all_goals exact id

theorem Told.of_merged {error : Option Raised} (h : (s.merged d error).Told record matched) :
    s.Told record matched := by
  refine h.of_eq ?_ fun w hw _ => ?_
  · unfold merged
    repeat' split
    all_goals rfl
  · revert hw
    unfold merged
    repeat' split
    all_goals exact id

theorem Told.of_cancel (h : (s.cancel settings d).Told record matched) : s.Told record matched := by
  unfold cancel at h
  split at h
  · exact h.of_eq rfl fun w hw _ => hw
  · exact h.of_endSingle_error
  · exact h.of_eq rfl fun w hw _ => hw
  · exact h

theorem Told.of_wrote_error {error : Raised} (h : (s.wrote d (.error error)).Told record matched) :
    s.Told record matched := by
  unfold wrote at h
  split at h
  · exact h.of_endSingle_error
  · exact h

end Service

namespace Enricher

variable {rt : Runtime} {gate : Bool} {settings : Settings} {bodies : EntityType → Nat → Except String Json}
  {c c' : Enricher} {e : Event} {t t' : EntityType} {writer : Writer} {g₀ : Graph}

@[simp] theorem services_setService_self (t : EntityType) (s : Service) (c : Enricher) :
    (c.setService t s).services t = s := Function.update_self _ _ _

theorem services_setService_of_ne (h : t' ≠ t) (s : Service) (c : Enricher) :
    (c.setService t s).services t' = c.services t' := Function.update_of_ne h _ _

/-- What a write call returns is what its transaction has reported. -/
theorem told_reply {work : Work} (hwork : Enricher.work bodies t c writer = some work)
    (hinv : Service.Inv settings (bodies t) (c.services t)) {f : Dict → Bool} {record : Dict} {matched : Bool}
    (h : (reply (work.records.map f) (c.services t) writer).Told record matched) :
    (c.services t).Told record matched ∨ record ∈ work.records ∧ matched = f record := by
  cases writer with
  | task i =>
    rcases h with ⟨tx, htx, x, hx, rfl, rfl⟩ | hsingle
    · change tx ∈ ((c.services t).flushes.resume i (.committed (work.records.map f))).committed at htx
      rcases Flushes.committed_resume_committed i (work.records.map f) (c.services t).flushes with
        hsame | ⟨hpc, hcommitted⟩ | ⟨item, rest, flag, hpc, hflags, hcommitted⟩
      · exact .inl (.inl ⟨tx, hsame ▸ htx, x, hx, rfl, rfl⟩)
      · rw [hcommitted, List.mem_append, List.mem_singleton] at htx
        rcases htx with hold | rfl
        · exact .inl (.inl ⟨tx, hold, x, hx, rfl, rfl⟩)
        · simp only [Enricher.work, hpc, Option.some.injEq] at hwork
          subst hwork
          have hzip := List.zip_map' (f := id) (g := f ∘ PendingWrite.record) (l := (c.services t).flushes.batch i)
          rw [List.map_id] at hzip
          rw [Work.records, List.map_map, hzip] at hx
          obtain ⟨w, hw, rfl⟩ := List.mem_map.mp hx
          exact .inr ⟨List.mem_map_of_mem hw, rfl⟩
      · rw [hcommitted, List.mem_append, List.mem_singleton] at htx
        rcases htx with hold | rfl
        · exact .inl (.inl ⟨tx, hold, x, hx, rfl, rfl⟩)
        · simp only [Enricher.work, hpc, Option.some.injEq] at hwork
          subst hwork
          rw [List.mem_singleton.mp hx]
          exact .inr ⟨List.mem_singleton_self _, (List.cons.inj hflags).1.symm⟩
    · exact .inl (.inr hsingle)
  | delivery d =>
    simp only [Enricher.work] at hwork
    split at hwork
    · rename_i body hpc hbody
      cases hwork
      have hwrote : reply ([body].map f) (c.services t) (.delivery d) = (c.services t).endSingle d (.ok (f body)) := by
        simp only [reply, Service.wrote, hpc]
        rfl
      rw [Work.records, hwrote] at h
      rcases h with hflushed | ⟨w, hw, rfl, hresult⟩
      · exact .inl (.inl hflushed)
      · obtain ⟨w₀, hw₀, rfl⟩ := List.mem_map.mp hw
        by_cases hmine : w₀.delivery = d ∧ w₀.result = none
        · rw [Service.settled, if_pos hmine] at hresult ⊢
          have hfollows := (hinv.single w₀ hw₀).1
          rw [hmine.1, hbody, Except.ok.injEq, Json.obj.injEq] at hfollows
          refine .inr ⟨?_, ?_⟩
          · rw [← hfollows]
            exact List.mem_singleton_self _
          · rw [← hfollows]
            exact (Except.ok.inj (Option.some.inj hresult)).symm
        · rw [Service.settled, if_neg hmine] at hresult ⊢
          exact .inl (.inr ⟨w₀, hw₀, rfl, hresult⟩)
    · cases hwork

theorem transact_eq_some {now : Json} {next : List Bool → Service → Service}
    (h : c.transact rt gate bodies t writer now next = some c') : ∃ work tx flags,
      Enricher.work bodies t c writer = some work ∧
      (⟨t, now, work⟩ : Transaction).execute rt gate c.graph = .ok (tx, flags) ∧
      c' = { c.setService t (next flags (c.services t)) with
        graph := tx.graph
        log := c.log ++ [⟨t, now, work⟩] } := by
  unfold transact at h
  split at h
  · cases h
  · rename_i work hwork
    split at h
    · cases h
    · rename_i tx flags hexec
      exact ⟨work, tx, flags, hwork, hexec, (Option.some.inj h).symm⟩

theorem records_concat (tx : Transaction) (h : c'.log = c.log ++ [tx]) (t : EntityType) :
    c'.records t = c.records t ++ if tx.type = t then tx.records else [] := by
  rw [records, h, List.filter_append, List.flatMap_append, List.filter_singleton, records]
  by_cases htype : tx.type = t
  · rw [decide_eq_true htype, if_pos htype, cond_true, List.flatMap_singleton]
  · rw [decide_eq_false htype, if_neg htype, cond_false, List.flatMap_nil]

/-- The reply to a write call is a step of its handler. -/
theorem step_reply {work : Work} (hwork : Enricher.work bodies t c writer = some work) {flags : List Bool}
    (hflags : flags.length = work.records.length) :
    Service.Step settings (bodies t) (c.services t) (reply flags (c.services t) writer) := by
  cases writer with
  | task i =>
    refine .flush (e := .resume i (.committed flags)) (fun hpc => ?_) (by rintro record span ⟨⟩)
    simp only [Enricher.work, hpc, Option.some.injEq] at hwork
    subst hwork
    rw [hflags, Work.records, List.length_map]
  | delivery d => exact .wrote d _ _

/-! ## What holds in every state -/

structure Inv (rt : Runtime) (settings : Settings) (bodies : EntityType → Nat → Except String Json) (g₀ : Graph)
    (c : Enricher) : Prop where
  service : ∀ t, Service.Inv settings (bodies t) (c.services t)
  reflects : ∀ t, Reflects rt t (c.records t) g₀ c.graph
  told : ∀ t record matched, (c.services t).Told record matched →
    record ∈ c.records t ∧ matched = matchesNode rt t g₀ record

theorem Inv.init (g₀ : Graph) : Inv rt settings bodies g₀ { graph := g₀ } where
  service _ := .init
  reflects t := .refl g₀
  told := by
    rintro t record matched (⟨_, htx, _⟩ | ⟨_, hw, _⟩)
    · cases htx
    · cases hw

/-- A step of a handler that tells it nothing. -/
theorem Inv.setService (hinv : Inv rt settings bodies g₀ c) {s : Service}
    (hstep : Service.Step settings (bodies t) (c.services t) s)
    (htold : ∀ record matched, s.Told record matched → (c.services t).Told record matched) :
    Inv rt settings bodies g₀ (c.setService t s) where
  service t' := by
    by_cases h : t' = t
    · subst h
      rw [services_setService_self]
      exact (hinv.service t').step hstep
    · rw [services_setService_of_ne h]
      exact hinv.service t'
  reflects := hinv.reflects
  told t' record matched h := by
    by_cases heq : t' = t
    · subst heq
      rw [services_setService_self] at h
      exact hinv.told t' record matched (htold record matched h)
    · rw [services_setService_of_ne heq] at h
      exact hinv.told t' record matched h

/-- A transaction takes effect; its handler is told what it has reported, or nothing. -/
theorem Inv.transact (hinv : Inv rt settings bodies g₀ c) (hinj : Function.Injective rt.hexdigest)
    (htruthful : ∀ t, TruthfulNodes rt t g₀) {now : Json} {next : List Bool → Service → Service}
    (hnext : ∀ flags s, next flags s = s ∨ next flags s = reply flags s writer)
    (h : c.transact rt gate bodies t writer now next = some c') : Inv rt settings bodies g₀ c' := by
  obtain ⟨work, tx, flags, hwork, hexec, rfl⟩ := transact_eq_some h
  have hflags : flags = work.records.map (matchesNode rt t g₀) := by
    have hreport := (execute_entityWrite hexec).2
    rw [hreport]
    exact List.map_congr_left fun record _ => (hinv.reflects t).matchesNode_eq record
  have hrecords : ∀ t', ({ c.setService t (next flags (c.services t)) with
      graph := tx.graph, log := c.log ++ [⟨t, now, work⟩] } : Enricher).records t' =
        c.records t' ++ if t = t' then work.records else [] :=
    records_concat ⟨t, now, work⟩ rfl
  refine ⟨fun t' => ?_, fun t' => ?_, fun t' record matched htold => ?_⟩
  · by_cases heq : t' = t
    · subst heq
      change Service.Inv settings (bodies t') ((c.setService t' _).services t')
      rw [services_setService_self]
      rcases hnext flags (c.services t') with hsame | hreply
      · rw [hsame]
        exact hinv.service t'
      · rw [hreply]
        exact (hinv.service t').step (step_reply hwork (by rw [hflags, List.length_map]))
    · change Service.Inv settings (bodies t') ((c.setService t _).services t')
      rw [services_setService_of_ne heq]
      exact hinv.service t'
  · rw [hrecords t']
    by_cases heq : t = t'
    · rw [if_pos heq]
      exact (hinv.reflects t').own hinj (htruthful t') heq hexec
    · rw [if_neg heq, List.append_nil]
      exact (hinv.reflects t').foreign heq hexec
  · rw [hrecords t', List.mem_append]
    by_cases heq : t' = t
    · subst heq
      change ((c.setService t' _).services t').Told record matched at htold
      rw [services_setService_self] at htold
      rw [if_pos rfl]
      have hcases : (c.services t').Told record matched ∨
          record ∈ work.records ∧ matched = matchesNode rt t' g₀ record := by
        rcases hnext flags (c.services t') with hsame | hreply
        · exact .inl (hsame ▸ htold)
        · rw [hreply, hflags] at htold
          exact told_reply hwork (hinv.service t') htold
      rcases hcases with hold | ⟨hmem, hmatched⟩
      · obtain ⟨hmem, hmatched⟩ := hinv.told t' record matched hold
        exact ⟨.inl hmem, hmatched⟩
      · exact ⟨.inr hmem, hmatched⟩
    · change ((c.setService t _).services t').Told record matched at htold
      rw [services_setService_of_ne heq] at htold
      obtain ⟨hmem, hmatched⟩ := hinv.told t' record matched htold
      exact ⟨.inl hmem, hmatched⟩

theorem Inv.step (hinv : Inv rt settings bodies g₀ c) (hinj : Function.Injective rt.hexdigest)
    (htruthful : ∀ t, TruthfulNodes rt t g₀) (h : Enricher.step rt gate settings bodies c e = some c') :
    Inv rt settings bodies g₀ c' := by
  cases e with
  | flush t e =>
    obtain ⟨⟨hquiet, henabled⟩, hnext⟩ := Option.ite_none_right_eq_some.mp h
    cases hnext
    refine hinv.setService (.flush henabled ?_) fun record matched htold => ?_
    · rintro record span rfl
      cases hquiet
    · exact htold.of_eq (Flushes.committed_quiet hquiet _) fun w hw _ => hw
  | handler t d =>
    simp only [Enricher.step] at h
    split at h
    · rename_i hpc
      cases h
      exact hinv.setService (.handler hpc) fun record matched => Service.Told.of_handler
    · cases h
  | shutdown =>
    cases h
    exact ⟨fun t => (hinv.service t).step (.shutdown _), hinv.reflects, hinv.told⟩
  | wake t d =>
    cases h
    exact hinv.setService (.wake d _) fun record matched => Service.Told.of_wake
  | cancel t d =>
    cases h
    exact hinv.setService (.cancel d _) fun record matched => Service.Told.of_cancel
  | singleRaises t d error =>
    cases h
    exact hinv.setService (.wrote d _ _) fun record matched => Service.Told.of_wrote_error
  | merged t d error =>
    cases h
    exact hinv.setService (.merged d error _) fun record matched => Service.Told.of_merged
  | takesEffect t writer now => exact hinv.transact hinj htruthful (fun _ _ => .inl rfl) h
  | returns t writer now => exact hinv.transact hinj htruthful (fun _ _ => .inr rfl) h

/-- In every state of every run from a graph with truthful digests: a delivery
acknowledged as processed has a node, one acknowledged as skipped has none, and the
record is among those that took effect. The node of an acknowledged record carries the
one that took effect last among those with its Discogs id. -/
theorem acknowledged_reflected (hinj : Function.Injective rt.hexdigest) (htruthful : ∀ t, TruthfulNodes rt t g₀)
    {es : List Event} (h : Runs.Run (Enricher.step rt gate settings bodies) (fun _ _ => True) { graph := g₀ } es c)
    {d : Nat} {matched : Bool} (hpc : (c.services t).pc d = .returned (Service.acked matched)) :
    ∃ body, bodies t d = .ok (.obj body) ∧ body ∈ c.records t ∧ matched = matchesNode rt t c.graph body ∧
      ∀ id, discogsId rt (t.spec rt).idKey body = some id →
        ∃ record, lastOf rt (t.spec rt).idKey (c.records t) id = some record ∧
          ∀ n, c.graph.node ⟨(t.spec rt).kind, id⟩ = some n → Carries rt (t.spec rt) record n := by
  have hinv : Inv rt settings bodies g₀ c :=
    h.invariant (I := Inv rt settings bodies g₀) (.init g₀) fun hinv _ hstep => hinv.step hinj htruthful hstep
  have hsound : (c.services t).Sound (bodies t) d (.returned (Service.acked matched)) :=
    hpc ▸ (hinv.service t).sound d
  obtain ⟨body, flag, hbody, hresult, hcommitted⟩ : ∃ body flag, bodies t d = .ok (.obj body) ∧
      Service.acked matched = Service.acked flag ∧ (c.services t).Committed d body flag := by
    rcases hsound with ⟨_, _, _, houtcome⟩ | hacked
    · cases matched <;> exact absurd houtcome (by decide)
    · exact hacked
  have hflag : matched = flag := by
    cases matched <;> cases flag <;> first | rfl | exact absurd hresult (by decide)
  obtain ⟨hmem, hmatched⟩ := hinv.told t body flag hcommitted.told
  refine ⟨body, hbody, hmem, ?_, fun id hid => ?_⟩
  · rw [hflag, hmatched, (hinv.reflects t).matchesNode_eq]
  · obtain ⟨record, _, hlast, _⟩ := exists_lastOf hmem hid
    exact ⟨record, hlast, fun n hn => ((hinv.reflects t).node id).2.1 record n hlast hn⟩

theorem truthfulNodes_of_bare (h : ∀ k n, g₀.node k = some n → n "mb_hash" = .null) (t : EntityType) :
    TruthfulNodes rt t g₀ := fun _ n hn => .inl (h _ n hn)

/-- A release with a node, and an artist without one. -/
def releaseAndArtist : EntityType → Nat → Except String Json
  | .releases, _ => .ok (.obj (("id", .str "r") :: mediaLessRecord))
  | _, _ => .ok (.obj [("id", .str "a"), ("discogs_artist_id", .int 1)])

/-- The commit of the release is not told at first, and the artist's comes in between. -/
def retriedRelease : List Event :=
  [.flush .releases (.setDriver true), .flush .artists (.setDriver true), .handler .releases 0, .handler .artists 0,
    .flush .releases (.start 0), .flush .artists (.start 0), .takesEffect .releases (.task 0) (.str "first"),
    .returns .artists (.task 0) (.str "second"), .returns .releases (.task 0) (.str "third"),
    .flush .artists (.resume 0 .returned), .flush .releases (.resume 0 .returned),
    .wake .artists 0, .merged .artists 0 none, .wake .releases 0, .merged .releases 0 none]

theorem acknowledged_reflected_retriedRelease : ∃ c : Enricher,
    Runs.Run (Enricher.step plainRuntime true ⟨1, by decide, true, false⟩ releaseAndArtist) (fun _ _ => True)
        { graph := bareRelease } retriedRelease c ∧
      (∃ body, body ∈ c.records .releases ∧ matchesNode plainRuntime .releases c.graph body = true) ∧
      ∃ body, body ∈ c.records .artists ∧ matchesNode plainRuntime .artists c.graph body = false := by
  obtain ⟨c, hrun, hrelease, hartist⟩ : ∃ c : Enricher,
      Runs.Run (Enricher.step plainRuntime true ⟨1, by decide, true, false⟩ releaseAndArtist) (fun _ _ => True)
          { graph := bareRelease } retriedRelease c ∧
        (c.services .releases).pc 0 = .returned (Service.acked true) ∧
        (c.services .artists).pc 0 = .returned (Service.acked false) := by
    refine Runs.exists_run ?_
    decide +kernel
  have hbare : ∀ k n, bareRelease.node k = some n → n "mb_hash" = .null := by
    intro k n hn
    simp only [bareRelease, Option.ite_none_right_eq_some, Option.some.injEq] at hn
    rw [← hn.2]
    rfl
  obtain ⟨body, _, hmem, hmatched, _⟩ :=
    acknowledged_reflected plainRuntime_injective (truthfulNodes_of_bare hbare) hrun hrelease
  obtain ⟨body', _, hmem', hmatched', _⟩ :=
    acknowledged_reflected plainRuntime_injective (truthfulNodes_of_bare hbare) hrun hartist
  exact ⟨c, hrun, ⟨body, hmem, hmatched.symm⟩, body', hmem', hmatched'.symm⟩

end Enricher

end Brainzgraphinator
