-- SUMMARY: A write task whose transactions run on the graph gives each submit what the record's own write says.
import Brainzgraphinator.Delivery.FlushInvariant
import Brainzgraphinator.Projections.BatchFallback

/-!
# Poison isolation

A write task only sees what its transactions come out with. `writeAwaits` is what they
come out with on a graph that no one else writes, and `afterWrite` the end of a task
whose awaits come out so. Its members' futures then hold what `writeBatch` answers.
-/

namespace Brainzgraphinator

/-- The exception a delivery sees, by type name. -/
def Failure.raised : Failure → Raised
  | .attributeError => .other "AttributeError"
  | .typeError => .other "TypeError"
  | .clientError => .other "ClientError"

/-- What a future is settled with. -/
def futureOf : Except Failure Bool → FutureState
  | .ok matched => .result matched
  | .error error => .exception error.raised

/-- What the awaits of one `_replay` come out with. -/
def replayAwaits : Except Failure Bool → List Awaited
  | .ok matched => [.committed [matched], .returned]
  | .error error => [.raised error.raised]

section Write

variable (rt : Runtime) (gate : Bool) (t : EntityType) (now : Json) (clock : Nat → Json)

/-- What the awaits of `_write` come out with. -/
def writeAwaits (records : List Dict) (g : Graph) : List Awaited :=
  match batchProjections rt gate now t records ⟨g, {}⟩ with
  | .ok (_, flags) => [.committed flags, .returned]
  | .error error =>
    .raised error.raised ::
      if records.length = 1 then [] else (replayAll rt gate t clock records.zipIdx g).2.flatMap replayAwaits

namespace Flushes

def resumeAll (i : Nat) (awaits : List Awaited) (s : Flushes) : Flushes :=
  awaits.foldl (fun s awaited => s.resume i awaited) s

def records (s : Flushes) (i : Nat) : List Dict := (s.batch i).map PendingWrite.record

/-- Task `i` from its batch transaction to its end. -/
def afterWrite (g : Graph) (i : Nat) (s : Flushes) : Flushes :=
  s.resumeAll i (writeAwaits rt gate t now clock (s.records i) g)

end Flushes

end Write

namespace Flushes

variable {settings : Settings} {s : Flushes} {i : Nat}

/-! ## What the task leaves in the futures -/

/-- Settle the futures one after another. -/
def settleFutures (values : List (PendingWrite × FutureState)) (b : Batcher) : Batcher :=
  values.foldl (fun b v => b.settle v.1.future v.2) b

theorem batcher_settleAll (values : List (PendingWrite × FutureState)) (s : Flushes) :
    (s.settleAll values).batcher = settleFutures values s.batcher := by
  induction values generalizing s with
  | nil => rfl
  | cons v values ih => exact ih (s.settle v.1 v.2)

theorem futures_settleFutures_of_ne {values : List (PendingWrite × FutureState)} {b : Batcher} {f : Nat}
    (h : ∀ v ∈ values, v.1.future ≠ f) : (settleFutures values b).futures f = b.futures f := by
  induction values generalizing b with
  | nil => rfl
  | cons v values ih =>
    obtain ⟨hv, hvalues⟩ := List.forall_mem_cons.mp h
    rw [settleFutures, List.foldl_cons, ← settleFutures, ih hvalues, Batcher.settle]
    split
    · rfl
    · exact Function.update_of_ne hv.symm _ _

/-- A future that waits gets its own value. -/
theorem futures_settleFutures {values : List (PendingWrite × FutureState)} {b : Batcher}
    (hnd : (values.map fun v => v.1.future).Nodup) {v : PendingWrite × FutureState} (hv : v ∈ values)
    (hwait : b.futures v.1.future = .pending) : (settleFutures values b).futures v.1.future = v.2 := by
  induction values generalizing b with
  | nil => cases hv
  | cons v' values ih =>
    rw [List.map_cons, List.nodup_cons] at hnd
    have hne : ∀ v ∈ values, v.1.future ≠ v'.1.future :=
      fun v hv heq => hnd.1 (heq ▸ List.mem_map_of_mem (f := fun v => v.1.future) hv)
    rw [settleFutures, List.foldl_cons, ← settleFutures]
    rcases List.mem_cons.mp hv with rfl | hv
    · rw [futures_settleFutures_of_ne hne, Batcher.settle, hwait, if_neg (by decide)]
      exact Function.update_self _ _ _
    · refine ih hnd.2 hv ?_
      have hother : (settleFutures [v'] b).futures v.1.future = b.futures v.1.future :=
        futures_settleFutures_of_ne fun w hw => by
          rw [List.mem_singleton.mp hw]
          exact (hne v hv).symm
      exact hother.trans hwait

theorem resumeAll_cons (i : Nat) (awaited : Awaited) (awaits : List Awaited) (s : Flushes) :
    s.resumeAll i (awaited :: awaits) = (s.resume i awaited).resumeAll i awaits := rfl

/-- The replays give every member its answer and end the task. -/
theorem resumeAll_replay (items : List PendingWrite) (answers : List (Except Failure Bool))
    (hdriver : s.driver = true) (hlength : answers.length = items.length) :
    ((s.replay i items).resumeAll i (answers.flatMap replayAwaits)).pc i = .finished ∧
      ((s.replay i items).resumeAll i (answers.flatMap replayAwaits)).batcher =
        settleFutures (items.zip (answers.map futureOf)) s.batcher := by
  induction items generalizing s answers with
  | nil =>
    cases answers with
    | nil => exact ⟨Function.update_self _ _ _, rfl⟩
    | cons _ _ => cases hlength
  | cons item rest ih =>
    cases answers with
    | nil => cases hlength
    | cons answer answers =>
      have hlength' : answers.length = rest.length := Nat.succ.inj hlength
      have hreplay : s.replay i (item :: rest) = (s.beginTx i [item]).setPc i (.replaying item rest) := by
        rw [replay, if_pos hdriver]
      have hpc : ((s.beginTx i [item]).setPc i (.replaying item rest)).pc i = .replaying item rest :=
        Function.update_self _ _ _
      rw [hreplay]
      cases answer with
      | ok matched =>
        have hcommitted : ((s.beginTx i [item]).setPc i (.replaying item rest)).resume i (.committed [matched]) =
            (((s.beginTx i [item]).setPc i (.replaying item rest)).commitTx [(item, matched)]).setPc i
              (.replayMerging item matched rest) := by
          simp only [resume, hpc]
        generalize hs₁ : (((s.beginTx i [item]).setPc i (.replaying item rest)).commitTx [(item, matched)]).setPc i
          (.replayMerging item matched rest) = s₁ at hcommitted
        have hpc₁ : s₁.pc i = .replayMerging item matched rest := by
          rw [← hs₁]
          exact Function.update_self _ _ _
        have hreturned : s₁.resume i .returned = (s₁.settle item (.result matched)).replay i rest := by
          simp only [resume, hpc₁]
        have hdriver₁ : (s₁.settle item (.result matched)).driver = true := by
          rw [← hs₁]
          exact hdriver
        have hbatcher₁ : s₁.batcher = s.batcher := by
          rw [← hs₁]
          rfl
        have hrest := ih answers hdriver₁ hlength'
        rw [List.flatMap_cons, replayAwaits, List.cons_append, List.cons_append, List.nil_append, resumeAll_cons,
          resumeAll_cons, hcommitted, hreturned]
        refine ⟨hrest.1, hrest.2.trans ?_⟩
        rw [settle, hbatcher₁]
        rfl
      | error error =>
        obtain ⟨name, hname⟩ : ∃ name, error.raised = .other name := by cases error <;> exact ⟨_, rfl⟩
        generalize hs₁ : ((s.beginTx i [item]).setPc i (.replaying item rest)).failTx [item] error.raised = s₁
        have hraised : ((s.beginTx i [item]).setPc i (.replaying item rest)).resume i (.raised error.raised) =
            (s₁.settle item (.exception error.raised)).replay i rest := by
          simp only [resume, hpc, hs₁]
          rw [hname]
          rfl
        have hdriver₁ : (s₁.settle item (.exception error.raised)).driver = true := by
          rw [← hs₁]
          exact hdriver
        have hbatcher₁ : s₁.batcher = s.batcher := by
          rw [← hs₁]
          rfl
        have hrest := ih answers hdriver₁ hlength'
        rw [List.flatMap_cons, replayAwaits, List.singleton_append, resumeAll_cons, hraised]
        refine ⟨hrest.1, hrest.2.trans ?_⟩
        rw [settle, hbatcher₁]
        rfl

variable {rt : Runtime} {gate : Bool} {t : EntityType} {now : Json} {clock : Nat → Json} {g : Graph}

theorem length_replayAll (rs : List (Dict × Nat)) (g : Graph) :
    (replayAll rt gate t clock rs g).2.length = rs.length := by
  induction rs generalizing g with
  | nil => rfl
  | cons r rs ih =>
    rw [replayAll]
    split
    · exact congrArg (· + 1) (ih g)
    · exact congrArg (· + 1) (ih _)

theorem length_writeBatch (records : List Dict) (g : Graph) :
    (writeBatch rt gate t now clock records g).2.length = records.length := by
  rw [writeBatch]
  split
  · rename_i tx flags hbatch
    obtain ⟨rfl, _⟩ := batchProjections_counted hbatch
    rw [List.length_map, List.length_map]
  · split
    · exact List.length_map _
    · rw [length_replayAll, List.length_zipIdx]

/-- The task ends, and has settled its members with the answers of the batch. -/
theorem afterWrite_spec (hpc : s.pc i = .committing) (hdriver : s.driver = true) :
    (s.afterWrite rt gate t now clock g i).pc i = .finished ∧
      (s.afterWrite rt gate t now clock g i).batcher =
        settleFutures ((s.batch i).zip ((writeBatch rt gate t now clock (s.records i) g).2.map futureOf)) s.batcher := by
  rw [afterWrite, writeAwaits, writeBatch]
  cases hbatch : batchProjections rt gate now t (s.records i) ⟨g, {}⟩ with
  | ok result =>
    obtain ⟨tx, flags⟩ := result
    generalize hs₁ : ((s.release i).commitTx ((s.batch i).zip flags)).setPc i (.merging flags) = s₁
    have hcommitted : s.resume i (.committed flags) = s₁ := by
      simp only [resume, hpc, hs₁]
    have hpc₁ : s₁.pc i = .merging flags := by
      rw [← hs₁]
      exact Function.update_self _ _ _
    have hreturned : s₁.resume i .returned = (s₁.setResults ((s₁.batch i).zip flags)).setPc i .finished := by
      simp only [resume, hpc₁]
    simp only [resumeAll_cons, hcommitted, hreturned]
    refine ⟨Function.update_self _ _ _, (batcher_settleAll _ s₁).trans ?_⟩
    rw [← hs₁, List.map_map, show futureOf ∘ .ok = FutureState.result from rfl, List.zip_map_right]
    rfl
  | error error =>
    obtain ⟨name, hname⟩ : ∃ name, error.raised = .other name := by cases error <;> exact ⟨_, rfl⟩
    generalize hs₁ : (s.release i).failTx (s.batch i) error.raised = s₁
    have hbatch₁ : s₁.batch i = s.batch i := by
      rw [← hs₁]
      rfl
    have hlength : (s.records i).length = (s.batch i).length := List.length_map _
    have hraised : s.resume i (.raised error.raised) = s₁.commitFailed i error.raised := by
      simp only [resume, hpc, hs₁]
    simp only [resumeAll_cons, hraised]
    split
    · rename_i hone
      rw [hlength, List.length_eq_one_iff] at hone
      obtain ⟨w, hw⟩ := hone
      have hfailed : s₁.commitFailed i error.raised = (s₁.fail (s₁.batch i) error.raised).setPc i .finished := by
        rw [hname, commitFailed, if_pos (by rw [hbatch₁, hw]; rfl)]
      rw [hfailed]
      refine ⟨Function.update_self _ _ _, (batcher_settleAll _ s₁).trans ?_⟩
      rw [hbatch₁, records, hw, ← hs₁]
      rfl
    · rename_i hmany
      have hreplayed : s₁.commitFailed i error.raised = s₁.replay i (s₁.batch i) := by
        rw [hname, commitFailed, if_neg (by rw [hbatch₁, ← hlength]; exact hmany)]
      have hdriver₁ : s₁.driver = true := by
        rw [← hs₁]
        exact hdriver
      have hanswers : (replayAll rt gate t clock (s.records i).zipIdx g).2.length = (s₁.batch i).length := by
        rw [length_replayAll, List.length_zipIdx, hlength, hbatch₁]
      have hrest := resumeAll_replay (i := i) _ _ hdriver₁ hanswers
      rw [hreplayed]
      refine ⟨hrest.1, hrest.2.trans ?_⟩
      rw [hbatch₁, ← hs₁]
      rfl

theorem Inv.nodup_futures (hinv : Inv settings s) (i : Nat) : ((s.batch i).map PendingWrite.future).Nodup :=
  (hinv.nodup_batch i).map_on fun _ hw _ hw' h => hinv.eq_of_future (hinv.mem_submitted hw) (hinv.mem_submitted hw') h

/-- A member that waits is given the answer of its record. -/
theorem Inv.futures_afterWrite (hinv : Inv settings s) (hpc : s.pc i = .committing) (hdriver : s.driver = true)
    {k : Nat} {w : PendingWrite} {answer : Except Failure Bool} (hw : (s.batch i)[k]? = some w)
    (hwait : s.batcher.futures w.future = .pending)
    (hanswer : (writeBatch rt gate t now clock (s.records i) g).2[k]? = some answer) :
    (s.afterWrite rt gate t now clock g i).batcher.futures w.future = futureOf answer := by
  have hlength : ((writeBatch rt gate t now clock (s.records i) g).2.map futureOf).length = (s.batch i).length := by
    rw [List.length_map, length_writeBatch, records, List.length_map]
  have hfst : ((s.batch i).zip ((writeBatch rt gate t now clock (s.records i) g).2.map futureOf)).map Prod.fst =
      s.batch i := List.map_fst_zip (le_of_eq hlength.symm)
  rw [(afterWrite_spec hpc hdriver).2]
  refine futures_settleFutures (v := (w, futureOf answer)) ?_ ?_ hwait
  · have hnd := hinv.nodup_futures i
    rw [← hfst, List.map_map] at hnd
    exact hnd
  · refine List.mem_of_getElem? (i := k) ?_
    rw [List.getElem?_zip_eq_some]
    exact ⟨hw, by rw [List.getElem?_map, hanswer]; rfl⟩

/-! ## Poison and sound records -/

/-- The record's own write fails with this error, whatever the others of the batch have written. -/
def Poison (rt : Runtime) (gate : Bool) (t : EntityType) (records : List Dict) (g : Graph) (record : Dict)
    (e : Failure) : Prop :=
  ∀ before now, Replayed rt gate t records g before → ownWrite rt gate t now record before = .error e

/-- The record's own write never fails. -/
def Unspoiled (rt : Runtime) (gate : Bool) (t : EntityType) (records : List Dict) (g : Graph) (record : Dict) : Prop :=
  ∀ before now, Replayed rt gate t records g before → ∃ matched, ownWrite rt gate t now record before = .ok matched

variable (now clock) in
/-- A batch transaction that fails exactly when a row it carries fails in its own write:
when its task is over, every submit of a record that is not superseded has what the
record's own write says. A poison record has its own error; any other one has whether
its node exists, and is on its node. A submitter that was cancelled no longer waits. -/
theorem poison_isolated (hs : Reachable settings s) (hpc : s.pc i = .committing) (hdriver : s.driver = true)
    (hinj : Function.Injective rt.hexdigest) (htruthful : TruthfulNodes rt t g)
    (hfails : (∃ e, batchProjections rt gate now t (s.records i) ⟨g, {}⟩ = .error e) ↔
      ∃ record, Carried rt t (s.records i) record ∧ ∃ e, ownWrite rt gate t now record g = .error e) :
    (s.afterWrite rt gate t now clock g i).pc i = .finished ∧
      ∀ k w, (s.batch i)[k]? = some w → s.batcher.futures w.future = .pending →
        ¬Superseded rt t (s.records i) k w.record →
        (∃ answer, (s.afterWrite rt gate t now clock g i).batcher.futures w.future = futureOf answer ∧
          Resolves rt gate t (s.records i) g (writeBatch rt gate t now clock (s.records i) g).1 w.record answer) ∧
        (∀ e, Poison rt gate t (s.records i) g w.record e →
          (s.afterWrite rt gate t now clock g i).batcher.futures w.future = .exception e.raised) ∧
        (Unspoiled rt gate t (s.records i) g w.record →
          (s.afterWrite rt gate t now clock g i).batcher.futures w.future =
            .result (matchesNode rt t g w.record) ∧
          ∀ id n', discogsId rt (t.spec rt).idKey w.record = some id →
            (writeBatch rt gate t now clock (s.records i) g).1.node ⟨(t.spec rt).kind, id⟩ = some n' →
            Carries rt (t.spec rt) w.record n') := by
  refine ⟨(afterWrite_spec hpc hdriver).1, fun k w hw hwait hnot => ?_⟩
  have hk : (s.records i)[k]? = some w.record := by rw [records, List.getElem?_map, hw]; rfl
  obtain ⟨answer, hanswer, hresolves⟩ := writeBatch_resolves clock hinj htruthful hfails hk hnot
  have hfuture := hs.inv.futures_afterWrite hpc hdriver hw hwait hanswer
  obtain ⟨before, now', hbefore, hown⟩ := hresolves.own
  refine ⟨⟨answer, hfuture, hresolves⟩, fun e hpoison => ?_, fun hsound => ?_⟩
  · rw [hfuture, hown, hpoison before now' hbefore]
    rfl
  · obtain ⟨matched, hmatched⟩ := hsound before now' hbefore
    have hok : answer = .ok matched := hown.trans hmatched
    refine ⟨?_, fun id n' hid hn' => hresolves.carries matched id n' hok hid hn'⟩
    rw [hfuture, hok, hresolves.matched matched hok]
    rfl

/-! ## One poison record among three -/

/-- A database that stores no maps. -/
def mapRejecting : Runtime :=
  { plainRuntime with storable := fun value => match value with | .obj _ => false | _ => true }

def soundLabel (id : Int) : Dict := [("id", .str "a"), ("discogs_label_id", .int id)]

def poisonLabel : Dict := [("discogs_label_id", .int 2), ("area", .obj [("nested", .str "map")])]

def bareLabels : Graph where
  node k := if k.label = .label then some noProps else none
  rels := []
  closed := by simp

/-- The batch of the three is in its transaction. -/
def poisonedBatch : List Event :=
  [.setDriver true, .submit (soundLabel 1) 0, .submit poisonLabel 1, .submit (soundLabel 3) 2, .start 0]

theorem truthfulNodes_bareLabels (rt : Runtime) : TruthfulNodes rt .labels bareLabels := by
  intro id n hn
  simp only [bareLabels, Option.ite_none_right_eq_some, Option.some.injEq] at hn
  exact .inl (by rw [← hn.2]; rfl)

theorem poison_isolated_bareLabels : ∃ s s' : Flushes, Reachable ⟨3, by decide, true, false⟩ s ∧
    s' = s.afterWrite mapRejecting true .labels .null (fun _ => .null) bareLabels 0 ∧ s'.pc 0 = .finished ∧
      s'.batcher.futures 0 = .result true ∧ s'.batcher.futures 1 = .exception (.other "ClientError") ∧
      s'.batcher.futures 2 = .result true ∧
      ∃ answer, s'.batcher.futures 1 = futureOf answer ∧
        Resolves mapRejecting true .labels (s.records 0) bareLabels
          (writeBatch mapRejecting true .labels .null (fun _ => .null) (s.records 0) bareLabels).1 poisonLabel answer := by
  have hreach : Reachable ⟨3, by decide, true, false⟩ (run ⟨3, by decide, true, false⟩ {} poisonedBatch) :=
    steps_run (by decide)
  generalize hs : run ⟨3, by decide, true, false⟩ {} poisonedBatch = s at hreach
  have hrecords : s.records 0 = [soundLabel 1, poisonLabel, soundLabel 3] := by rw [← hs]; decide +kernel
  have hfails : (∃ e, batchProjections mapRejecting true .null .labels (s.records 0) ⟨bareLabels, {}⟩ = .error e) ↔
      ∃ record, Carried mapRejecting .labels (s.records 0) record ∧
        ∃ e, ownWrite mapRejecting true .labels .null record bareLabels = .error e := by
    rw [hrecords]
    refine iff_of_true ?_ ⟨poisonLabel, ⟨"2", by decide +kernel⟩, .clientError, by decide +kernel⟩
    cases hbatch : batchProjections mapRejecting true .null .labels [soundLabel 1, poisonLabel, soundLabel 3]
        ⟨bareLabels, {}⟩ with
    | error e => exact ⟨e, rfl⟩
    | ok result =>
      have hnone : (batchProjections mapRejecting true .null .labels [soundLabel 1, poisonLabel, soundLabel 3]
        ⟨bareLabels, {}⟩).toOption.isNone = true := by decide +kernel
      rw [hbatch] at hnone
      cases hnone
  have hinj : Function.Injective mapRejecting.hexdigest := plainRuntime_injective
  obtain ⟨hfinished, hall⟩ := poison_isolated .null (fun _ => .null) hreach
    (by rw [← hs]; decide +kernel) (by rw [← hs]; decide +kernel) hinj (truthfulNodes_bareLabels _) hfails
  have hmiddle := hall 1 ⟨poisonLabel, 1, 1⟩ (by rw [← hs]; decide +kernel) (by rw [← hs]; decide +kernel) (by
    rw [hrecords]
    rintro ⟨later, hlater, id, hid, hsame⟩
    rw [List.drop_succ_cons, List.drop_succ_cons, List.drop_zero, List.mem_singleton] at hlater
    subst hlater
    have hne : discogsId mapRejecting "discogs_label_id" poisonLabel ≠
        discogsId mapRejecting "discogs_label_id" (soundLabel 3) := by decide +kernel
    exact hne (hid.trans hsame.symm))
  exact ⟨s, _, hreach, rfl, hfinished, by rw [← hs]; decide +kernel, by rw [← hs]; decide +kernel,
    by rw [← hs]; decide +kernel, hmiddle.1⟩

end Flushes

end Brainzgraphinator
