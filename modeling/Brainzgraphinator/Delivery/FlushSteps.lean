-- SUMMARY: What one step of a write task can change.
import Brainzgraphinator.Delivery.Flushes

/-!
# Steps of write tasks

A step of task `i` moves its own program counter, settles futures of its own
members and adds to the record of transactions (`TaskStep`). Every step keeps the
past (`Keeps`), and a matched flag it gives to a member is one that a committed
transaction reported for that record.
-/

namespace Brainzgraphinator

namespace Flushes

variable {settings : Settings} {s s' s'' : Flushes}

/-! ## The past is kept -/

/-- Batches, submissions and transactions are only added, and a settled future
keeps its value. -/
structure Keeps (s s' : Flushes) : Prop where
  writes : s.batcher.writes <+: s'.batcher.writes
  submitted : s.batcher.submitted <+: s'.batcher.submitted
  started : s.started <+: s'.started
  committed : s.committed <+: s'.committed
  failed : s.failed <+: s'.failed
  futures : ∀ f, (s.batcher.futures f).done = true → s'.batcher.futures f = s.batcher.futures f

theorem Keeps.refl (s : Flushes) : Keeps s s :=
  ⟨List.prefix_rfl, List.prefix_rfl, List.prefix_rfl, List.prefix_rfl, List.prefix_rfl, fun _ _ => rfl⟩

theorem Keeps.trans (h : Keeps s s') (h' : Keeps s' s'') : Keeps s s'' := by
  refine ⟨h.writes.trans h'.writes, h.submitted.trans h'.submitted, h.started.trans h'.started,
    h.committed.trans h'.committed, h.failed.trans h'.failed, fun f hf => ?_⟩
  have heq := h.futures f hf
  rw [← heq]
  exact h'.futures f (heq ▸ hf)

theorem Keeps.isDone (h : Keeps s s') {w : PendingWrite} (hw : s.isDone w = true) :
    s'.isDone w = true := by
  have heq := h.futures w.future hw
  rw [Flushes.isDone, Batcher.isDone, heq]
  exact hw

/-- The batch of a task that exists does not change. -/
theorem Keeps.batch_eq (h : Keeps s s') {i : Nat} (hi : i < s.batcher.writes.length) :
    s'.batch i = s.batch i := by
  obtain ⟨added, hadded⟩ := h.writes
  rw [batch, batch, ← hadded, List.getElem?_append_left hi]

/-! ## Settling futures -/

def withFutures (futures : Nat → FutureState) (s : Flushes) : Flushes :=
  { s with batcher := { s.batcher with futures := futures } }

/-- What settling members with values does: nothing to futures that are done,
and no member is left waiting. -/
structure Settles (values : List (PendingWrite × FutureState)) (s s' : Flushes) : Prop where
  eq : s' = s.withFutures s'.batcher.futures
  steps : ∀ settings, Relation.ReflTransGen (Batcher.Step settings) s.batcher s'.batcher
  kept : ∀ f, (s.batcher.futures f).done = true → s'.batcher.futures f = s.batcher.futures f
  origin : ∀ f, s'.batcher.futures f = s.batcher.futures f ∨
    ∃ v ∈ values, v.1.future = f ∧ s'.batcher.futures f = v.2
  done : ∀ v ∈ values, s'.isDone v.1 = true

theorem settles_settle (w : PendingWrite) {value : FutureState} (hvalue : value.done = true)
    (s : Flushes) : Settles [(w, value)] s (s.settle w value) := by
  refine ⟨?_, fun _ => .single (.settle w.future value s.batcher), fun f hf => Batcher.settle_kept hf,
    fun f => ?_, fun v hv => ?_⟩
  · rw [withFutures, settle, ← Batcher.settle_eq]
  · by_cases hne : f = w.future
    · subst hne
      by_cases hdone : (s.batcher.futures w.future).done = true
      · exact .inl (Batcher.settle_kept hdone)
      · refine .inr ⟨_, List.mem_singleton_self _, rfl, ?_⟩
        simp [settle, Batcher.settle, hdone]
    · refine .inl ?_
      rw [settle, Batcher.settle]
      split
      · rfl
      · exact Function.update_of_ne hne _ _
  · rw [List.mem_singleton.mp hv, Flushes.isDone, Batcher.isDone, settle, Batcher.settle]
    split
    · rename_i hdone
      exact hdone
    · simp only [Function.update_self, hvalue]

theorem settles_nil (s : Flushes) : Settles [] s s :=
  ⟨rfl, fun _ => .refl, fun _ _ => rfl, fun _ => .inl rfl, nofun⟩

theorem Settles.append {xs ys : List (PendingWrite × FutureState)} (h : Settles xs s s')
    (h' : Settles ys s' s'') : Settles (xs ++ ys) s s'' := by
  refine ⟨?_, fun settings => (h.steps settings).trans (h'.steps settings), fun f hf => ?_,
    fun f => ?_, fun v hv => ?_⟩
  · rw [h'.eq, h.eq]
    rfl
  · have heq := h.kept f hf
    rw [← heq]
    exact h'.kept f (heq ▸ hf)
  · rcases h'.origin f with heq' | ⟨v, hv, hf, heq'⟩
    · rcases h.origin f with heq | ⟨v, hv, hf, heq⟩
      · exact .inl (heq'.trans heq)
      · exact .inr ⟨v, List.mem_append_left _ hv, hf, heq'.trans heq⟩
    · exact .inr ⟨v, List.mem_append_right _ hv, hf, heq'⟩
  · rcases List.mem_append.mp hv with hv | hv
    · have hdone := h.done v hv
      rw [Flushes.isDone, Batcher.isDone] at hdone ⊢
      rw [h'.kept _ hdone]
      exact hdone
    · exact h'.done v hv

theorem settles_settleAll {values : List (PendingWrite × FutureState)}
    (hvalues : ∀ v ∈ values, v.2.done = true) (s : Flushes) :
    Settles values s (s.settleAll values) := by
  induction values generalizing s with
  | nil => exact settles_nil s
  | cons v values ih =>
    have hrest := ih (fun v hv => hvalues v (List.mem_cons_of_mem _ hv)) (s.settle v.1 v.2)
    exact (settles_settle v.1 (hvalues v List.mem_cons_self) s).append hrest

theorem settles_fail (batch : List PendingWrite) (error : Raised) (s : Flushes) :
    Settles (batch.map fun w => (w, .exception error)) s (s.fail batch error) := by
  refine settles_settleAll (fun v hv => ?_) s
  obtain ⟨_, _, rfl⟩ := List.mem_map.mp hv
  rfl

theorem settles_setResults (results : List (PendingWrite × Bool)) (s : Flushes) :
    Settles (results.map fun r => (r.1, .result r.2)) s (s.setResults results) := by
  refine settles_settleAll (fun v hv => ?_) s
  obtain ⟨_, _, rfl⟩ := List.mem_map.mp hv
  rfl

/-- A run of replays without a driver fails every record at once; with one it
opens the first record's transaction. -/
theorem replay_eq (i : Nat) (items : List PendingWrite) (s : Flushes) :
    s.replay i items =
      if s.driver then
        match items with
        | [] => s.setPc i .finished
        | item :: rest => (s.beginTx i [item]).setPc i (.replaying item rest)
      else (s.fail items notInitialized).setPc i .finished := by
  induction items generalizing s with
  | nil => split <;> rfl
  | cons item rest ih =>
    by_cases hdriver : s.driver = true
    · simp [replay, hdriver]
    · have hsettle : (s.settle item (.exception notInitialized)).driver = s.driver := rfl
      rw [replay, if_neg hdriver, ih, hsettle, if_neg hdriver, if_neg hdriver]
      rfl

/-! ## One step of a task -/

/-- What a step of task `i` changes. -/
structure TaskStep (i : Nat) (s s' : Flushes) : Prop where
  keeps : Keeps s s'
  pc : ∀ j, j ≠ i → s'.pc j = s.pc j
  driver : s'.driver = s.driver
  batcher : s'.batcher = { s.batcher with futures := s'.batcher.futures }
  steps : ∀ settings, Relation.ReflTransGen (Batcher.Step settings) s.batcher s'.batcher
  started : ∀ tx ∈ s'.started, tx ∈ s.started ∨ tx.1 = i ∧ ∀ w ∈ tx.2, w ∈ s.batch i
  committed : ∀ tx ∈ s'.committed, tx ∈ s.committed ∨ ∀ x ∈ tx, x.1 ∈ s.batch i
  failed : ∀ tx ∈ s'.failed, tx ∈ s.failed ∨ ∀ w ∈ tx.1, w ∈ s.batch i
  changed : ∀ f, s'.batcher.futures f = s.batcher.futures f ∨ ∃ w ∈ s.batch i, w.future = f
  results : ∀ f m, s'.batcher.futures f = .result m → s.batcher.futures f = .result m ∨
    ∃ tx ∈ s'.committed, ∃ x ∈ tx, x.1.future = f ∧ x.2 = m

theorem TaskStep.batch_eq {i : Nat} (h : TaskStep i s s') (j : Nat) : s'.batch j = s.batch j := by
  rw [batch, batch, h.batcher]

theorem TaskStep.submitted_eq {i : Nat} (h : TaskStep i s s') :
    s'.batcher.submitted = s.batcher.submitted := by
  rw [h.batcher]

theorem TaskStep.trans {i : Nat} (h : TaskStep i s s') (h' : TaskStep i s' s'') :
    TaskStep i s s'' := by
  refine ⟨h.keeps.trans h'.keeps, fun j hj => (h'.pc j hj).trans (h.pc j hj),
    h'.driver.trans h.driver, ?_, fun settings => (h.steps settings).trans (h'.steps settings),
    fun tx htx => ?_, fun tx htx => ?_, fun tx htx => ?_, fun f => ?_, fun f m hf => ?_⟩
  · rw [h'.batcher, h.batcher]
  · rcases h'.started tx htx with htx | htx
    · exact h.started tx htx
    · rw [h.batch_eq] at htx
      exact .inr htx
  · rcases h'.committed tx htx with htx | htx
    · exact h.committed tx htx
    · rw [h.batch_eq] at htx
      exact .inr htx
  · rcases h'.failed tx htx with htx | htx
    · exact h.failed tx htx
    · rw [h.batch_eq] at htx
      exact .inr htx
  · rcases h'.changed f with heq' | hw
    · rcases h.changed f with heq | hw
      · exact .inl (heq'.trans heq)
      · exact .inr hw
    · rw [h.batch_eq] at hw
      exact .inr hw
  · rcases h'.results f m hf with hf | htx
    · rcases h.results f m hf with hf | ⟨tx, htx, hx⟩
      · exact .inl hf
      · exact .inr ⟨tx, h'.keeps.committed.subset htx, hx⟩
    · exact .inr htx

section Primitives

variable (i : Nat) (s : Flushes)

theorem taskStep_setPc (pc : FlushPc) : TaskStep i s (s.setPc i pc) :=
  ⟨{ Keeps.refl s with }, fun _ hj => Function.update_of_ne hj _ _, rfl, rfl, fun _ => .refl,
    fun _ => .inl, fun _ => .inl, fun _ => .inl, fun _ => .inl rfl, fun _ _ => .inl⟩

theorem taskStep_lock (lock : List Nat) : TaskStep i s { s with lock := lock } :=
  ⟨{ Keeps.refl s with }, fun _ _ => rfl, rfl, rfl, fun _ => .refl, fun _ => .inl, fun _ => .inl,
    fun _ => .inl, fun _ => .inl rfl, fun _ _ => .inl⟩

variable {i s}

theorem taskStep_beginTx {records : List PendingWrite} (h : ∀ w ∈ records, w ∈ s.batch i) :
    TaskStep i s (s.beginTx i records) := by
  refine ⟨{ Keeps.refl s with started := List.prefix_append _ _ }, fun _ _ => rfl, rfl, rfl,
    fun _ => .refl, fun tx htx => ?_, fun _ => .inl, fun _ => .inl, fun _ => .inl rfl, fun _ _ => .inl⟩
  rcases List.mem_append.mp htx with htx | htx
  · exact .inl htx
  · rw [List.mem_singleton.mp htx]
    exact .inr ⟨rfl, h⟩

theorem taskStep_commitTx {results : List (PendingWrite × Bool)}
    (h : ∀ x ∈ results, x.1 ∈ s.batch i) : TaskStep i s (s.commitTx results) := by
  refine ⟨{ Keeps.refl s with committed := List.prefix_append _ _ }, fun _ _ => rfl, rfl, rfl,
    fun _ => .refl, fun _ => .inl, fun tx htx => ?_, fun _ => .inl, fun _ => .inl rfl, fun _ _ => .inl⟩
  rcases List.mem_append.mp htx with htx | htx
  · exact .inl htx
  · rw [List.mem_singleton.mp htx]
    exact .inr h

theorem taskStep_failTx {records : List PendingWrite} (error : Raised)
    (h : ∀ w ∈ records, w ∈ s.batch i) : TaskStep i s (s.failTx records error) := by
  refine ⟨{ Keeps.refl s with failed := List.prefix_append _ _ }, fun _ _ => rfl, rfl, rfl,
    fun _ => .refl, fun _ => .inl, fun _ => .inl, fun tx htx => ?_, fun _ => .inl rfl, fun _ _ => .inl⟩
  rcases List.mem_append.mp htx with htx | htx
  · exact .inl htx
  · rw [List.mem_singleton.mp htx]
    exact .inr h

/-- Settling members is a step when every result is one a transaction reported. -/
theorem Settles.taskStep {values : List (PendingWrite × FutureState)} (h : Settles values s s')
    (hmem : ∀ v ∈ values, v.1 ∈ s.batch i)
    (hresult : ∀ v ∈ values, ∀ m, v.2 = .result m → ∃ tx ∈ s.committed, (v.1, m) ∈ tx) :
    TaskStep i s s' := by
  have heq := h.eq
  have hkeeps : Keeps s s' := by
    rw [heq]
    exact { Keeps.refl s with futures := h.kept }
  have hchanged : ∀ f, s'.batcher.futures f = s.batcher.futures f ∨ ∃ w ∈ s.batch i, w.future = f := by
    intro f
    rcases h.origin f with hf | ⟨v, hv, hf, _⟩
    · exact .inl hf
    · exact .inr ⟨v.1, hmem v hv, hf⟩
  refine ⟨hkeeps, ?_, ?_, ?_, h.steps, ?_, ?_, ?_, hchanged, ?_⟩
  · rw [heq]
    exact fun _ _ => rfl
  · rw [heq]
    rfl
  · rw [heq]
    rfl
  · rw [heq]
    exact fun _ => .inl
  · rw [heq]
    exact fun _ => .inl
  · rw [heq]
    exact fun _ => .inl
  · intro f m hf
    rcases h.origin f with hsame | ⟨v, hv, hvf, hvalue⟩
    · exact .inl (hsame.symm.trans hf)
    · obtain ⟨tx, htx, hx⟩ := hresult v hv m (hvalue.symm.trans hf)
      exact .inr ⟨tx, hkeeps.committed.subset htx, _, hx, hvf, rfl⟩

theorem taskStep_fail {batch : List PendingWrite} (error : Raised)
    (h : ∀ w ∈ batch, w ∈ s.batch i) : TaskStep i s (s.fail batch error) := by
  refine (settles_fail batch error s).taskStep (fun v hv => ?_) (fun v hv m hm => ?_)
  · obtain ⟨w, hw, rfl⟩ := List.mem_map.mp hv
    exact h w hw
  · obtain ⟨_, _, rfl⟩ := List.mem_map.mp hv
    cases hm

theorem taskStep_replay {items : List PendingWrite} (h : ∀ w ∈ items, w ∈ s.batch i) :
    TaskStep i s (s.replay i items) := by
  rw [replay_eq]
  split
  · cases items with
    | nil => exact taskStep_setPc i s _
    | cons item rest =>
      have hbegin : TaskStep i s (s.beginTx i [item]) := taskStep_beginTx
        fun w hw => h w (List.mem_singleton.mp hw ▸ List.mem_cons_self)
      exact hbegin.trans (taskStep_setPc i _ _)
  · exact (taskStep_fail _ h).trans (taskStep_setPc i _ _)

theorem taskStep_commitFailed (error : Raised) : TaskStep i s (s.commitFailed i error) := by
  have hfail := (taskStep_fail (s := s) error fun w hw => hw).trans (taskStep_setPc i _ .finished)
  cases error with
  | transient => exact hfail
  | cancelled => exact hfail
  | other name =>
    rw [commitFailed]
    split
    · exact hfail
    · exact taskStep_replay fun w hw => hw

theorem taskStep_enterCommit : TaskStep i s (s.enterCommit i) := by
  rw [enterCommit]
  split
  · exact (taskStep_beginTx fun w hw => hw).trans (taskStep_setPc i _ _)
  · exact (taskStep_lock i s _).trans (taskStep_commitFailed _)

theorem taskStep_start : TaskStep i s (s.start settings i) := by
  rw [start]
  split
  · exact (taskStep_lock i s _).trans (taskStep_setPc i _ _)
  · exact taskStep_enterCommit

theorem taskStep_settle {w : PendingWrite} {value : FutureState} (hvalue : value.done = true)
    (h : w ∈ s.batch i) (hresult : ∀ m, value = .result m → ∃ tx ∈ s.committed, (w, m) ∈ tx) :
    TaskStep i s (s.settle w value) := by
  refine (settles_settle w hvalue s).taskStep (fun v hv => ?_) (fun v hv m hm => ?_)
  · rw [List.mem_singleton.mp hv]
    exact h
  · rw [List.mem_singleton.mp hv] at hm ⊢
    exact hresult m hm

theorem taskStep_replayRaised {item : PendingWrite} {rest : List PendingWrite} (error : Raised)
    (h : ∀ w ∈ item :: rest, w ∈ s.batch i) : TaskStep i s (s.replayRaised i item rest error) := by
  have hsettle : TaskStep i s (s.settle item (.exception error)) :=
    taskStep_settle rfl (h item List.mem_cons_self) nofun
  have hrest : TaskStep i (s.settle item (.exception error))
      ((s.settle item (.exception error)).replay i rest) :=
    taskStep_replay fun w hw => hsettle.batch_eq i ▸ h w (List.mem_cons_of_mem _ hw)
  cases error with
  | cancelled => exact taskStep_setPc i s _
  | transient => exact hsettle.trans hrest
  | other name => exact hsettle.trans hrest

end Primitives

end Flushes

end Brainzgraphinator
