-- SUMMARY: With serialized flushes, an acknowledged record is never overwritten by one submitted before it.
import Brainzgraphinator.Delivery.Enricher

/-!
# The newest record wins

With `SERIALIZE_FLUSHES` the write tasks of a type commit in submission order, as long as
the lock is granted in order. Where every transaction that takes effect is told to its
write task, the graph follows the same order: `Tracks`. So an entity node carries the
newest of the committed records of its id, and never falls behind an acknowledged one.
-/

namespace Brainzgraphinator

namespace Service

variable {settings : Settings} {bodies : Nat → Except String Json} {s s' : Service}

/-- What a delivery does beside the write tasks: it submits a record or gives it up. -/
structure Beside (settings : Settings) (s s' : Service) : Prop where
  flushes : s'.flushes = s.flushes ∨ ∃ e, s.flushes.Enabled e ∧ s.flushes.GrantsInOrder e ∧
    s'.flushes = s.flushes.apply settings e
  committed : s'.flushes.committed = s.flushes.committed
  singles : s.singles = [] → s'.singles = []

theorem beside_setPc (d : Nat) (pc : DeliveryPc) (s : Service) : Beside settings s (s.setPc d pc) :=
  ⟨.inl rfl, rfl, id⟩

theorem beside_refl (s : Service) : Beside settings s s := ⟨.inl rfl, rfl, id⟩

/-- In batch mode no delivery writes on its own. -/
theorem beside_handler (hbatch : settings.batchMode = true) (d : Nat) (s : Service) :
    Beside settings s (s.handler settings bodies d) := by
  unfold handler operation
  split
  · exact beside_setPc d _ s
  · split
    · exact beside_setPc d _ s
    · rename_i body _
      split
      · exact ⟨.inl rfl, rfl, id⟩
      · dsimp only
        split
        · exact ⟨.inl rfl, rfl, id⟩
        · split
          · exact ⟨.inl rfl, rfl, id⟩
          · split
            · exact ⟨.inl rfl, rfl, id⟩
            · exact ⟨.inr ⟨.submit body d, trivial, by rintro i ⟨⟩, rfl⟩, rfl, id⟩
    · exact beside_setPc d _ s

theorem beside_wake (d : Nat) (s : Service) : Beside settings s (s.wake d) := by
  unfold wake
  split
  · split
    · exact beside_refl s
    all_goals exact beside_setPc d _ s
  · exact beside_refl s

theorem beside_endSingle (d : Nat) (result : Except Raised Bool) (s : Service) :
    Beside settings s (s.endSingle d result) := by
  refine ⟨.inl rfl, rfl, fun h => ?_⟩
  change s.singles.map (settled d result) = []
  rw [h, List.map_nil]

theorem beside_cancel (d : Nat) (s : Service) : Beside settings s (s.cancel settings d) := by
  unfold cancel
  split
  · rename_i future _
    exact ⟨.inr ⟨.cancelSubmitter future, trivial, by rintro i ⟨⟩, rfl⟩, rfl, id⟩
  · exact beside_endSingle d _ s
  · exact beside_setPc d _ s
  · exact beside_refl s

theorem beside_wrote (d : Nat) (result : Except Raised Bool) (s : Service) : Beside settings s (s.wrote d result) := by
  unfold wrote
  split
  · exact beside_endSingle d result s
  · exact beside_refl s

theorem beside_merged (d : Nat) (error : Option Raised) (s : Service) : Beside settings s (s.merged d error) := by
  unfold merged
  split
  · split
    all_goals exact beside_setPc d _ s
  · exact beside_refl s

end Service

namespace Enricher

variable {rt : Runtime} {gate : Bool} {settings : Settings} {bodies : EntityType → Nat → Except String Json}
  {c c' : Enricher} {e : Event} {t t' : EntityType} {g₀ : Graph}

/-- The lock of the type is granted, with a driver, only while no write task is in its
replays, and no transaction of the type takes effect untold. -/
def Orderly (t : EntityType) (c : Enricher) : Event → Prop
  | .flush t' (.acquire _) => t' = t → (c.services t).flushes.driver = true →
      ∀ j < (c.services t).flushes.batcher.writes.length, (c.services t).flushes.tickets.phase j ≠ .detached
  | .takesEffect t' _ _ => t' ≠ t
  | _ => True

instance (t : EntityType) (c : Enricher) : (e : Event) → Decidable (Orderly t c e)
  | .flush t' (.acquire _) => inferInstanceAs (Decidable (t' = t → (c.services t).flushes.driver = true →
      ∀ j < (c.services t).flushes.batcher.writes.length, (c.services t).flushes.tickets.phase j ≠ .detached))
  | .takesEffect t' _ _ => inferInstanceAs (Decidable (t' ≠ t))
  | .flush _ (.submit _ _) | .flush _ (.fire _) | .flush _ (.cancelSubmitter _) | .flush _ (.setDriver _)
  | .flush _ (.start _) | .flush _ (.cancelUnstarted _) | .flush _ (.resume _ _) | .handler _ _ | .shutdown
  | .wake _ _ | .cancel _ _ | .singleRaises _ _ _ | .merged _ _ _ | .returns _ _ _ => .isTrue trivial

theorem Orderly.grantsInOrder {e : Flushes.Event} (h : Orderly t c (.flush t e))
    (hinv : Flushes.Inv settings (c.services t).flushes) : (c.services t).flushes.GrantsInOrder e := by
  rintro i rfl hdriver j
  rcases Nat.lt_or_ge j (c.services t).flushes.batcher.writes.length with hlt | hge
  · exact h rfl hdriver j hlt
  · rw [Flushes.phase_eq (hinv.created j hge)]
    rintro ⟨⟩

/-- The records of the type took effect in the order in which they were submitted. -/
structure Tracks (t : EntityType) (c : Enricher) : Prop where
  ordered : (c.services t).flushes.Ordered
  singles : (c.services t).singles = []
  written : c.records t = (c.services t).flushes.written.map PendingWrite.record

theorem Tracks.init (t : EntityType) (g₀ : Graph) : Tracks t { graph := g₀ } :=
  ⟨.init, rfl, rfl⟩

/-- A step beside the write tasks commits nothing. -/
theorem Tracks.beside (h : Tracks t c) (hinv : Flushes.Inv settings (c.services t).flushes)
    (hserial : settings.serializeFlushes = true) {s : Service} (hstep : Service.Beside settings (c.services t') s) :
    Tracks t (c.setService t' s) := by
  by_cases heq : t' = t
  · subst heq
    refine ⟨?_, ?_, ?_⟩
    · rw [services_setService_self]
      rcases hstep.flushes with hflushes | ⟨e, he, hgrants, hflushes⟩
      · rw [hflushes]
        exact h.ordered
      · rw [hflushes]
        exact h.ordered.apply hinv hserial he hgrants
    · rw [services_setService_self]
      exact hstep.singles h.singles
    · rw [services_setService_self, Flushes.written, hstep.committed]
      exact h.written
  · have hother : (c.setService t' s).services t = c.services t := services_setService_of_ne (Ne.symm heq) s c
    exact ⟨hother.symm ▸ h.ordered, hother.symm ▸ h.singles, hother.symm ▸ h.written⟩

/-- A write call that returns adds its records to both. -/
theorem Tracks.returns (h : Tracks t c) (hinv : Inv rt settings bodies g₀ c)
    (hserial : settings.serializeFlushes = true) {writer : Writer} {now : Json}
    (hstep : c.transact rt gate bodies t' writer now (fun flags s => reply flags s writer) = some c') :
    Tracks t c' := by
  obtain ⟨work, tx, flags, hwork, hexec, rfl⟩ := transact_eq_some hstep
  have hrecords := records_concat (t := t) ⟨t', now, work⟩ (rfl :
    ({ c.setService t' (reply flags (c.services t') writer) with
      graph := tx.graph, log := c.log ++ [⟨t', now, work⟩] } : Enricher).log = c.log ++ [⟨t', now, work⟩])
  by_cases heq : t' = t
  · subst heq
    rw [if_pos rfl] at hrecords
    have hlength : flags.length = work.records.length := by
      rw [(execute_entityWrite hexec).2, List.length_map]
      rfl
    cases writer with
    | delivery d =>
      -- With batching no delivery writes by itself.
      simp only [Enricher.work] at hwork
      split at hwork
      · rename_i hpc _
        obtain ⟨w, hw, _⟩ : ∃ w ∈ (c.services t').singles, w.delivery = d ∧ w.result = none := by
          have hsound := (hinv.service t').sound d
          rwa [hpc] at hsound
        rw [h.singles] at hw
        cases hw
      · cases hwork
    | task i =>
      have hflushes := (hinv.service t').flushes
      have henabled : (c.services t').flushes.Enabled (.resume i (.committed flags)) := by
        intro hpc
        simp only [Enricher.work, hpc, Option.some.injEq] at hwork
        subst hwork
        rw [hlength, Work.records, List.length_map]
      have hordered := h.ordered.apply hflushes hserial henabled (by rintro j ⟨⟩)
      have hwritten : ((c.services t').flushes.resume i (.committed flags)).written.map PendingWrite.record =
          (c.services t').flushes.written.map PendingWrite.record ++ work.records := by
        simp only [Enricher.work] at hwork
        split at hwork
        · -- The batch commits.
          rename_i hpc
          cases hwork
          have hlength : flags.length = ((c.services t').flushes.batch i).length := by
            rw [hlength, Work.records, List.length_map]
          have hcommit : (c.services t').flushes.resume i (.committed flags) =
              (((c.services t').flushes.release i).commitTx
                (((c.services t').flushes.batch i).zip flags)).setPc i (.merging flags) := by
            simp only [Flushes.resume, hpc]
          rw [hcommit]
          change (Flushes.written (Flushes.commitTx _ _)).map _ = _
          rw [Flushes.written_commitTx, List.map_append, List.map_fst_zip (Nat.le_of_eq hlength.symm)]
          rfl
        · -- One of its records commits in its replay.
          rename_i item rest hpc
          cases hwork
          obtain ⟨matched, rfl⟩ := List.length_eq_one_iff.mp hlength
          have hcommit : (c.services t').flushes.resume i (.committed [matched]) =
              ((c.services t').flushes.commitTx [(item, matched)]).setPc i (.replayMerging item matched rest) := by
            simp only [Flushes.resume, hpc]
          rw [hcommit]
          change (Flushes.written (Flushes.commitTx _ _)).map _ = _
          rw [Flushes.written_commitTx, List.map_append]
          rfl
        · cases hwork
      refine ⟨?_, ?_, ?_⟩
      · change ((c.setService t' _).services t').flushes.Ordered
        rw [services_setService_self]
        exact hordered
      · change ((c.setService t' _).services t').singles = []
        rw [services_setService_self]
        exact h.singles
      · rw [hrecords, h.written]
        change _ = ((c.setService t' _).services t').flushes.written.map PendingWrite.record
        rw [services_setService_self]
        exact hwritten.symm
  · rw [if_neg heq, List.append_nil] at hrecords
    have hother : (c.setService t' (reply flags (c.services t') writer)).services t = c.services t :=
      services_setService_of_ne (Ne.symm heq) _ c
    refine ⟨?_, ?_, ?_⟩
    · change ((c.setService t' _).services t).flushes.Ordered
      rw [hother]
      exact h.ordered
    · change ((c.setService t' _).services t).singles = []
      rw [hother]
      exact h.singles
    · rw [hrecords, h.written]
      change _ = ((c.setService t' _).services t).flushes.written.map PendingWrite.record
      rw [hother]

theorem Tracks.step (h : Tracks t c) (hinv : Inv rt settings bodies g₀ c) (hbatch : settings.batchMode = true)
    (hserial : settings.serializeFlushes = true) (horderly : Orderly t c e)
    (hstep : Enricher.step rt gate settings bodies c e = some c') : Tracks t c' := by
  have hflushes := (hinv.service t).flushes
  cases e with
  | flush t' e =>
    obtain ⟨⟨hquiet, henabled⟩, hnext⟩ := Option.ite_none_right_eq_some.mp hstep
    cases hnext
    by_cases heq : t' = t
    · subst heq
      refine h.beside hflushes hserial ⟨.inr ⟨e, henabled, horderly.grantsInOrder hflushes, rfl⟩, ?_, id⟩
      exact Flushes.committed_quiet hquiet _
    · have hother := services_setService_of_ne (Ne.symm heq)
        { c.services t' with flushes := (c.services t').flushes.apply settings e } c
      exact ⟨hother.symm ▸ h.ordered, hother.symm ▸ h.singles, hother.symm ▸ h.written⟩
  | handler t' d =>
    simp only [Enricher.step] at hstep
    split at hstep
    · cases hstep
      exact h.beside hflushes hserial (Service.beside_handler hbatch d _)
    · cases hstep
  | shutdown =>
    cases hstep
    exact ⟨h.ordered, h.singles, h.written⟩
  | wake t' d =>
    cases hstep
    exact h.beside hflushes hserial (Service.beside_wake d _)
  | cancel t' d =>
    cases hstep
    exact h.beside hflushes hserial (Service.beside_cancel d _)
  | singleRaises t' d error =>
    cases hstep
    exact h.beside hflushes hserial (Service.beside_wrote d _ _)
  | merged t' d error =>
    cases hstep
    exact h.beside hflushes hserial (Service.beside_merged d error _)
  | takesEffect t' writer now =>
    have hstep : c.transact rt gate bodies t' writer now (fun _ s => s) = some c' := hstep
    obtain ⟨work, tx, flags, hwork, hexec, rfl⟩ := transact_eq_some hstep
    have hother : (c.setService t' (c.services t')).services t = c.services t :=
      services_setService_of_ne (Ne.symm horderly) _ c
    have hrecords := records_concat (t := t) ⟨t', now, work⟩ (rfl : ({ c.setService t' (c.services t') with
      graph := tx.graph, log := c.log ++ [⟨t', now, work⟩] } : Enricher).log = c.log ++ [⟨t', now, work⟩])
    rw [if_neg horderly, List.append_nil] at hrecords
    refine ⟨?_, ?_, ?_⟩
    · change ((c.setService t' _).services t).flushes.Ordered
      rw [hother]
      exact h.ordered
    · change ((c.setService t' _).services t).singles = []
      rw [hother]
      exact h.singles
    · rw [hrecords, h.written]
      change _ = ((c.setService t' _).services t).flushes.written.map PendingWrite.record
      rw [hother]
  | returns t' writer now => exact h.returns hinv hserial hstep

/-- The last record of an id is the newest of them, in a list in submission order. -/
theorem lastOf_newest {ws : List PendingWrite} (hsorted : (Flushes.futures ws).Pairwise (· < ·)) {key id : String}
    {record : Dict} (h : lastOf rt key (ws.map PendingWrite.record) id = some record) :
    ∃ w ∈ ws, w.record = record ∧ discogsId rt key w.record = some id ∧
      ∀ w' ∈ ws, discogsId rt key w'.record = some id → w'.future ≤ w.future := by
  rw [lastOf, ← List.map_reverse, List.find?_map, Option.map_eq_some_iff] at h
  obtain ⟨w, hfind, rfl⟩ := h
  obtain ⟨hid, newer, older, hsplit, hnewer⟩ := List.find?_eq_some_iff_append.mp hfind
  have hws : ws = older.reverse ++ w :: newer.reverse := by
    rw [← List.reverse_reverse ws, hsplit]
    simp
  have hpairwise := hsorted
  rw [hws, Flushes.futures, List.map_append, List.map_cons, List.pairwise_append] at hpairwise
  refine ⟨w, by simp [hws], rfl, of_decide_eq_true hid, fun w' hw' hid' => ?_⟩
  rw [hws, List.mem_append, List.mem_cons] at hw'
  rcases hw' with hold | rfl | hnew
  · exact Nat.le_of_lt (hpairwise.2.2 _ (List.mem_map_of_mem hold) _ List.mem_cons_self)
  · exact Nat.le_refl _
  · have hnot := hnewer w' (List.mem_reverse.mp hnew)
    simp [hid'] at hnot

/-- With serialized flushes, in batch mode, in every run in which the lock of the type is
granted in order and no transaction of it takes effect untold: the record of an
acknowledged delivery is committed, and the node of its id carries the newest committed
record of the id, which was not submitted before it. -/
theorem newest_wins (hinj : Function.Injective rt.hexdigest) (htruthful : ∀ t, TruthfulNodes rt t g₀)
    (hbatch : settings.batchMode = true) (hserial : settings.serializeFlushes = true) {es : List Event}
    (h : Runs.Run (Enricher.step rt gate settings bodies) (Orderly t) { graph := g₀ } es c)
    {d : Nat} {matched : Bool} (hpc : (c.services t).pc d = .returned (Service.acked matched)) :
    ∃ w ∈ (c.services t).flushes.written, w.span = d ∧ bodies t d = .ok (.obj w.record) ∧
      ∀ id, discogsId rt (t.spec rt).idKey w.record = some id →
        ∃ newest ∈ (c.services t).flushes.written, discogsId rt (t.spec rt).idKey newest.record = some id ∧
          w.future ≤ newest.future ∧
          (∀ w' ∈ (c.services t).flushes.written, discogsId rt (t.spec rt).idKey w'.record = some id →
            w'.future ≤ newest.future) ∧
          ∀ n, c.graph.node ⟨(t.spec rt).kind, id⟩ = some n → Carries rt (t.spec rt) newest.record n := by
  obtain ⟨hinv, htracks⟩ : Inv rt settings bodies g₀ c ∧ Tracks t c :=
    h.invariant (I := fun c => Inv rt settings bodies g₀ c ∧ Tracks t c) ⟨.init g₀, .init t g₀⟩
      fun hboth hok hstep => ⟨hboth.1.step hinj htruthful hstep, hboth.2.step hboth.1 hbatch hserial hok hstep⟩
  have hservice := hinv.service t
  have hsound : (c.services t).Sound (bodies t) d (.returned (Service.acked matched)) := hpc ▸ hservice.sound d
  obtain ⟨body, flag, hbody, hcommitted⟩ : ∃ body flag, bodies t d = .ok (.obj body) ∧
      (c.services t).Committed d body flag := by
    rcases hsound with ⟨_, _, _, houtcome⟩ | ⟨body, flag, hbody, _, hcommitted⟩
    · cases matched <;> exact absurd houtcome (by decide)
    · exact ⟨body, flag, hbody, hcommitted⟩
  rcases hcommitted with ⟨tx, htx, x, hx, hspan, hrecord, _⟩ | hsingle
  · have hw : x.1 ∈ (c.services t).flushes.written :=
      List.mem_map_of_mem (List.mem_flatten_of_mem htx hx)
    refine ⟨x.1, hw, hspan, hrecord ▸ hbody, fun id hid => ?_⟩
    have hmem : x.1.record ∈ (c.services t).flushes.written.map PendingWrite.record := List.mem_map_of_mem hw
    obtain ⟨record, _, hlast, _⟩ := exists_lastOf hmem hid
    obtain ⟨newest, hnewest, rfl, hid', hmax⟩ := lastOf_newest htracks.ordered.sorted hlast
    refine ⟨newest, hnewest, hid', hmax x.1 hw hid, hmax, fun n hn => ?_⟩
    exact ((hinv.reflects t).node id).2.1 newest.record n (htracks.written ▸ hlast) hn
  · -- No delivery writes on its own in batch mode.
    rw [htracks.singles] at hsingle
    cases hsingle

/-- Two records of the release, each in a flush of its own. -/
def twoRecords : EntityType → Nat → Except String Json
  | .releases, 0 => .ok (.obj (("id", .str "r") :: mediaLessRecord))
  | .releases, _ => .ok (.obj (("id", .str "r") :: mediaRecord))
  | _, _ => .error "JSONDecodeError"

/-- The second flush waits for the lock until the first one has committed. -/
def twoFlushes : List Event :=
  [.flush .releases (.setDriver true), .handler .releases 0, .handler .releases 1, .flush .releases (.start 0),
    .flush .releases (.start 1), .flush .releases (.acquire 0), .returns .releases (.task 0) (.str "first"),
    .flush .releases (.resume 0 .returned), .wake .releases 0, .merged .releases 0 none,
    .flush .releases (.acquire 1), .returns .releases (.task 1) (.str "second")]

theorem newest_wins_twoFlushes : ∃ c : Enricher,
    Runs.Run (Enricher.step plainRuntime true ⟨1, by decide, true, true⟩ twoRecords) (Orderly .releases)
        { graph := bareRelease } twoFlushes c ∧
      ∃ w ∈ (c.services .releases).flushes.written, w.span = 0 ∧
        ∃ newest ∈ (c.services .releases).flushes.written, w.future < newest.future ∧
          ∀ n, c.graph.node (releaseKey "1") = some n → Carries plainRuntime (releaseSpec plainRuntime) newest.record n := by
  obtain ⟨c, hrun, hpc, hwritten⟩ : ∃ c : Enricher,
      Runs.Run (Runs.guarded (Enricher.step plainRuntime true ⟨1, by decide, true, true⟩ twoRecords)
          (Orderly .releases)) (fun _ _ => True) { graph := bareRelease } twoFlushes c ∧
        (c.services .releases).pc 0 = .returned (Service.acked true) ∧
        (c.services .releases).flushes.written =
          [⟨("id", .str "r") :: mediaLessRecord, 0, 0⟩, ⟨("id", .str "r") :: mediaRecord, 1, 1⟩] := by
    refine Runs.exists_run ?_
    decide +kernel
  have hbare : ∀ k n, bareRelease.node k = some n → n "mb_hash" = .null := by
    intro k n hn
    simp only [bareRelease, Option.ite_none_right_eq_some, Option.some.injEq] at hn
    rw [← hn.2]
    rfl
  have hrun := Runs.run_of_guarded hrun
  obtain ⟨w, hw, hspan, _, hnewest⟩ :=
    newest_wins plainRuntime_injective (truthfulNodes_of_bare hbare) rfl rfl hrun hpc
  have hfirst : w = ⟨("id", .str "r") :: mediaLessRecord, 0, 0⟩ := by
    rw [hwritten] at hw
    rcases List.mem_pair.mp hw with rfl | rfl
    · rfl
    · cases hspan
  obtain ⟨newest, hmem, _, _, hmax, hcarries⟩ := hnewest "1" (by rw [hfirst]; decide +kernel)
  have hlater : 1 ≤ newest.future :=
    hmax ⟨("id", .str "r") :: mediaRecord, 1, 1⟩ (by rw [hwritten]; decide) (by decide +kernel)
  exact ⟨c, hrun, w, hw, hspan, newest, hmem, by rw [hfirst]; exact hlater, hcarries⟩

end Enricher

end Brainzgraphinator
