-- SUMMARY: The shared counters hold what the returned write calls and the acknowledged deliveries add up to.
import Brainzgraphinator.Base.Tallies
import Brainzgraphinator.Delivery.CountingService

/-!
# Exact counters

What a write call has counted is booked by the merge it goes on to: relations and
replays by the merge of the call, entities by the merge of the delivery. `Effect` says
what a step does to the books, and `Inv` that they balance.
-/

namespace Brainzgraphinator

open Tallies
open Service (acked)

namespace CountingService

variable {rt : Runtime} {gate : Bool} {t : EntityType} {settings : Settings} {bodies : Nat → Except String Json}
  {c c' : CountingService} {e : Event} {d i : Nat}

/-! ## Where a task goes on to -/

section Tasks

variable {s : Flushes}

theorem atMerge_setPc (i : Nat) (pc : FlushPc) (s : Flushes) : atMerge ((s.setPc i pc).pc i) = atMerge pc :=
  congrArg atMerge (Function.update_self _ _ _)

theorem atMerge_replay (i : Nat) (items : List PendingWrite) (s : Flushes) :
    atMerge ((s.replay i items).pc i) = false := by
  rw [Flushes.replay_eq]
  split
  · cases items with
    | nil => exact atMerge_setPc i _ s
    | cons item rest => exact atMerge_setPc i _ _
  · exact atMerge_setPc i _ _

theorem atMerge_commitFailed (i : Nat) (error : Raised) (s : Flushes) :
    atMerge ((s.commitFailed i error).pc i) = false := by
  cases error with
  | transient => exact atMerge_setPc i _ _
  | cancelled => exact atMerge_setPc i _ _
  | other name =>
    rw [Flushes.commitFailed]
    split
    · exact atMerge_setPc i _ _
    · exact atMerge_replay i _ s

theorem atMerge_enterCommit (i : Nat) (s : Flushes) : atMerge ((s.enterCommit i).pc i) = false := by
  rw [Flushes.enterCommit]
  split
  · exact atMerge_setPc i _ _
  · exact atMerge_commitFailed i _ _

theorem atMerge_start (settings : Settings) (i : Nat) (s : Flushes) :
    atMerge ((s.start settings i).pc i) = false := by
  rw [Flushes.start]
  split
  · exact atMerge_setPc i _ _
  · exact atMerge_enterCommit i s

theorem atMerge_replayRaised (i : Nat) (item : PendingWrite) (rest : List PendingWrite) (error : Raised)
    (s : Flushes) : atMerge ((s.replayRaised i item rest error).pc i) = false := by
  cases error with
  | cancelled => exact atMerge_setPc i _ s
  | transient => exact atMerge_replay i rest _
  | other name => exact atMerge_replay i rest _

/-- An await that raises takes no task to a merge. -/
theorem atMerge_resume_raised (i : Nat) (error : Raised) (s : Flushes) (hpc : atMerge (s.pc i) = false) :
    atMerge ((s.resume i (.raised error)).pc i) = false := by
  unfold Flushes.resume
  split
  · exact atMerge_commitFailed i _ _
  · rename_i h
    cases h
  · exact atMerge_commitFailed i _ _
  · rename_i h
    cases h
  · exact atMerge_setPc i _ s
  · rename_i h
    cases h
  · exact atMerge_replayRaised i _ _ _ _
  · rename_i h
    cases h
  · exact atMerge_replayRaised i _ _ _ s
  · exact hpc

/-- A merge that is over takes its task on to the next record, or to the end. -/
theorem atMerge_resume_returned (i : Nat) (s : Flushes) (hpc : atMerge (s.pc i) = true) :
    atMerge ((s.resume i .returned).pc i) = false := by
  cases hp : s.pc i with
  | merging flags =>
    simp only [Flushes.resume, hp]
    exact atMerge_setPc i _ _
  | replayMerging item matched rest =>
    simp only [Flushes.resume, hp]
    exact atMerge_replay i rest _
  | _ => rw [hp] at hpc; cases hpc

theorem pc_resume_of_ne (hinv : Flushes.Inv settings s) (awaited : Awaited) {j : Nat} (hj : j ≠ i) :
    (s.resume i awaited).pc j = s.pc j :=
  (Flushes.taskStep_resume (hinv.reported i) (hinv.remaining i).subset).pc j hj

/-- What touches no counter takes no task to a merge, and none from one. -/
theorem atMerge_plain (hinv : Flushes.Inv settings s) {e : Flushes.Event} (hplain : plain s e = true)
    (he : s.Enabled e) (hcancels : Event.cancels (.flush e) = false) (j : Nat) :
    atMerge ((s.apply settings e).pc j) = atMerge (s.pc j) := by
  cases e with
  | submit record span => cases hplain
  | fire timer => rfl
  | cancelSubmitter future => cases hcancels
  | setDriver driver => rfl
  | start i =>
    by_cases hj : j = i
    · rw [hj, he.2.1]
      exact atMerge_start settings i s
    · exact congrArg atMerge (Flushes.taskStep_start.pc j hj)
  | cancelUnstarted i => cases hcancels
  | acquire i =>
    by_cases hj : j = i
    · rw [hj, he.1]
      exact atMerge_enterCommit i s
    · exact congrArg atMerge (Flushes.taskStep_enterCommit.pc j hj)
  | resume i awaited =>
    cases awaited with
    | returned => cases hplain
    | committed flags => cases hplain
    | raised error =>
      by_cases hj : j = i
      · have hpc : atMerge (s.pc i) = false := by
          simp only [plain, Bool.or_eq_true, Bool.not_eq_true', decide_eq_true_eq] at hplain
          refine hplain.resolve_right ?_
          rintro rfl
          cases hcancels
        rw [hj, hpc]
        exact atMerge_resume_raised i error s hpc
      · exact congrArg atMerge (pc_resume_of_ne hinv _ hj)

end Tasks

/-! ## The handler underneath -/

theorem batchProjections_length {records : List Dict} {graph : Graph} {now : Json} {tx : Tx} {flags : List Bool}
    (h : batchProjections rt gate now t records ⟨graph, {}⟩ = .ok (tx, flags)) : flags.length = records.length := by
  rw [(batchProjections_counted h).1, List.length_map]

/-- Counting aside, a step is one of the handler. -/
theorem service_step (h : step rt gate t settings bodies c e = some c') :
    c'.service = c.service ∨ Service.Step settings bodies c.service c'.service := by
  cases e with
  | flush e =>
    obtain ⟨⟨hplain, he⟩, hnext⟩ := Option.ite_none_right_eq_some.mp h
    cases hnext
    refine .inr (.flush he ?_)
    rintro record span rfl
    cases hplain
  | commitReturns i earlier now graph =>
    simp only [step] at h
    split at h
    · split at h
      · cases h
      · rename_i tx flags hbatch
        cases h
        refine .inr (.flush (e := .resume i (.committed _)) (fun _ => ?_) nofun)
        rw [commitOutcome_concat, batchProjections_length hbatch, List.length_map]
    · cases h
  | replayReturns i earlier now graph =>
    simp only [step] at h
    split at h
    · rename_i hpc
      split at h
      · cases h
      · cases h
        refine .inr (.flush (e := .resume i (.committed _)) (fun hcommitting => ?_) nofun)
        rw [hpc] at hcommitting
        cases hcommitting
    · cases h
  | flushMerges i =>
    obtain ⟨_, hnext⟩ := Option.ite_none_right_eq_some.mp h
    cases hnext
    refine .inr (.flush (e := .resume i _) ?_ nofun)
    split <;> trivial
  | handler d =>
    simp only [step] at h
    split at h
    · rename_i hpc
      cases h
      exact .inr (.handler hpc)
    · cases h
  | shutdown =>
    cases h
    exact .inr (.shutdown c.service)
  | wake d =>
    simp only [step] at h
    split at h
    · split at h
      · cases h
        exact .inr (.wake d c.service)
      · cases h
        exact .inr (.wake d c.service)
    · cases h
  | singleReturns d earlier now graph =>
    simp only [step] at h
    split at h
    · split at h
      · cases h
      · cases h
        exact .inr (.wrote d _ c.service)
    · cases h
  | singleRaises d error =>
    cases h
    exact .inr (.wrote d _ c.service)
  | merges d =>
    simp only [step] at h
    split at h
    · cases h
      exact .inr (.merged d _ c.service)
    · cases h
  | cancel d =>
    cases h
    exact .inr (.cancel d c.service)

/-- A run of the counting handler is one of the handler. -/
theorem reachable_service {ok : CountingService → Event → Prop} {es : List Event}
    (h : Runs.Run (step rt gate t settings bodies) ok {} es c) : Service.Reachable settings bodies c.service := by
  have hstart : Service.Reachable settings bodies ({} : CountingService).service := .refl
  refine h.invariant (I := fun c => Service.Reachable settings bodies c.service) hstart
    fun {c c' e} hreach _ hstep => ?_
  rcases service_step hstep with heq | hservice
  · rw [heq]
    exact hreach
  · exact hreach.tail hservice

/-! ## What a step does to the books -/

/-- Neither waiting for its merge nor acknowledged. -/
def Away (pc : DeliveryPc) : Prop := ∀ matched, pc ≠ .merging matched ∧ pc ≠ .returned (acked matched)

/-- No task is taken to a merge or from one. -/
def SameMerges (s s' : Flushes) : Prop := ∀ i, atMerge (s'.pc i) = atMerge (s.pc i)

inductive Effect (c : CountingService) : CountingService → Prop
  /-- No counter is touched; a delivery that moves has a dictionary without counts. -/
  | quiet {service : Service} {localStats : Nat → Counters} : SameMerges c.service.flushes service.flushes →
      (∀ d, service.pc d = c.service.pc d ∧ localStats d = c.localStats d ∨
        Away (c.service.pc d) ∧ Away (service.pc d) ∧
          (localStats d = .ofDelivery ∨ localStats d = c.localStats d ∧ ∀ future, service.pc d ≠ .awaiting future)) →
      Effect c { c with service := service, localStats := localStats }
  /-- A write call of a task returns. -/
  | returns {flushes : Flushes} {i : Nat} {stats : Counters} {s : Stats} : atMerge (c.service.flushes.pc i) = false →
      (∀ j, atMerge (flushes.pc j) = true ↔ atMerge (c.service.flushes.pc j) = true ∨ j = i) → stats.Known →
      (∀ key, stats.value key = s.get key) →
      Effect c { c with
        service := { c.service with flushes := flushes }
        flushStats := Function.update c.flushStats i stats
        returned := c.returned ++ [s] }
  | flushMerges {flushes : Flushes} {i : Nat} {stats : Counters} : atMerge (c.service.flushes.pc i) = true →
      (∀ j, atMerge (flushes.pc j) = true ↔ atMerge (c.service.flushes.pc j) = true ∧ j ≠ i) →
      stats.keys = enrichmentKeys →
      (∀ key, stats.value key =
        c.enrichmentStats.value key + if isEntityKey key then 0 else (c.flushStats i).value key) →
      Effect c { c with service := { c.service with flushes := flushes }, enrichmentStats := stats }
  /-- A delivery learns what came of its record. -/
  | counts {service : Service} {d : Nat} {matched : Bool} {stats : Counters} {returned : List Stats} :
      Away (c.service.pc d) → SameMerges c.service.flushes service.flushes →
      service.pc = Function.update c.service.pc d (.merging matched) → stats.Known →
      (∀ m, stats.value (entityKey m) = if m = matched then 1 else 0) →
      (∀ key, isEntityKey key = false →
        (returned.map (·.get key)).sum = (c.returned.map (·.get key)).sum + stats.value key) →
      Effect c { c with
        service := service
        localStats := Function.update c.localStats d stats
        returned := returned }
  | merges {service : Service} {d : Nat} {matched : Bool} {stats : Counters} : c.service.pc d = .merging matched →
      SameMerges c.service.flushes service.flushes →
      service.pc = Function.update c.service.pc d (.returned (acked matched)) → stats.keys = enrichmentKeys →
      (∀ key, stats.value key = c.enrichmentStats.value key + (c.localStats d).value key) →
      Effect c { c with service := service, enrichmentStats := stats }

/-- The books balance: what is booked and what waits to be booked is what was counted. -/
structure Inv (c : CountingService) : Prop where
  keys : c.enrichmentStats.keys = enrichmentKeys
  known : ∀ i, (c.flushStats i).Known
  knownLocal : ∀ d, (c.localStats d).Known
  waiting : ∀ d future, c.service.pc d = .awaiting future → c.localStats d = .ofDelivery
  merging : ∀ d matched, c.service.pc d = .merging matched → ∀ m,
    (c.localStats d).value (entityKey m) = if m = matched then 1 else 0
  counts : ∀ key, isEntityKey key = false → ∃ flush delivery,
    Tally (fun i => atMerge (c.service.flushes.pc i) = true) (fun i => (c.flushStats i).value key) flush ∧
      Tally (fun d => ∃ matched, c.service.pc d = .merging matched) (fun d => (c.localStats d).value key) delivery ∧
      c.enrichmentStats.value key + flush + delivery = (c.returned.map (·.get key)).sum
  entities : ∀ matched, Tally (fun d => c.service.pc d = .returned (acked matched)) (fun _ => 1)
    (c.enrichmentStats.value (entityKey matched))

theorem isEntityKey_entityKey (matched : Bool) : isEntityKey (entityKey matched) = true := by
  cases matched <;> decide

theorem Inv.init : Inv {} where
  keys := by decide
  known i := nofun
  knownLocal d := nofun
  waiting := nofun
  merging := nofun
  counts key hkey := by
    refine ⟨0, 0, tally_zero fun i => by rintro ⟨⟩, tally_zero fun d => by rintro ⟨_, ⟨⟩⟩, ?_⟩
    rw [Counters.ofEnrichment, Counters.value_fromKeys]
    rfl
  entities matched := by
    rw [Counters.ofEnrichment, Counters.value_fromKeys]
    exact tally_zero fun d => by rintro ⟨⟩

section Effects

variable {service : Service} {flushes : Flushes} {i d : Nat} {matched : Bool} {stats : Counters} {s : Stats}

/-- No counter is touched. -/
theorem Inv.effect_quiet {localStats : Nat → Counters} (hinv : Inv c)
    (hmerges : SameMerges c.service.flushes service.flushes)
    (hmoves : ∀ d, service.pc d = c.service.pc d ∧ localStats d = c.localStats d ∨
      Away (c.service.pc d) ∧ Away (service.pc d) ∧
        (localStats d = .ofDelivery ∨ localStats d = c.localStats d ∧ ∀ future, service.pc d ≠ .awaiting future)) :
    Inv { c with service := service, localStats := localStats } := by
  -- A delivery that moves was not at its merge and does not come there.
  have hmerging : ∀ d matched, service.pc d = .merging matched ↔ c.service.pc d = .merging matched := by
    intro d matched
    rcases hmoves d with ⟨hpc, _⟩ | ⟨haway, haway', _⟩
    · rw [hpc]
    · exact iff_of_false (haway' matched).1 (haway matched).1
  have hsame : ∀ d matched, c.service.pc d = .merging matched → localStats d = c.localStats d := by
    intro d matched hpc
    rcases hmoves d with ⟨_, hstats⟩ | ⟨haway, _⟩
    · exact hstats
    · exact absurd hpc (haway matched).1
  refine ⟨hinv.keys, hinv.known, fun d => ?_, fun d future hpc => ?_, fun d matched hpc m => ?_,
    fun key hkey => ?_, fun matched => ?_⟩
  · change (localStats d).Known
    rcases hmoves d with ⟨_, hstats⟩ | ⟨_, _, hstats | ⟨hstats, _⟩⟩
    · exact hstats ▸ hinv.knownLocal d
    · exact hstats ▸ Counters.known_ofDelivery
    · exact hstats ▸ hinv.knownLocal d
  · rcases hmoves d with ⟨hpc', hstats⟩ | ⟨_, _, hstats | ⟨_, hnot⟩⟩
    · exact hstats.trans (hinv.waiting d future (hpc'.symm.trans hpc))
    · exact hstats
    · exact absurd hpc (hnot future)
  · have hold := (hmerging d matched).mp hpc
    change (localStats d).value (entityKey m) = _
    rw [hsame d matched hold]
    exact hinv.merging d matched hold m
  · obtain ⟨flush, delivery, hflush, hdelivery, hsum⟩ := hinv.counts key hkey
    refine ⟨flush, delivery, hflush.congr (fun i => by rw [hmerges i]) fun _ _ => rfl,
      hdelivery.congr (fun d => exists_congr (hmerging d)) ?_, hsum⟩
    rintro d ⟨matched, hpc⟩
    exact congrArg (Counters.value · key) (hsame d matched hpc)
  · refine (hinv.entities matched).congr (fun d => ?_) fun _ _ => rfl
    rcases hmoves d with ⟨hpc, _⟩ | ⟨haway, haway', _⟩
    · rw [hpc]
    · exact iff_of_false (haway' matched).2 (haway matched).2

/-- A write call of a task returns, and waits for its merge. -/
theorem Inv.effect_returns (hinv : Inv c) (hfree : atMerge (c.service.flushes.pc i) = false)
    (hmerges : ∀ j, atMerge (flushes.pc j) = true ↔ atMerge (c.service.flushes.pc j) = true ∨ j = i)
    (hknown : stats.Known) (hvalue : ∀ key, stats.value key = s.get key) :
    Inv { c with
      service := { c.service with flushes := flushes }
      flushStats := Function.update c.flushStats i stats
      returned := c.returned ++ [s] } := by
  refine ⟨hinv.keys, fun j => ?_, hinv.knownLocal, hinv.waiting, hinv.merging, fun key hkey => ?_, hinv.entities⟩
  · by_cases hj : j = i
    · simp only [hj, Function.update_self]
      exact hknown
    · simp only [Function.update_of_ne hj]
      exact hinv.known j
  · obtain ⟨flush, delivery, hflush, hdelivery, hsum⟩ := hinv.counts key hkey
    have hother : ∀ j, atMerge (c.service.flushes.pc j) = true →
        (Function.update c.flushStats i stats j).value key = (c.flushStats j).value key := by
      intro j hj
      rw [Function.update_of_ne]
      rintro rfl
      rw [hfree] at hj
      cases hj
    have henter := hflush.enter (i := i) (by rw [hfree]; exact Bool.false_ne_true) hmerges hother
    rw [Function.update_self, hvalue] at henter
    refine ⟨_, delivery, henter, hdelivery, ?_⟩
    rw [List.map_append, List.sum_append, ← hsum, List.map_singleton, List.sum_singleton]
    dsimp only
    omega

theorem Inv.effect_flushMerges (hinv : Inv c) (hat : atMerge (c.service.flushes.pc i) = true)
    (hmerges : ∀ j, atMerge (flushes.pc j) = true ↔ atMerge (c.service.flushes.pc j) = true ∧ j ≠ i)
    (hkeys : stats.keys = enrichmentKeys)
    (hvalue : ∀ key, stats.value key =
      c.enrichmentStats.value key + if isEntityKey key then 0 else (c.flushStats i).value key) :
    Inv { c with service := { c.service with flushes := flushes }, enrichmentStats := stats } := by
  refine ⟨hkeys, hinv.known, hinv.knownLocal, hinv.waiting, hinv.merging, fun key hkey => ?_, fun matched => ?_⟩
  · obtain ⟨flush, delivery, hflush, hdelivery, hsum⟩ := hinv.counts key hkey
    obtain ⟨flush', hleave, rfl⟩ := hflush.leave hat hmerges fun _ _ => rfl
    refine ⟨flush', delivery, hleave, hdelivery, ?_⟩
    rw [← hsum, hvalue, if_neg (by rw [hkey]; exact Bool.false_ne_true)]
    omega
  · rw [hvalue, if_pos (isEntityKey_entityKey matched), Int.add_zero]
    exact hinv.entities matched

/-- A delivery counts its record, and waits for its merge. -/
theorem Inv.effect_counts {returned : List Stats} (hinv : Inv c) (haway : Away (c.service.pc d))
    (hmerges : SameMerges c.service.flushes service.flushes)
    (hpc : service.pc = Function.update c.service.pc d (.merging matched)) (hknown : stats.Known)
    (hentity : ∀ m, stats.value (entityKey m) = if m = matched then 1 else 0)
    (hreturned : ∀ key, isEntityKey key = false →
      (returned.map (·.get key)).sum = (c.returned.map (·.get key)).sum + stats.value key) :
    Inv { c with
      service := service
      localStats := Function.update c.localStats d stats
      returned := returned } := by
  have hother : ∀ d', d' ≠ d → service.pc d' = c.service.pc d' := by
    intro d' hd
    rw [hpc, Function.update_of_ne hd]
  have hself : service.pc d = .merging matched := by rw [hpc, Function.update_self]
  refine ⟨hinv.keys, hinv.known, fun d' => ?_, fun d' future hwait => ?_, fun d' m' hmerging m => ?_,
    fun key hkey => ?_, fun m => ?_⟩
  · by_cases hd : d' = d
    · simp only [hd, Function.update_self]
      exact hknown
    · simp only [Function.update_of_ne hd]
      exact hinv.knownLocal d'
  · by_cases hd : d' = d
    · rw [hd, hself] at hwait
      cases hwait
    · simp only [Function.update_of_ne hd]
      exact hinv.waiting d' future ((hother d' hd).symm.trans hwait)
  · by_cases hd : d' = d
    · rw [hd, hself] at hmerging
      cases hmerging
      simp only [hd, Function.update_self]
      exact hentity m
    · simp only [Function.update_of_ne hd]
      exact hinv.merging d' m' ((hother d' hd).symm.trans hmerging) m
  · obtain ⟨flush, delivery, hflush, hdelivery, hsum⟩ := hinv.counts key hkey
    have henter := hdelivery.enter (i := d) (q := fun d' => ∃ m, service.pc d' = .merging m)
      (g := fun d' => (Function.update c.localStats d stats d').value key)
      (by rintro ⟨m, hm⟩; exact (haway m).1 hm) (fun d' => ?_) fun d' hd' => ?_
    · rw [Function.update_self] at henter
      refine ⟨flush, _, hflush.congr (fun i => by rw [hmerges i]) fun _ _ => rfl, henter, ?_⟩
      rw [hreturned key hkey, ← hsum]
      dsimp only
      omega
    · by_cases hd : d' = d
      · rw [hd]
        exact iff_of_true ⟨matched, hself⟩ (.inr rfl)
      · rw [hother d' hd]
        exact ⟨.inl, fun h => h.resolve_right hd⟩
    · rw [Function.update_of_ne]
      rintro rfl
      obtain ⟨m, hm⟩ := hd'
      exact (haway m).1 hm
  · refine (hinv.entities m).congr (fun d' => ?_) fun _ _ => rfl
    by_cases hd : d' = d
    · rw [hd, hself]
      exact iff_of_false (by rintro ⟨⟩) (haway m).2
    · rw [hother d' hd]

/-- A delivery merges its dictionary, and is acknowledged. -/
theorem Inv.effect_merges (hinv : Inv c) (hat : c.service.pc d = .merging matched)
    (hmerges : SameMerges c.service.flushes service.flushes)
    (hpc : service.pc = Function.update c.service.pc d (.returned (acked matched)))
    (hkeys : stats.keys = enrichmentKeys)
    (hvalue : ∀ key, stats.value key = c.enrichmentStats.value key + (c.localStats d).value key) :
    Inv { c with service := service, enrichmentStats := stats } := by
  have hother : ∀ d', d' ≠ d → service.pc d' = c.service.pc d' := by
    intro d' hd
    rw [hpc, Function.update_of_ne hd]
  have hself : service.pc d = .returned (acked matched) := by rw [hpc, Function.update_self]
  refine ⟨hkeys, hinv.known, hinv.knownLocal, fun d' future hwait => ?_, fun d' m' hmerging => ?_,
    fun key hkey => ?_, fun m => ?_⟩
  · by_cases hd : d' = d
    · rw [hd, hself] at hwait
      cases hwait
    · exact hinv.waiting d' future ((hother d' hd).symm.trans hwait)
  · by_cases hd : d' = d
    · rw [hd, hself] at hmerging
      cases hmerging
    · exact hinv.merging d' m' ((hother d' hd).symm.trans hmerging)
  · obtain ⟨flush, delivery, hflush, hdelivery, hsum⟩ := hinv.counts key hkey
    have hleaves : ∀ d', (∃ m, service.pc d' = .merging m) ↔ (∃ m, c.service.pc d' = .merging m) ∧ d' ≠ d := by
      intro d'
      by_cases hd : d' = d
      · rw [hd, hself]
        exact iff_of_false (by rintro ⟨_, ⟨⟩⟩) fun h => h.2 rfl
      · rw [hother d' hd]
        exact (and_iff_left hd).symm
    obtain ⟨delivery', hleave, rfl⟩ := hdelivery.leave ⟨matched, hat⟩ hleaves fun _ _ => rfl
    refine ⟨flush, delivery', hflush.congr (fun i => by rw [hmerges i]) fun _ _ => rfl, hleave, ?_⟩
    rw [← hsum, hvalue]
    omega
  · rw [hvalue, hinv.merging d matched hat m]
    have hne : c.service.pc d ≠ .returned (acked m) := by
      rw [hat]
      rintro ⟨⟩
    split
    · rename_i hm
      refine (hinv.entities m).enter (i := d) (g := fun _ => 1) hne (fun d' => ?_) fun _ _ => rfl
      by_cases hd : d' = d
      · rw [hd, hself, hm]
        exact iff_of_true rfl (.inr rfl)
      · rw [hother d' hd]
        exact ⟨.inl, fun h => h.resolve_right hd⟩
    · rename_i hm
      rw [Int.add_zero]
      refine (hinv.entities m).congr (fun d' => ?_) fun _ _ => rfl
      by_cases hd : d' = d
      · rw [hd, hself]
        refine iff_of_false (fun heq => hm ?_) hne
        revert heq
        cases m <;> cases matched <;> decide
      · rw [hother d' hd]

end Effects

theorem Inv.effect (hinv : Inv c) (h : Effect c c') : Inv c' := by
  cases h with
  | quiet hmerges hmoves => exact hinv.effect_quiet hmerges hmoves
  | returns hfree hmerges hknown hvalue => exact hinv.effect_returns hfree hmerges hknown hvalue
  | flushMerges hat hmerges hkeys hvalue => exact hinv.effect_flushMerges hat hmerges hkeys hvalue
  | counts haway hmerges hpc hknown hentity hreturned =>
    exact hinv.effect_counts haway hmerges hpc hknown hentity hreturned
  | merges hat hmerges hpc hkeys hvalue => exact hinv.effect_merges hat hmerges hpc hkeys hvalue

/-! ## Every step has its effect -/

theorem away_received : Away .received := fun _ => ⟨by rintro ⟨⟩, by rintro ⟨⟩⟩

theorem away_awaiting (future : Nat) : Away (.awaiting future) := fun _ => ⟨by rintro ⟨⟩, by rintro ⟨⟩⟩

theorem away_writing : Away .writing := fun _ => ⟨by rintro ⟨⟩, by rintro ⟨⟩⟩

theorem away_failure (error : Raised) : Away (Service.failure error) := by
  intro matched
  cases error <;> constructor <;> rintro ⟨⟩

theorem away_returned {result : DeliveryResult} (h : ∀ matched, result ≠ acked matched) : Away (.returned result) :=
  fun matched => ⟨nofun, fun heq => h matched (DeliveryPc.returned.inj heq)⟩

/-- The handler takes its delivery to no merge, and acknowledges no record. -/
theorem handler_moves (settings : Settings) (bodies : Nat → Except String Json) (d : Nat) (s : Service) :
    (s.handler settings bodies d).flushes.pc = s.flushes.pc ∧
      ∃ pc, Away pc ∧ (s.handler settings bodies d).pc = Function.update s.pc d pc := by
  have hcontrol : Away (.returned ⟨.ack, "control", none⟩) :=
    away_returned fun matched => by cases matched <;> decide
  have hinvalid : Away (.returned Service.validationError) :=
    away_returned fun matched => by cases matched <;> decide
  have hdefer : Away (.returned ⟨.defer, "shutdown", none⟩) :=
    away_returned fun matched => by cases matched <;> decide
  unfold Service.handler Service.operation
  split
  · exact ⟨rfl, _, hdefer, rfl⟩
  · split
    · exact ⟨rfl, _, away_failure _, rfl⟩
    · split
      · exact ⟨rfl, _, hcontrol, rfl⟩
      · dsimp only
        split
        · exact ⟨rfl, _, hinvalid, rfl⟩
        · split
          · exact ⟨rfl, _, hinvalid, rfl⟩
          · split
            · exact ⟨rfl, _, away_failure _, rfl⟩
            · split
              · exact ⟨rfl, .awaiting _, away_awaiting _, rfl⟩
              · exact ⟨rfl, .writing, away_writing, rfl⟩
    · exact ⟨rfl, _, away_failure _, rfl⟩

section Tasks

variable {s : Flushes} {awaited : Awaited}

theorem merges_enter (hinv : Flushes.Inv settings s) (hself : atMerge ((s.resume i awaited).pc i) = true) (j : Nat) :
    atMerge ((s.resume i awaited).pc j) = true ↔ atMerge (s.pc j) = true ∨ j = i := by
  by_cases hj : j = i
  · rw [hj]
    exact iff_of_true hself (.inr rfl)
  · rw [pc_resume_of_ne hinv awaited hj]
    exact ⟨.inl, fun h => h.resolve_right hj⟩

theorem merges_leave (hinv : Flushes.Inv settings s) (hself : atMerge ((s.resume i awaited).pc i) = false) (j : Nat) :
    atMerge ((s.resume i awaited).pc j) = true ↔ atMerge (s.pc j) = true ∧ j ≠ i := by
  by_cases hj : j = i
  · rw [hj, hself]
    exact iff_of_false nofun fun h => h.2 rfl
  · rw [pc_resume_of_ne hinv awaited hj]
    exact (and_iff_left hj).symm

end Tasks

theorem get_entityKey {s : Stats} {matched : Bool} (h : Counted matched.toNat (!matched).toNat {} s) (m : Bool) :
    s.get (entityKey m) = if m = matched then 1 else 0 := by
  have henriched : s.get (entityKey true) = s.entitiesEnriched := rfl
  have hskipped : s.get (entityKey false) = s.entitiesSkippedNoDiscogsMatch := rfl
  cases m with
  | true =>
    rw [henriched, h.enriched]
    cases matched <;> rfl
  | false =>
    rw [hskipped, h.skipped]
    cases matched <;> rfl

/-- No dictionary is touched. -/
theorem Effect.untouched {service : Service} (hmerges : SameMerges c.service.flushes service.flushes)
    (hmoves : ∀ d, service.pc d = c.service.pc d ∨
      Away (c.service.pc d) ∧ Away (service.pc d) ∧ ∀ future, service.pc d ≠ .awaiting future) :
    Effect c { c with service := service } := by
  have h : Effect c { c with service := service, localStats := c.localStats } := by
    refine .quiet hmerges fun d => ?_
    rcases hmoves d with hsame | ⟨haway, haway', hnot⟩
    · exact .inl ⟨hsame, rfl⟩
    · exact .inr ⟨haway, haway', .inr ⟨rfl, hnot⟩⟩
  exact h

/-- A delivery that is over in another way than by its merge. -/
theorem Effect.gives_up {service : Service} {pc : DeliveryPc} (haway : Away (c.service.pc d)) (haway' : Away pc)
    (hnot : ∀ future, pc ≠ .awaiting future) (hflushes : service.flushes = c.service.flushes)
    (hpc : service.pc = Function.update c.service.pc d pc) : Effect c { c with service := service } := by
  refine .untouched (fun i => by rw [hflushes]) fun d' => ?_
  by_cases hd : d' = d
  · rw [hpc, hd, Function.update_self]
    exact .inr ⟨haway, haway', hnot⟩
  · rw [hpc, Function.update_of_ne hd]
    exact .inl rfl

theorem failure_ne_awaiting (error : Raised) (future : Nat) : Service.failure error ≠ .awaiting future := by
  cases error <;> nofun

section Events

variable {i d : Nat} {now : Json} {graph : Graph}

theorem effect_commitReturns {earlier : List (Attempt (List Bool))} (hservice : Service.Inv settings bodies c.service)
    (h : step rt gate t settings bodies c (.commitReturns i earlier now graph) = some c') : Effect c c' := by
  simp only [step] at h
  split at h
  · rename_i hpc
    split at h
    · cases h
    · rename_i tx flags hbatch
      cases h
      refine .returns (by rw [hpc]; rfl) (merges_enter hservice.flushes ?_) ?_ (value_commitOutcome _ _ _)
      · simp only [Flushes.resume, hpc]
        exact atMerge_setPc i _ _
      · rw [commitOutcome_concat]
        exact Counters.known_ofEnrichment.count _
  · cases h

theorem effect_replayReturns {earlier : List (Attempt Unit)} (hservice : Service.Inv settings bodies c.service)
    (h : step rt gate t settings bodies c (.replayReturns i earlier now graph) = some c') : Effect c c' := by
  simp only [step] at h
  split at h
  · rename_i item rest hpc
    split at h
    · cases h
    · rename_i tx hrun
      cases h
      refine .returns (by rw [hpc]; rfl) (merges_enter hservice.flushes ?_)
        (known_retried Counters.known_ofEnrichment _) (value_retried _ _ _)
      simp only [Flushes.resume, hpc]
      exact atMerge_setPc i _ _
  · cases h

theorem effect_flushMerges (hservice : Service.Inv settings bodies c.service) (hinv : Inv c)
    (h : step rt gate t settings bodies c (.flushMerges i) = some c') : Effect c c' := by
  obtain ⟨hat, hnext⟩ := Option.ite_none_right_eq_some.mp h
  obtain ⟨stats, hmerge, hkeys, hvalue⟩ := mergeGlobalStats_spec false (hinv.known i) hinv.keys
  rw [hmerge] at hnext
  cases hnext
  refine .flushMerges hat (merges_leave hservice.flushes (atMerge_resume_returned i _ hat)) hkeys fun key => ?_
  rw [hvalue]
  cases isEntityKey key <;> rfl

theorem effect_handler (h : step rt gate t settings bodies c (.handler d) = some c') : Effect c c' := by
  simp only [step] at h
  split at h
  · rename_i hpc
    cases h
    obtain ⟨hflushes, pc, haway, hmoves⟩ := handler_moves settings bodies d c.service
    refine .quiet (fun i => by rw [hflushes]) fun d' => ?_
    by_cases hd : d' = d
    · rw [hmoves, hd, Function.update_self, Function.update_self, hpc]
      exact .inr ⟨away_received, haway, .inl rfl⟩
    · rw [hmoves, Function.update_of_ne hd, Function.update_of_ne hd]
      exact .inl ⟨rfl, rfl⟩
  · cases h

/-- A delivery sees what became of its future. -/
theorem effect_wake (hinv : Inv c) (h : step rt gate t settings bodies c (.wake d) = some c') : Effect c c' := by
  simp only [step] at h
  split at h
  · rename_i future hpc
    have haway : Away (c.service.pc d) := by
      rw [hpc]
      exact away_awaiting _
    cases hfuture : c.service.flushes.batcher.futures future with
    | pending =>
      rw [hfuture] at h
      cases h
      have hwake : c.service.wake d = c.service := by simp only [Service.wake, hpc, hfuture]
      rw [hwake]
      exact .untouched (fun i => rfl) fun d => .inl rfl
    | result matched =>
      rw [hfuture] at h
      cases h
      have hwake : c.service.wake d = c.service.setPc d (.merging matched) := by
        simp only [Service.wake, hpc, hfuture]
      have hzero : ∀ key, (c.localStats d).value key = 0 := by
        intro key
        rw [hinv.waiting d future hpc, Counters.ofDelivery, Counters.value_fromKeys]
      have hmem : entityKey matched ∈ enrichmentKeys := by cases matched <;> decide
      rw [hwake]
      refine .counts haway (fun i => rfl) rfl ((hinv.knownLocal d).add hmem) (fun m => ?_) fun key hkey => ?_
      · rw [Counters.value_add, hzero, Int.zero_add]
        cases m <;> cases matched <;> decide
      · have hne : key ≠ entityKey matched := by
          rintro rfl
          rw [isEntityKey_entityKey] at hkey
          cases hkey
        rw [Counters.value_add, hzero, if_neg hne, Int.add_zero, Int.add_zero]
    | exception error =>
      rw [hfuture] at h
      cases h
      have hwake : c.service.wake d = c.service.setPc d (Service.failure error) := by
        simp only [Service.wake, hpc, hfuture]
      rw [hwake]
      exact .gives_up haway (away_failure error) (failure_ne_awaiting error) rfl rfl
    | cancelled =>
      rw [hfuture] at h
      cases h
      have hwake : c.service.wake d = c.service.setPc d (Service.failure .cancelled) := by
        simp only [Service.wake, hpc, hfuture]
      rw [hwake]
      exact .gives_up haway (away_failure _) (failure_ne_awaiting _) rfl rfl
  · cases h

theorem effect_singleReturns {earlier : List (Attempt Unit)} (hinv : Inv c)
    (h : step rt gate t settings bodies c (.singleReturns d earlier now graph) = some c') : Effect c c' := by
  simp only [step] at h
  split at h
  · rename_i body hpc hbody
    split at h
    · cases h
    · rename_i tx hrun
      have hentity : ∀ m, tx.stats.get (entityKey m) = if m = matchesNode rt t graph body then 1 else 0 :=
        get_entityKey (processors_counted hrun)
      have hmatched : decide (0 < tx.stats.get "entities_enriched") = matchesNode rt t graph body := by
        rw [show "entities_enriched" = entityKey true from rfl, hentity]
        cases matchesNode rt t graph body <;> rfl
      rw [value_retried, hmatched] at h
      cases h
      have hwrote : c.service.wrote d (.ok (matchesNode rt t graph body)) =
          c.service.endSingle d (.ok (matchesNode rt t graph body)) := by
        simp only [Service.wrote, hpc]
      rw [hwrote]
      refine .counts ?_ (fun i => rfl) rfl (known_retried (hinv.knownLocal d) _) (fun m => ?_) fun key _ => ?_
      · rw [hpc]
        exact away_writing
      · rw [value_retried]
        exact hentity m
      · rw [value_retried, List.map_append, List.sum_append, List.map_singleton, List.sum_singleton]
  · cases h

theorem effect_singleRaises {error : Raised}
    (h : step rt gate t settings bodies c (.singleRaises d error) = some c') : Effect c c' := by
  cases h
  by_cases hpc : c.service.pc d = .writing
  · have hwrote : c.service.wrote d (.error error) = c.service.endSingle d (.error error) := by
      simp only [Service.wrote, hpc]
    rw [hwrote]
    refine .gives_up ?_ (away_failure error) (failure_ne_awaiting error) rfl rfl
    rw [hpc]
    exact away_writing
  · have hwrote : c.service.wrote d (.error error) = c.service := by
      unfold Service.wrote
      split
      · rename_i hwriting
        exact absurd hwriting hpc
      · rfl
    rw [hwrote]
    exact .untouched (fun i => rfl) fun d => .inl rfl

theorem effect_merges (hinv : Inv c) (h : step rt gate t settings bodies c (.merges d) = some c') : Effect c c' := by
  simp only [step] at h
  split at h
  · rename_i matched hpc
    obtain ⟨stats, hmerge, hkeys, hvalue⟩ := mergeGlobalStats_spec true (hinv.knownLocal d) hinv.keys
    rw [hmerge] at h
    cases h
    have hmerged : c.service.merged d none = c.service.setPc d (.returned (acked matched)) := by
      simp only [Service.merged, hpc]
    rw [if_pos rfl, hmerged]
    exact .merges hpc (fun i => rfl) rfl hkeys hvalue
  · cases h

end Events

theorem effect_of_step (hservice : Service.Inv settings bodies c.service) (hinv : Inv c)
    (h : step rt gate t settings bodies c e = some c') (hcancels : e.cancels = false) : Effect c c' := by
  cases e with
  | flush e =>
    obtain ⟨⟨hplain, he⟩, hnext⟩ := Option.ite_none_right_eq_some.mp h
    cases hnext
    exact .untouched (atMerge_plain hservice.flushes hplain he hcancels) fun d => .inl rfl
  | commitReturns i earlier now graph => exact effect_commitReturns hservice h
  | replayReturns i earlier now graph => exact effect_replayReturns hservice h
  | flushMerges i => exact effect_flushMerges hservice hinv h
  | handler d => exact effect_handler h
  | shutdown =>
    cases h
    exact .untouched (fun i => rfl) fun d => .inl rfl
  | wake d => exact effect_wake hinv h
  | singleReturns d earlier now graph => exact effect_singleReturns hinv h
  | singleRaises d error => exact effect_singleRaises h
  | merges d => exact effect_merges hinv h
  | cancel d => cases hcancels

/-! ## Every run balances -/

/-- Runs in which no task is cancelled. -/
def UncancelledRun (rt : Runtime) (gate : Bool) (t : EntityType) (settings : Settings)
    (bodies : Nat → Except String Json) (es : List Event) (c : CountingService) : Prop :=
  Runs.Run (step rt gate t settings bodies) (fun _ e => e.cancels = false) {} es c

theorem inv_of_run {es : List Event} (h : UncancelledRun rt gate t settings bodies es c) : Inv c := by
  have hboth : Service.Reachable settings bodies c.service ∧ Inv c := by
    induction h with
    | nil => exact ⟨.refl, .init⟩
    | snoc hrun hok hstep ih =>
      exact ⟨reachable_service (.snoc hrun hok hstep), ih.2.effect (effect_of_step ih.1.inv ih.2 hstep hok)⟩
  exact hboth.2

/-- Nothing waits at a merge. -/
def Booked (c : CountingService) : Prop :=
  (∀ i, atMerge (c.service.flushes.pc i) = false) ∧ ∀ d matched, c.service.pc d ≠ .merging matched

/-- In runs without a cancellation: a counter of relations or replays holds what the
last attempts of the write calls that returned have counted, less what calls still at
their merge have; with none of these it is exactly that. Each of the two entity counters
is the number of deliveries acknowledged with its outcome. -/
theorem counters_exact {es : List Event} (h : UncancelledRun rt gate t settings bodies es c) :
    (∀ key, isEntityKey key = false → ∃ flush delivery,
      Tally (fun i => atMerge (c.service.flushes.pc i) = true) (fun i => (c.flushStats i).value key) flush ∧
        Tally (fun d => ∃ matched, c.service.pc d = .merging matched) (fun d => (c.localStats d).value key) delivery ∧
        c.enrichmentStats.value key + flush + delivery = (c.returned.map (·.get key)).sum) ∧
    (c.Booked → ∀ key, isEntityKey key = false →
      c.enrichmentStats.value key = (c.returned.map (·.get key)).sum) ∧
    ∀ matched, c.enrichmentStats.value (entityKey matched) =
      ({d | c.service.pc d = .returned (acked matched)} : Set Nat).ncard := by
  have hinv := inv_of_run h
  refine ⟨hinv.counts, fun ⟨hflushes, hdeliveries⟩ key hkey => ?_, fun matched => (hinv.entities matched).ncard⟩
  obtain ⟨flush, delivery, hflush, hdelivery, hsum⟩ := hinv.counts key hkey
  have hno : flush = 0 := hflush.unique (tally_zero fun i hat => by rw [hflushes i] at hat; cases hat)
  have hnone : delivery = 0 := hdelivery.unique (tally_zero fun d ⟨matched, hpc⟩ => hdeliveries d matched hpc)
  rw [← hsum, hno, hnone, Int.add_zero, Int.add_zero]

def soloArtists : Graph where
  node k := if k = artistKey "1" ∨ k = artistKey "2" then some noProps else none
  rels := []
  closed := by simp

def artistBodies (d : Nat) : Except String Json :=
  .ok (.obj [("id", .str "a"), ("discogs_artist_id", .int (d + 1)), ("relations", .arr [.obj
    [("type", .str "member of band"), ("target_discogs_artist_id", .int 2)]])])

/-- A batch that fails and is replayed: the second record's transaction is retried, and the
third record has no node. -/
def replayedBatch : List Event :=
  [.flush (.setDriver true), .handler 0, .handler 1, .handler 2, .flush (.start 0),
    .flush (.resume 0 (.raised (.other "ClientError"))),
    .replayReturns 0 [] .null soloArtists, .flushMerges 0,
    .replayReturns 0 [⟨{ relationshipsCreated := 7, replaysSkippedUnchanged := 1 }, none⟩,
      ⟨{ entitiesEnriched := 1 }, some ()⟩] .null soloArtists, .flushMerges 0,
    .replayReturns 0 [] .null soloArtists, .flushMerges 0,
    .wake 0, .merges 0, .wake 1, .merges 1, .wake 2, .merges 2]

theorem counters_exact_replayedBatch : ∃ c,
    UncancelledRun plainRuntime true .artists ⟨3, by decide, true, false⟩ artistBodies replayedBatch c ∧
      c.enrichmentStats.value "relationships_created" = 2 ∧
      (∃ flush delivery, c.enrichmentStats.value "relationships_created" + flush + delivery =
        (c.returned.map (·.get "relationships_created")).sum) ∧
      ({d | c.service.pc d = .returned (acked true)} : Set Nat).ncard = 2 ∧
      ({d | c.service.pc d = .returned (acked false)} : Set Nat).ncard = 1 := by
  obtain ⟨c, hrun, hcreated, henriched, hskipped⟩ : ∃ c : CountingService,
      Runs.Run (Runs.guarded (step plainRuntime true .artists ⟨3, by decide, true, false⟩ artistBodies)
        fun _ e => e.cancels = false) (fun _ _ => True) {} replayedBatch c ∧
        c.enrichmentStats.value "relationships_created" = 2 ∧
        c.enrichmentStats.value (entityKey true) = 2 ∧ c.enrichmentStats.value (entityKey false) = 1 := by
    refine Runs.exists_run ?_
    decide +kernel
  have hexact := counters_exact (Runs.run_of_guarded hrun)
  obtain ⟨flush, delivery, _, _, hsum⟩ := hexact.1 "relationships_created" (by decide)
  refine ⟨c, Runs.run_of_guarded hrun, hcreated, ⟨flush, delivery, hsum⟩, ?_, ?_⟩
  · have hcount := hexact.2.2 true
    omega
  · have hcount := hexact.2.2 false
    omega

end CountingService

end Brainzgraphinator
