-- SUMMARY: How long a record lingers in the write batcher, and what a batch that is cut has waited for.
import Mathlib.Algebra.Order.Group.Nat
import Mathlib.Algebra.Order.Monoid.Unbundled.Pow
import Mathlib.Data.List.Chain
import Brainzgraphinator.Delivery.Batcher

/-!
# Lingering

`Timed` is the batcher with a clock. A timer handle is due `linger` after it was armed, and
the loop runs it when it is due: no time passes beyond the deadline of an armed handle. Every
arrival arms the timer anew, so a record may linger for longer than `linger`, but each further
arrival only takes it one linger further, and the batch is cut before there are too many.
-/

namespace Brainzgraphinator

variable {T : Type*} [AddCommMonoid T] [PartialOrder T]

/-- The second moment comes after the first one, by no more than the linger. -/
def Within (linger a b : T) : Prop := a ≤ b ∧ b ≤ a + linger

theorem le_add_nsmul_of_isChain [IsOrderedAddMonoid T] {linger : T} {moments : List T}
    (h : moments.IsChain (Within linger)) {i j : Nat} (hij : i ≤ j) (hj : j < moments.length) :
    moments[i] ≤ moments[j] ∧ moments[j] ≤ moments[i] + (j - i) • linger := by
  induction j, hij using Nat.le_induction with
  | base => simp
  | succ j hij ih =>
    obtain ⟨hmono, hle⟩ := ih (Nat.lt_of_succ_lt hj)
    obtain ⟨hlater, hsoon⟩ := List.isChain_iff_getElem.mp h j hj
    refine ⟨hmono.trans hlater, hsoon.trans ?_⟩
    calc moments[j] + linger
        ≤ moments[i] + (j - i) • linger + linger := by gcongr
      _ = moments[i] + (j + 1 - i) • linger := by rw [Nat.succ_sub hij, succ_nsmul, add_assoc]

/-! ## The batcher with a clock -/

structure Timed (T : Type*) where
  batcher : Batcher
  now : T
  /-- When a timer handle is due. -/
  due : Nat → T
  /-- When a future was created. -/
  arrived : Nat → T

namespace Timed

variable (settings : Settings) (linger : T)

/-- A callback has led to this batcher; the handles it armed are due in `linger`. -/
def arm (b : Batcher) (s : Timed T) : Timed T :=
  { s with batcher := b, due := fun t => if s.batcher.nextTimer ≤ t then s.now + linger else s.due t }

def submit (record : Dict) (span : Nat) (s : Timed T) : Timed T :=
  { s.arm linger (s.batcher.submit settings record span) with
    arrived := Function.update s.arrived s.batcher.submitted.length s.now }

def fire (t : Nat) (s : Timed T) : Timed T := s.arm linger (s.batcher.fire settings t)

inductive Step : Timed T → Timed T → Prop
  | submit (record : Dict) (span : Nat) (s : Timed T) : Step s (s.submit settings linger record span)
  | fire {s : Timed T} {t : Nat} : t ∈ s.batcher.armed → s.due t ≤ s.now → Step s (s.fire settings linger t)
  | settle (future : Nat) (value : FutureState) (s : Timed T) :
      Step s { s with batcher := s.batcher.settle future value }
  /-- Time passes, but no armed handle is overdue. -/
  | advance {s : Timed T} {now : T} : s.now ≤ now → (∀ t ∈ s.batcher.armed, now ≤ s.due t) →
      Step s { s with now := now }

/-- The states of a batcher that starts empty, at any time. -/
def Reachable (s : Timed T) : Prop :=
  ∃ start : Timed T, start.batcher = {} ∧ Relation.ReflTransGen (Step settings linger) start s

end Timed

/-! ## What a callback leaves pending -/

namespace Batcher

variable {settings : Settings} {b : Batcher}

/-- A flush of at most a full batch leaves nothing, and creates one write at most. -/
theorem flushNow_writes (h : b.pending.length ≤ settings.batchSize) :
    (b.flushNow settings).pending = [] ∧ (b.flushNow settings).armed = b.cancelTimer.armed ∧
      ((b.flushNow settings).writes = b.writes ∨
        ∃ live, live.Sublist b.pending ∧ (b.flushNow settings).writes = b.writes ++ [live]) := by
  obtain ⟨_, _, _, hwrites, _⟩ := cancelTimer_fields b
  rw [flushNow_eq h]
  refine ⟨rfl, rfl, ?_⟩
  simp only [createWrite]
  split
  · exact .inl hwrites
  · exact .inr ⟨_, List.filter_sublist, by rw [hwrites]⟩

/-- A submission fills the batch, or it is the last of those that wait for a timer armed anew. -/
theorem Inv.submit_cases (hinv : Inv settings b) (record : Dict) (span : Nat) :
    (b.pending.length + 1 = settings.batchSize ∧ (b.submit settings record span).pending = [] ∧
        (b.submit settings record span).armed = []) ∨
      (b.submit settings record span).pending = b.pending ++ [⟨record, span, b.submitted.length⟩] ∧
        (b.submit settings record span).armed = [b.nextTimer] ∧
        (b.submit settings record span).writes = b.writes := by
  have hsize := hinv.size
  have hlength : (b.pending ++ [(⟨record, span, b.submitted.length⟩ : PendingWrite)]).length =
      b.pending.length + 1 := List.length_append
  unfold Batcher.submit
  dsimp only
  split
  · rename_i hfull
    rw [hlength] at hfull
    refine .inl ⟨Nat.le_antisymm hsize hfull, ?_⟩
    obtain ⟨hpending, harmed, _⟩ := flushNow_writes (b :=
      { b with
        pending := b.pending ++ [⟨record, span, b.submitted.length⟩]
        submitted := b.submitted ++ [⟨record, span, b.submitted.length⟩] }) (Nat.le_trans (Nat.le_of_eq hlength) hsize)
    exact ⟨hpending, harmed.trans (hinv.armed_cancelTimer rfl rfl)⟩
  · refine .inr ?_
    have harmed := hinv.armed
    split at harmed
    · rw [if_pos harmed.1]
      exact ⟨rfl, by rw [callLater, harmed.2], rfl⟩
    · obtain ⟨t, htimer, hlist⟩ := harmed
      rw [if_neg (by rw [htimer]; rintro ⟨⟩)]
      simp only [cancelTimer, htimer, callLater, hlist, List.erase_cons_head, and_self]

theorem Inv.fire_cases (hinv : Inv settings b) {t : Nat} (ht : t ∈ b.armed) :
    (b.fire settings t).pending = [] ∧ (b.fire settings t).armed = [] ∧
      ((b.fire settings t).writes = b.writes ∨
        ∃ live, live.Sublist b.pending ∧ (b.fire settings t).writes = b.writes ++ [live]) := by
  have hflush : (b.fire settings t).pending = [] ∧ _ ∧ ((b.fire settings t).writes = b.writes ∨
      ∃ live, live.Sublist b.pending ∧ (b.fire settings t).writes = b.writes ++ [live]) :=
    flushNow_writes (b := { b with armed := b.armed.erase t }) (Nat.le_of_lt hinv.size)
  obtain ⟨hpending, _, hwrites⟩ := hflush
  have harmed := (hinv.fire ht).armed
  rw [if_pos hpending] at harmed
  exact ⟨hpending, harmed.2, hwrites⟩

end Batcher

/-! ## The deadline -/

namespace Timed

variable {settings : Settings} {linger : T} {s s' : Timed T}

/-- The moments at which the pending records arrived, and the present one. -/
def moments (s : Timed T) : List T := s.batcher.pending.map (fun w => s.arrived w.future) ++ [s.now]

/-- The pending records arrived within the linger of each other, and the last one has waited
no longer; the timer is due a linger after it. -/
structure Inv (settings : Settings) (linger : T) (s : Timed T) : Prop where
  batcher : Batcher.Inv settings s.batcher
  chain : s.moments.IsChain (Within linger)
  due : ∀ t ∈ s.batcher.armed, ∀ w ∈ s.batcher.pending.getLast?, s.due t = s.arrived w.future + linger

theorem inv_of_pending_eq_nil (hbatcher : Batcher.Inv settings s.batcher) (h : s.batcher.pending = []) :
    Inv settings linger s := by
  refine ⟨hbatcher, ?_, ?_⟩
  · rw [moments, h]
    exact List.isChain_singleton _
  · rw [h]
    rintro t _ w ⟨⟩

theorem Inv.submit [IsOrderedAddMonoid T] (hinv : Inv settings linger s) (hlinger : 0 ≤ linger) (record : Dict)
    (span : Nat) : Inv settings linger (s.submit settings linger record span) := by
  have hbatcher : Batcher.Inv settings (s.submit settings linger record span).batcher :=
    hinv.batcher.submit record span
  rcases hinv.batcher.submit_cases record span with ⟨_, hpending, _⟩ | ⟨hpending, harmed, _⟩
  · exact inv_of_pending_eq_nil hbatcher hpending
  · have hself : (s.submit settings linger record span).arrived s.batcher.submitted.length = s.now :=
      Function.update_self _ _ _
    have hold : ∀ w ∈ s.batcher.pending, (s.submit settings linger record span).arrived w.future = s.arrived w.future := by
      intro w hw
      refine Function.update_of_ne (fun heq => ?_) _ _
      obtain ⟨taken, hsubmitted, _⟩ := hinv.batcher.taken
      have hmem : w.future ∈ s.batcher.submitted.map PendingWrite.future :=
        List.mem_map_of_mem (hsubmitted ▸ List.mem_append_right taken hw)
      rw [hinv.batcher.futures, heq] at hmem
      exact absurd (List.mem_range.mp hmem) (Nat.lt_irrefl _)
    have hmoments : (s.submit settings linger record span).moments = s.moments ++ [s.now] := by
      change (s.batcher.submit settings record span).pending.map _ ++ [s.now] = _
      rw [hpending, List.map_append, List.map_singleton, hself, List.map_congr_left hold]
      rfl
    refine ⟨hbatcher, ?_, fun t ht w hw => ?_⟩
    · rw [hmoments]
      refine List.isChain_append.mpr ⟨hinv.chain, List.isChain_singleton _, fun a ha b hb => ?_⟩
      rw [moments, List.getLast?_concat] at ha
      cases ha
      cases hb
      exact ⟨le_rfl, le_add_of_nonneg_right hlinger⟩
    · change t ∈ (s.batcher.submit settings record span).armed at ht
      change w ∈ (s.batcher.submit settings record span).pending.getLast? at hw
      rw [harmed, List.mem_singleton] at ht
      rw [hpending, List.getLast?_concat] at hw
      cases hw
      rw [hself, ht]
      exact if_pos le_rfl

theorem Inv.advance (hinv : Inv settings linger s) {now : T} (hnow : s.now ≤ now)
    (hdue : ∀ t ∈ s.batcher.armed, now ≤ s.due t) : Inv settings linger { s with now := now } := by
  refine ⟨hinv.batcher, ?_, hinv.due⟩
  obtain ⟨harrivals, _, hlast⟩ := List.isChain_append.mp hinv.chain
  refine List.isChain_append.mpr ⟨harrivals, List.isChain_singleton _, fun a ha b hb => ?_⟩
  cases hb
  obtain ⟨hbefore, _⟩ := hlast a ha s.now rfl
  rw [List.getLast?_map] at ha
  obtain ⟨w, hw, rfl⟩ := Option.map_eq_some_iff.mp ha
  refine ⟨hbefore.trans hnow, ?_⟩
  have harmed := hinv.batcher.armed
  rw [if_neg (by rintro hnil; rw [hnil] at hw; cases hw)] at harmed
  obtain ⟨t, _, htimer⟩ := harmed
  have ht : t ∈ s.batcher.armed := htimer ▸ List.mem_singleton_self t
  exact (hdue t ht).trans_eq (hinv.due t ht w hw)

theorem Inv.step [IsOrderedAddMonoid T] (hinv : Inv settings linger s) (hlinger : 0 ≤ linger)
    (h : Step settings linger s s') : Inv settings linger s' := by
  cases h with
  | submit record span => exact hinv.submit hlinger record span
  | fire ht _ => exact inv_of_pending_eq_nil (hinv.batcher.fire ht) (hinv.batcher.fire_cases ht).1
  | settle future value =>
    have hbatcher := hinv.batcher.settle future value
    rw [Batcher.settle_eq] at hbatcher ⊢
    exact ⟨hbatcher, hinv.chain, hinv.due⟩
  | advance hnow hdue => exact hinv.advance hnow hdue

theorem Reachable.inv [IsOrderedAddMonoid T] (h : Reachable settings linger s) (hlinger : 0 ≤ linger) :
    Inv settings linger s := by
  obtain ⟨start, hstart, hrun⟩ := h
  induction hrun with
  | refl => exact inv_of_pending_eq_nil (hstart ▸ .init) (hstart ▸ rfl)
  | tail _ hstep ih => exact ih.step hlinger hstep

/-- When the timer runs, the last of the pending records has waited a linger, and so have those
before it. -/
theorem Inv.lingered [IsOrderedAddMonoid T] (hinv : Inv settings linger s) {t : Nat} (ht : t ∈ s.batcher.armed)
    (hdue : s.due t ≤ s.now) : ∀ w ∈ s.batcher.pending, s.arrived w.future + linger ≤ s.now := by
  intro w hw
  obtain ⟨k, hk, rfl⟩ := List.mem_iff_getElem.mp hw
  have hlast : s.batcher.pending.length - 1 < s.batcher.pending.length := by omega
  obtain ⟨hmono, _⟩ := le_add_nsmul_of_isChain (List.isChain_append.mp hinv.chain).1
    (Nat.le_sub_one_of_lt hk) (by rwa [List.length_map])
  rw [List.getElem_map, List.getElem_map] at hmono
  have hdeadline := hinv.due t ht s.batcher.pending[s.batcher.pending.length - 1]
    (by rw [List.getLast?_eq_getElem?, List.getElem?_eq_getElem hlast]; rfl)
  calc s.arrived s.batcher.pending[k].future + linger
      ≤ s.arrived s.batcher.pending[s.batcher.pending.length - 1].future + linger := by gcongr
    _ = s.due t := hdeadline.symm
    _ ≤ s.now := hdue

/-- Every record that is pending has waited at most one linger for itself and one for each
record that came after it, and so less than a full batch of lingers. A batch is cut as soon as
it is full; otherwise all of its records have waited a linger by then, and nothing came since. -/
theorem linger_bounds [IsOrderedAddMonoid T] (hlinger : 0 ≤ linger) (hs : Reachable settings linger s) :
    (∀ k (h : k < s.batcher.pending.length),
      s.now ≤ s.arrived s.batcher.pending[k].future + (s.batcher.pending.length - k) • linger ∧
        s.now ≤ s.arrived s.batcher.pending[k].future + (settings.batchSize - 1) • linger) ∧
    ∀ s' batch, Step settings linger s s' → s'.batcher.writes = s.batcher.writes ++ [batch] →
      s.batcher.pending.length + 1 = settings.batchSize ∨
        batch.Sublist s.batcher.pending ∧ ∀ w ∈ s.batcher.pending, s.arrived w.future + linger ≤ s.now := by
  have hinv := hs.inv hlinger
  have hlength : s.moments.length = s.batcher.pending.length + 1 := by
    rw [moments, List.length_append, List.length_map, List.length_singleton]
  have hpresent : s.batcher.pending.length < s.moments.length := hlength ▸ Nat.lt_succ_self _
  have hlast : s.moments[s.batcher.pending.length] = s.now := by
    simp [moments]
  have hmoment : ∀ k (h : k < s.batcher.pending.length) (h' : k < s.moments.length),
      s.moments[k] = s.arrived s.batcher.pending[k].future := by
    intro k h _
    simp [moments, h]
  constructor
  · intro k h
    obtain ⟨_, hbound⟩ := le_add_nsmul_of_isChain hinv.chain (Nat.le_of_lt h) hpresent
    rw [hlast, hmoment k h] at hbound
    refine ⟨hbound, hbound.trans ?_⟩
    have hfewer : s.batcher.pending.length - k ≤ settings.batchSize - 1 := by
      have hsize := hinv.batcher.size
      omega
    gcongr
  · intro s' batch hstep hwrites
    have hsame : s'.batcher.writes ≠ s.batcher.writes := by
      rw [hwrites]
      exact fun h => List.cons_ne_nil batch [] (List.append_right_eq_self.mp h)
    cases hstep with
    | submit record span =>
      rcases hinv.batcher.submit_cases record span with ⟨hfull, _⟩ | ⟨_, _, hkept⟩
      · exact .inl hfull
      · exact absurd hkept hsame
    | fire ht hdue =>
      refine .inr ⟨?_, hinv.lingered ht hdue⟩
      obtain ⟨_, _, hkept | ⟨live, hlive, happend⟩⟩ := hinv.batcher.fire_cases ht
      · exact absurd hkept hsame
      · obtain ⟨_, hbatch⟩ := List.append_inj' (hwrites.symm.trans happend) rfl
        cases hbatch
        exact hlive
    | settle future value => exact absurd (by rw [Batcher.settle_eq]) hsame
    | advance _ _ => exact absurd rfl hsame

/-- Batches of three: the second record comes when the first one has waited a linger, and both
wait for another one. -/
theorem linger_bounds_rearmed : ∃ s : Timed Nat, Reachable ⟨3, by decide, true, false⟩ 5 s ∧
    s.batcher.pending = [⟨[], 0, 0⟩, ⟨[], 1, 1⟩] ∧ s.arrived 0 = 0 ∧ s.now = 10 ∧ s.now ≤ s.arrived 0 + (3 - 1) * 5 ∧
      ∀ s' batch, Step ⟨3, by decide, true, false⟩ 5 s s' → s'.batcher.writes = s.batcher.writes ++ [batch] →
        s.batcher.pending.length + 1 = 3 ∨
          batch.Sublist s.batcher.pending ∧ ∀ w ∈ s.batcher.pending, s.arrived w.future + 5 ≤ s.now := by
  have hstart : Relation.ReflTransGen (Step ⟨3, by decide, true, false⟩ 5)
      (⟨{}, 0, fun _ => 0, fun _ => 0⟩ : Timed Nat) _ := .refl
  have hfirst := (hstart.tail (.submit [] 0 _)).tail (.advance (by decide : 0 ≤ 5) (by decide))
  have hsecond := (hfirst.tail (.submit [] 1 _)).tail (.advance (by decide : 5 ≤ 10) (by decide))
  have hs : Reachable ⟨3, by decide, true, false⟩ 5 _ := ⟨_, rfl, hsecond⟩
  obtain ⟨hbounds, hcuts⟩ := linger_bounds (Nat.zero_le 5) hs
  exact ⟨_, hs, by decide, by decide, rfl, (hbounds 0 (by decide)).2, hcuts⟩

end Timed

end Brainzgraphinator
