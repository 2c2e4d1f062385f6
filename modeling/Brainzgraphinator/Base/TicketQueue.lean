-- SUMMARY: A fair lock served in ticket order, whose holder may go on with more sections after it left the queue.
import Mathlib.Data.List.Basic
import Mathlib.Logic.Function.Basic
import Mathlib.Logic.Relation

/-!
# Ticket queues

Tickets `0, 1, 2, …` enter a fair lock in order. The ticket at the head of the
queue begins a section; when that section is over it leaves, or it stays *detached*:
out of the queue, with more sections to run. `log` lists the tickets of the sections
begun so far.

As long as no ticket enters beside a detached one, sections never overlap and begin
in ticket order (`Inv.active_unique`, `Inv.log`, `Inv.ended`).
-/

/-- Where a ticket is. -/
inductive TicketPhase where
  | idle
  | queued
  /-- In its first section, at the head of the queue. -/
  | holding
  /-- In a section, or between two, outside of the queue. -/
  | detached
  | done
  deriving DecidableEq

structure TicketQueue where
  phase : Nat → TicketPhase
  queue : List Nat
  log : List Nat

namespace TicketQueue

variable {t t' : TicketQueue} {i j : Nat}

def setPhase (i : Nat) (p : TicketPhase) (t : TicketQueue) : TicketQueue :=
  { t with phase := Function.update t.phase i p }

/-- No ticket that entered the queue is detached. -/
def Undetached (t : TicketQueue) : Prop := ∀ j, t.phase j ≠ .detached

/-- The ticket runs sections. -/
def Active (t : TicketQueue) (i : Nat) : Prop := t.phase i = .holding ∨ t.phase i = .detached

inductive Step : TicketQueue → TicketQueue → Prop
  | enqueue {t : TicketQueue} {i : Nat} : t.phase i = .idle → (∀ j < i, t.phase j ≠ .idle) →
      Step t { t.setPhase i .queued with queue := t.queue ++ [i] }
  | enter {t : TicketQueue} {i : Nat} : t.phase i = .queued → t.queue.head? = some i →
      t.Undetached → Step t { t.setPhase i .holding with log := t.log ++ [i] }
  /-- Leave the queue and begin another section. -/
  | detach {t : TicketQueue} {i : Nat} : t.phase i = .holding →
      Step t { t.setPhase i .detached with queue := t.queue.erase i, log := t.log ++ [i] }
  | next {t : TicketQueue} {i : Nat} : t.phase i = .detached → Step t { t with log := t.log ++ [i] }
  | leave {t : TicketQueue} {i : Nat} : t.phase i = .queued ∨ t.phase i = .holding →
      Step t { t.setPhase i .done with queue := t.queue.erase i }
  | finish {t : TicketQueue} {i : Nat} : t.phase i ≠ .queued → t.phase i ≠ .holding →
      Step t (t.setPhase i .done)

/-! ## The invariant -/

/-- The queue is sorted and has the queued tickets and the holder, which is its head.
A ticket that runs sections runs them alone, and whoever may still begin one is
not older than any section begun. -/
structure Inv (t : TicketQueue) : Prop where
  sorted : t.queue.Pairwise (· < ·)
  mem : ∀ i, i ∈ t.queue ↔ t.phase i = .queued ∨ t.phase i = .holding
  head : ∀ i, t.phase i = .holding → t.queue.head? = some i
  order : ∀ i j, i < j → t.phase i = .idle → t.phase j = .idle ∨ t.phase j = .done
  alone : ∀ i j, t.phase i = .detached → t.Active j → j = i
  begun : ∀ i, t.Active i → i ∈ t.log
  log : t.log.Pairwise (· ≤ ·)
  ahead : ∀ k ∈ t.log, ∀ j, t.phase j ≠ .done → k ≤ j

/-- Sections do not overlap. -/
theorem Inv.active_unique (hinv : t.Inv) (hi : t.Active i) (hj : t.Active j) : i = j := by
  rcases hi with hi | hi
  · rcases hj with hj | hj
    · exact Option.some.inj ((hinv.head i hi).symm.trans (hinv.head j hj))
    · exact hinv.alone j i hj (.inl hi)
  · exact (hinv.alone i j hi hj).symm

/-- Once a later ticket has begun a section, the earlier ones are over. -/
theorem Inv.ended (hinv : t.Inv) (hj : j ∈ t.log) (hlt : i < j) : t.phase i = .done := by
  by_contra hne
  exact absurd (hinv.ahead j hj i hne) (Nat.not_le_of_lt hlt)

theorem Inv.init : Inv { phase := fun _ => .idle, queue := [], log := [] } where
  sorted := List.Pairwise.nil
  mem i := by simp
  head i h := nomatch h
  order _ _ _ _ := .inl rfl
  alone _ _ h := nomatch h
  begun _ h := by simp [Active] at h
  log := List.Pairwise.nil
  ahead := nofun

/-! ### Every step -/

/-- The head of a queue stays when somebody else leaves. -/
theorem head?_erase {queue : List Nat} (h : queue.head? = some j) (hne : j ≠ i) :
    (queue.erase i).head? = some j := by
  cases queue with
  | nil => cases h
  | cons k rest =>
    obtain rfl := Option.some.inj h
    rw [List.erase_cons_tail (by simpa using hne)]
    rfl

theorem Inv.mem_erase (hinv : t.Inv) : j ∈ t.queue.erase i ↔ j ≠ i ∧ j ∈ t.queue :=
  List.Nodup.mem_erase_iff (hinv.sorted.imp Nat.ne_of_lt)

/-- A new section of a ticket that is not over. -/
theorem Inv.log_append (hinv : t.Inv) (hi : t.phase i ≠ .done) :
    (t.log ++ [i]).Pairwise (· ≤ ·) := by
  refine List.pairwise_append.mpr ⟨hinv.log, List.pairwise_singleton _ _, fun k hk j hj => ?_⟩
  rw [List.mem_singleton.mp hj]
  exact hinv.ahead k hk i hi

/-- A ticket past `idle` is not younger than an idle one. -/
theorem Inv.lt_idle (hinv : t.Inv) (hi : t.phase i ≠ .idle) (hdone : t.phase i ≠ .done)
    (hj : t.phase j = .idle) : i < j := by
  refine Nat.lt_of_not_le fun hle => ?_
  have hne : j ≠ i := by
    rintro rfl
    exact hi hj
  rcases hinv.order j i (Nat.lt_of_le_of_ne hle hne) hj with h | h
  · exact hi h
  · exact hdone h

theorem Inv.enqueue (hinv : t.Inv) (hidle : t.phase i = .idle) (hfirst : ∀ j < i, t.phase j ≠ .idle) :
    Inv { t.setPhase i .queued with queue := t.queue ++ [i] } := by
  have hsorted : (t.queue ++ [i]).Pairwise (· < ·) := by
    refine List.pairwise_append.mpr ⟨hinv.sorted, List.pairwise_singleton _ _, fun j hj k hk => ?_⟩
    rw [List.mem_singleton.mp hk]
    have hphase := (hinv.mem j).mp hj
    exact hinv.lt_idle (by grind) (by grind) hidle
  have hhead : ∀ j, t.phase j = .holding → (t.queue ++ [i]).head? = some j := by
    intro j hj
    rw [List.head?_append, hinv.head j hj]
    rfl
  obtain ⟨_, hmem, _, horder, halone, hbegun, hlog, hahead⟩ := hinv
  simp only [Active] at halone hbegun
  constructor <;> simp only [setPhase, Active, Function.update_apply] <;> grind

theorem Inv.enter (hinv : t.Inv) (hi : t.phase i = .queued) (hhead : t.queue.head? = some i)
    (halone : t.Undetached) : Inv { t.setPhase i .holding with log := t.log ++ [i] } := by
  have hlog := hinv.log_append (i := i) (by simp [hi])
  -- The head of the queue is older than everybody in it and outside of it.
  have hfirst : ∀ j, t.phase j ≠ .done → i ≤ j := by
    intro j hj
    cases hphase : t.phase j with
    | idle => exact Nat.le_of_lt (hinv.lt_idle (by simp [hi]) (by simp [hi]) hphase)
    | queued =>
      have hmem := (hinv.mem j).mpr (.inl hphase)
      obtain ⟨rest, hrest⟩ := List.head?_eq_some_iff.mp hhead
      have hsorted := hinv.sorted
      rw [hrest, List.pairwise_cons] at hsorted
      rw [hrest] at hmem
      rcases List.mem_cons.mp hmem with rfl | hmem
      · exact Nat.le_refl _
      · exact Nat.le_of_lt (hsorted.1 j hmem)
    | holding => exact Nat.le_of_eq (Option.some.inj (hhead.symm.trans (hinv.head j hphase)))
    | detached => exact absurd hphase (halone j)
    | done => exact absurd hphase hj
  obtain ⟨hsorted, hmem, hholder, horder, _, hbegun, _, hahead⟩ := hinv
  simp only [Active] at hbegun
  simp only [Undetached] at halone
  constructor <;> simp only [setPhase, Active, Function.update_apply] <;> grind

theorem Inv.detach (hinv : t.Inv) (hi : t.phase i = .holding) :
    Inv { t.setPhase i .detached with queue := t.queue.erase i, log := t.log ++ [i] } := by
  have hlog := hinv.log_append (i := i) (by simp [hi])
  have hsorted : (t.queue.erase i).Pairwise (· < ·) := hinv.sorted.sublist List.erase_sublist
  have herase : ∀ j, j ∈ t.queue.erase i ↔ j ≠ i ∧ j ∈ t.queue := fun _ => hinv.mem_erase
  have hunique : ∀ j, t.Active j → j = i := fun j hj => hinv.active_unique hj (.inl hi)
  obtain ⟨_, hmem, _, horder, _, hbegun, _, hahead⟩ := hinv
  simp only [Active] at hbegun hunique
  constructor <;> simp only [setPhase, Active, Function.update_apply] <;> grind

theorem Inv.next (hinv : t.Inv) (hi : t.phase i = .detached) :
    Inv { t with log := t.log ++ [i] } := by
  have hlog := hinv.log_append (i := i) (by simp [hi])
  have hbegun := hinv.begun i (.inr hi)
  refine { hinv with log := hlog, begun := fun j hj => ?_, ahead := fun k hk => ?_ }
  · exact List.mem_append_left _ (hinv.begun j hj)
  · rcases List.mem_append.mp hk with hk | hk
    · exact hinv.ahead k hk
    · rw [List.mem_singleton.mp hk]
      exact hinv.ahead i hbegun

theorem Inv.leave (hinv : t.Inv) :
    Inv { t.setPhase i .done with queue := t.queue.erase i } := by
  have hsorted : (t.queue.erase i).Pairwise (· < ·) := hinv.sorted.sublist List.erase_sublist
  have herase : ∀ j, j ∈ t.queue.erase i ↔ j ≠ i ∧ j ∈ t.queue := fun _ => hinv.mem_erase
  have hhead : ∀ j, j ≠ i → t.phase j = .holding → (t.queue.erase i).head? = some j :=
    fun j hne hj => head?_erase (hinv.head j hj) hne
  obtain ⟨_, hmem, _, horder, halone, hbegun, hlog, hahead⟩ := hinv
  simp only [Active] at halone hbegun
  constructor <;> simp only [setPhase, Active, Function.update_apply] <;> grind

theorem Inv.step (hinv : t.Inv) (h : Step t t') : t'.Inv := by
  cases h with
  | enqueue hidle hfirst => exact hinv.enqueue hidle hfirst
  | enter hi hhead halone => exact hinv.enter hi hhead halone
  | detach hi => exact hinv.detach hi
  | next hi => exact hinv.next hi
  | leave _ => exact hinv.leave
  | finish hqueued hholding =>
    rename_i i
    -- Outside of the queue there is nothing to erase.
    have hnot : i ∉ t.queue := by
      rw [hinv.mem]
      simp [hqueued, hholding]
    have h := hinv.leave (i := i)
    rwa [List.erase_of_not_mem hnot] at h

theorem Inv.steps (hinv : t.Inv) (h : Relation.ReflTransGen Step t t') : t'.Inv := by
  induction h with
  | refl => exact hinv
  | tail _ hstep ih => exact ih.step hstep

end TicketQueue
