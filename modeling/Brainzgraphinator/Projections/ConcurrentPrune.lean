-- SUMMARY: A media write that detaches a medium beside transactions that attach edges to it: the prune detaches none of theirs.
import Brainzgraphinator.Base.LockedStore
import Brainzgraphinator.Projections.MediaStatements

/-!
# A prune beside attaching transactions

One media write detaches its releases from the medium `m`, while any number of other
transactions attach edges to it. Under the database's rules a transaction changes the
relationships of a node only while it holds the node's lock, holds it to its end,
reads committed data and its own writes, and fails to delete a node that still has a
relationship.

What the write does to the medium is broken up at its lock, its stale delete, the
lock of the prune, the orphan check and the delete; between any two of them the
others may go on. An attaching transaction may lock, create the medium where there is
none, attach, commit and abort in any order the rules allow. One that comes to a
medium that is gone creates it or aborts.
-/

namespace Brainzgraphinator

namespace ConcurrentPrune

/-! ## The parties -/

/-- A relationship that was there before, or the `n`-th one that transaction `i` attached. -/
inductive RelId where
  | existing (n : Nat)
  | attached (i n : Nat)
  deriving DecidableEq

structure Relationship where
  id : RelId
  edge : Edge

/-- The relationships at the medium, if it is there. -/
abbrev Medium := Option (List Relationship)

inductive Agent where
  | mediaWrite
  | attacher (i : Nat)
  deriving DecidableEq

/-- Where the media write is with the medium. -/
inductive WritePc where
  /-- `LOCK_MEDIA_MEDIUMS_CYPHER`, or the stale delete itself if it comes first. -/
  | locking
  | sweeping
  /-- `SET m._prune_lock = true`. -/
  | pruneLocking
  | checking
  | deleting
  | ended (deleted : Bool)
  | committed (deleted : Bool)
  | aborted
  deriving DecidableEq

/-- The write holds the medium's lock. -/
def WritePc.locked : WritePc → Bool
  | .sweeping | .pruneLocking | .checking | .deleting | .ended _ => true
  | .locking | .committed _ | .aborted => false

inductive Outcome where
  | running | committed | aborted
  deriving DecidableEq

structure Attacher where
  outcome : Outcome := .running
  attached : List Relationship := []

structure Race where
  store : LockedStore.Store NodeKey Agent Medium
  write : WritePc := .locking
  /-- What the stale delete took away. -/
  swept : List Relationship := []
  attachers : Nat → Attacher := fun _ => {}

/-- The edges at the medium, and nobody at work. -/
def Race.initial (edges : Option (List Edge)) : Race where
  store := .initial fun _ => edges.map fun es => es.mapIdx fun n e => ⟨.existing n, e⟩

/-! ## Steps -/

/-- `DELETE stale`. -/
def sweep (found : List RelId) (rels : List Relationship) : List Relationship :=
  rels.filter fun r => r.id ∉ found

/-- The orphan check of `PRUNE_ORPHAN_MEDIUM`. -/
def orphaned (m : String) (rels : List Relationship) : Bool := rels.all fun r => !decide (Keeps m r.edge)

/-- The relationship is an IN_FAMILY edge of the medium's own. -/
def ownFamily (m : String) (r : Relationship) : Bool := r.edge.type = .inFamily ∧ r.edge.src = mediumKey m

/-- Transaction `i` goes from one state of its own to another. -/
def Race.setAttacher (i : Nat) (a : Attacher) (s : Race) : Race :=
  { s with attachers := Function.update s.attachers i a }

theorem Race.attachers_setAttacher (i : Nat) (a : Attacher) (s : Race) :
    (s.setAttacher i a).attachers = Function.update s.attachers i a := rfl

/-- The relationship transaction `i` creates next. -/
def Race.fresh (s : Race) (i : Nat) (edge : Edge) : Relationship :=
  ⟨.attached i (s.attachers i).attached.length, edge⟩

variable (m : String) (rows : List SummaryRow)

inductive Step : Race → Race → Prop
  | locks {s : Race} {store : LockedStore.Store NodeKey Agent Medium} : s.write = .locking →
      (s.store.view .mediaWrite (mediumKey m)).isSome → s.store.lock .mediaWrite (mediumKey m) = some store →
      Step s { s with store := store, write := .sweeping }
  /-- The stale relationships its MATCH found are deleted. -/
  | sweeps {s : Race} {store : LockedStore.Store NodeKey Agent Medium} {rels : List Relationship}
      {found : List RelId} : s.write = .sweeping → s.store.view .mediaWrite (mediumKey m) = some rels →
      (∃ r ∈ rels, r.id ∈ found) → (∀ r ∈ rels, r.id ∈ found → Stale rows r.edge) →
      s.store.write .mediaWrite (mediumKey m) (some (sweep found rels)) = some store →
      Step s { s with
        store := store, write := .pruneLocking, swept := s.swept ++ rels.filter fun r => r.id ∈ found }
  | pruneLocks {s : Race} {store : LockedStore.Store NodeKey Agent Medium} : s.write = .pruneLocking →
      s.store.lock .mediaWrite (mediumKey m) = some store →
      Step s { s with store := store, write := .checking }
  | spares {s : Race} {rels : List Relationship} : s.write = .checking →
      s.store.view .mediaWrite (mediumKey m) = some rels → orphaned m rels = false →
      Step s { s with write := .ended false }
  | condemns {s : Race} {rels : List Relationship} : s.write = .checking →
      s.store.view .mediaWrite (mediumKey m) = some rels → orphaned m rels = true →
      Step s { s with write := .deleting }
  /-- The medium's own IN_FAMILY edges are deleted, and the medium with no relationship left. -/
  | deletes {s : Race} {store : LockedStore.Store NodeKey Agent Medium} {rels : List Relationship} :
      s.write = .deleting → s.store.view .mediaWrite (mediumKey m) = some rels →
      (rels.filter fun r => !ownFamily m r) = [] →
      s.store.write .mediaWrite (mediumKey m) none = some store →
      Step s { s with store := store, write := .ended true }
  | commits {s : Race} {deleted : Bool} : s.write = .ended deleted →
      Step s { s with store := s.store.commit .mediaWrite, write := .committed deleted }
  /-- The write fails, as its plain DELETE does on a medium that still has a relationship. -/
  | aborts {s : Race} : (∀ deleted, s.write ≠ .committed deleted) →
      Step s { s with store := s.store.rollback .mediaWrite, write := .aborted, swept := [] }
  | attacherLocks {s : Race} {store : LockedStore.Store NodeKey Agent Medium} {i : Nat} :
      (s.attachers i).outcome = .running → s.store.lock (.attacher i) (mediumKey m) = some store →
      Step s { s with store := store }
  | creates {s : Race} {store : LockedStore.Store NodeKey Agent Medium} {i : Nat} :
      (s.attachers i).outcome = .running → s.store.view (.attacher i) (mediumKey m) = none →
      s.store.write (.attacher i) (mediumKey m) (some []) = some store →
      Step s { s with store := store }
  | attaches {s : Race} {store : LockedStore.Store NodeKey Agent Medium} {i : Nat} {rels : List Relationship}
      {edge : Edge} : (s.attachers i).outcome = .running → edge.Touches (mediumKey m) →
      s.store.view (.attacher i) (mediumKey m) = some rels →
      s.store.write (.attacher i) (mediumKey m) (some (rels ++ [s.fresh i edge])) = some store →
      Step s ({ s with store := store }.setAttacher i
        { s.attachers i with attached := (s.attachers i).attached ++ [s.fresh i edge] })
  | attacherCommits {s : Race} {i : Nat} : (s.attachers i).outcome = .running →
      Step s ({ s with store := s.store.commit (.attacher i) }.setAttacher i
        { s.attachers i with outcome := .committed })
  | attacherAborts {s : Race} {i : Nat} : (s.attachers i).outcome = .running →
      Step s ({ s with store := s.store.rollback (.attacher i) }.setAttacher i
        { s.attachers i with outcome := .aborted })

/-- The states any interleaving can lead to. -/
def Reachable (edges : Option (List Edge)) (s : Race) : Prop :=
  Relation.ReflTransGen (Step m rows) (.initial edges) s

variable {m rows}

/-! ## The invariant -/

/-- The relationship is at the medium. -/
def Has (v : Medium) (r : Relationship) : Prop := ∃ rels, v = some rels ∧ r ∈ rels

/-- An ISSUED_ON edge to the medium, of any catalog. -/
def IssuedTo (m : String) (r : Relationship) : Prop := r.edge.type = .issuedOn ∧ r.edge.dst = mediumKey m

/-- The write committed without the relationship, which its stale delete took away. -/
def Race.Lost (s : Race) (r : Relationship) : Prop := (∃ deleted, s.write = .committed deleted) ∧ r ∈ s.swept

/-- What is committed everybody sees, but for the write what it swept. -/
def Covers (m : String) (store : LockedStore.Store NodeKey Agent Medium) (swept : List Relationship) : Prop :=
  ∀ t r, IssuedTo m r → Has (store.committed (mediumKey m)) r →
    Has (store.view t (mediumKey m)) r ∨ t = .mediaWrite ∧ r ∈ swept

/-- The attachers: a running one sees under its lock what it attached, and nobody else does
before it commits. -/
structure Attached (m : String) (store : LockedStore.Store NodeKey Agent Medium) (a : Nat → Attacher) : Prop where
  owned : ∀ i, ∀ r ∈ (a i).attached, ∃ n, r.id = .attached i n
  running : ∀ i, (a i).outcome = .running → ∀ r ∈ (a i).attached,
    store.locks (mediumKey m) = some (.attacher i) ∧ Has (store.view (.attacher i) (mediumKey m)) r
  seen : ∀ t r i n, Has (store.view t (mediumKey m)) r → r.id = .attached i n →
    (a i).outcome = .committed ∨ t = .attacher i
  kept : ∀ r i n, Has (store.committed (mediumKey m)) r → r.id = .attached i n → (a i).outcome = .committed

structure Inv (m : String) (rows : List SummaryRow) (s : Race) : Prop where
  locked : s.write.locked = true → s.store.locks (mediumKey m) = some .mediaWrite
  orphan : s.write = .deleting → ∃ rels, s.store.view .mediaWrite (mediumKey m) = some rels ∧ orphaned m rels = true
  stale : ∀ r ∈ s.swept, Stale rows r.edge
  covers : Covers m s.store s.swept
  attached : Attached m s.store s.attachers

theorem not_attached_initial {edges : Option (List Edge)} {r : Relationship}
    (h : Has ((Race.initial edges).store.committed (mediumKey m)) r) (i n : Nat) : r.id ≠ .attached i n := by
  obtain ⟨rels, hrels, hr⟩ := h
  obtain ⟨es, _, hes⟩ := Option.map_eq_some_iff.mp hrels
  rw [← hes] at hr
  obtain ⟨j, _, hj⟩ := List.mem_mapIdx.mp hr
  rw [← hj]
  nofun

theorem Inv.initial (edges : Option (List Edge)) : Inv m rows (.initial edges) where
  locked h := by cases h
  orphan h := by cases h
  stale r hr := absurd hr List.not_mem_nil
  covers _ _ _ hhas := .inl hhas
  attached := {
    owned := fun i r hr => absurd hr List.not_mem_nil
    running := fun i _ r hr => absurd hr List.not_mem_nil
    seen := fun t r i n hhas hid => absurd hid (not_attached_initial hhas i n)
    kept := fun r i n hhas hid => absurd hid (not_attached_initial hhas i n) }

/-- An orphan has no ISSUED_ON edge. -/
theorem not_issuedTo_of_orphaned {rels : List Relationship} (h : orphaned m rels = true) {r : Relationship}
    (hr : r ∈ rels) : ¬ IssuedTo m r := by
  rintro ⟨htype, hdst⟩
  have hnot := List.all_eq_true.mp h r hr
  rw [Bool.not_eq_true', decide_eq_false_iff_not] at hnot
  refine hnot ⟨.inr hdst, .inl ?_⟩
  rw [htype]
  nofun

section Store

variable {store store' : LockedStore.Store NodeKey Agent Medium} {swept swept' : List Relationship}
  {a : Nat → Attacher} {t : Agent} {v : Medium} {i : Nat}

/-! ## What is committed stays in sight -/

theorem Covers.lock (h : Covers m store swept) (hlock : store.lock t (mediumKey m) = some store') :
    Covers m store' swept := by
  rw [Covers, LockedStore.Store.committed_lock hlock, LockedStore.Store.view_lock hlock]
  exact h

theorem Covers.write (h : Covers m store swept) (hwrite : store.write t (mediumKey m) v = some store')
    (hsub : swept ⊆ swept') (hkeeps : ∀ r, IssuedTo m r → Has (store.view t (mediumKey m)) r →
      Has v r ∨ t = .mediaWrite ∧ r ∈ swept') : Covers m store' swept' := by
  intro t' r hissued hhas
  rw [LockedStore.Store.committed_write hwrite] at hhas
  by_cases ht : t' = t
  · rw [ht, LockedStore.Store.view_write_self hwrite]
    rcases h t r hissued hhas with hview | ⟨hself, hswept⟩
    · exact hkeeps r hissued hview
    · exact .inr ⟨hself, hsub hswept⟩
  · rw [LockedStore.Store.view_write_of_ne hwrite (.inl ht)]
    exact (h t' r hissued hhas).imp_right fun h => ⟨h.1, hsub h.2⟩

theorem Covers.commit (h : Covers m store swept) : Covers m (store.commit t) swept := by
  intro t' r hissued hhas
  rw [LockedStore.Store.view_commit]
  split
  · rename_i hheld
    by_cases ht : t' = t
    · rw [ht]
      exact .inl hhas
    · -- The committer does not hold the medium, so it changes nothing there.
      have hnot : store.locks (mediumKey m) ≠ some t := by
        rw [hheld]
        exact fun heq => ht (Option.some.inj heq)
      have hcommitted : (store.commit t).committed (mediumKey m) = store.committed (mediumKey m) :=
        LockedStore.Store.view_of_not_held hnot
      rw [hcommitted] at hhas
      exact h t' r hissued hhas
  · exact .inl hhas

theorem Covers.rollback (h : Covers m store swept) (hrest : t = .mediaWrite ∨ swept ⊆ swept') :
    Covers m (store.rollback t) swept' := by
  intro t' r hissued hhas
  rw [LockedStore.Store.view_rollback]
  split
  · exact .inl hhas
  · rename_i ht
    refine (h t' r hissued hhas).imp_right fun hself => ⟨hself.1, ?_⟩
    rcases hrest with hrest | hrest
    · exact absurd (hself.1.trans hrest.symm) ht
    · exact hrest hself.2

/-! ## What the media write does to the attachers -/

theorem Attached.lock (h : Attached m store a) (hlock : store.lock t (mediumKey m) = some store') :
    Attached m store' a where
  owned := h.owned
  running i hi r hr := by
    obtain ⟨hheld, hhas⟩ := h.running i hi r hr
    rw [LockedStore.Store.view_lock hlock]
    exact ⟨(LockedStore.Store.held_of_lock hlock).mpr (.inr hheld), hhas⟩
  seen := by
    rw [LockedStore.Store.view_lock hlock]
    exact h.seen
  kept := by
    rw [LockedStore.Store.committed_lock hlock]
    exact h.kept

/-- The write adds nothing. -/
theorem Attached.written (h : Attached m store a) (hwrite : store.write .mediaWrite (mediumKey m) v = some store')
    (hsub : ∀ r, Has v r → Has (store.view .mediaWrite (mediumKey m)) r) : Attached m store' a where
  owned := h.owned
  running i hi r hr := by
    have hheld := (h.running i hi r hr).1
    rw [LockedStore.Store.held_of_write hwrite] at hheld
    cases hheld
  seen t r i n hhas hid := by
    by_cases ht : t = .mediaWrite
    · rw [ht, LockedStore.Store.view_write_self hwrite] at hhas
      rw [ht]
      exact h.seen _ r i n (hsub r hhas) hid
    · rw [LockedStore.Store.view_write_of_ne hwrite (.inl ht)] at hhas
      exact h.seen t r i n hhas hid
  kept := by
    rw [LockedStore.Store.committed_write hwrite]
    exact h.kept

theorem Attached.commit (h : Attached m store a) : Attached m (store.commit .mediaWrite) a where
  owned := h.owned
  running i hi r hr := by
    obtain ⟨hheld, hhas⟩ := h.running i hi r hr
    refine ⟨Locks.held_release.mpr ⟨hheld, nofun⟩, ?_⟩
    rwa [LockedStore.Store.view_commit, if_pos hheld]
  seen t r i n hhas hid := by
    rw [LockedStore.Store.view_commit] at hhas
    split at hhas
    · exact h.seen t r i n hhas hid
    · exact .inl ((h.seen _ r i n hhas hid).resolve_right nofun)
  kept r i n hhas hid := (h.seen .mediaWrite r i n hhas hid).resolve_right nofun

theorem Attached.rollback (h : Attached m store a) : Attached m (store.rollback .mediaWrite) a where
  owned := h.owned
  running i hi r hr := by
    obtain ⟨hheld, hhas⟩ := h.running i hi r hr
    refine ⟨Locks.held_release.mpr ⟨hheld, nofun⟩, ?_⟩
    rwa [LockedStore.Store.view_rollback, if_neg nofun]
  seen t r i n hhas hid := by
    rw [LockedStore.Store.view_rollback] at hhas
    split at hhas
    · exact .inl (h.kept r i n hhas hid)
    · exact h.seen t r i n hhas hid
  kept := h.kept

/-! ## What an attacher does to the attachers -/

/-- A running attacher adds relationships under the lock. -/
theorem Attached.grow (h : Attached m store a)
    (hwrite : store.write (.attacher i) (mediumKey m) v = some store') {new : List Relationship}
    (hnew : ∀ r ∈ new, ∃ n, r.id = .attached i n)
    (hold : ∀ r, Has (store.view (.attacher i) (mediumKey m)) r → Has v r) (hadd : ∀ r ∈ new, Has v r)
    (hsub : ∀ r, Has v r → Has (store.view (.attacher i) (mediumKey m)) r ∨ r ∈ new) :
    Attached m store' (Function.update a i { a i with attached := (a i).attached ++ new }) := by
  have hother : ∀ {j : Nat}, j ≠ i →
      Function.update a i { a i with attached := (a i).attached ++ new } j = a j := fun hj =>
    Function.update_of_ne hj _ _
  have houtcome : ∀ j, (Function.update a i { a i with attached := (a i).attached ++ new } j).outcome =
      (a j).outcome := by
    intro j
    by_cases hj : j = i
    · rw [hj, Function.update_self]
    · rw [hother hj]
  have hattached : ∀ {j : Nat} {r : Relationship},
      r ∈ (Function.update a i { a i with attached := (a i).attached ++ new } j).attached →
      r ∈ (a j).attached ∨ j = i ∧ r ∈ new := by
    intro j r hr
    by_cases hj : j = i
    · rw [hj, Function.update_self] at hr
      rw [hj]
      exact (List.mem_append.mp hr).imp_right fun hr => ⟨rfl, hr⟩
    · rw [hother hj] at hr
      exact .inl hr
  have hheld := LockedStore.Store.held_of_write hwrite
  constructor
  · intro j r hr
    rcases hattached hr with hr | ⟨hj, hmem⟩
    · exact h.owned j r hr
    · rw [hj]
      exact hnew r hmem
  · intro j hj r hr
    rw [houtcome] at hj
    rw [LockedStore.Store.locks_write hwrite]
    rcases hattached hr with hr | ⟨hsame, hmem⟩
    · obtain ⟨hheld', hhas⟩ := h.running j hj r hr
      refine ⟨hheld', ?_⟩
      rw [hheld] at hheld'
      cases hheld'
      rw [LockedStore.Store.view_write_self hwrite]
      exact hold r hhas
    · rw [hsame, LockedStore.Store.view_write_self hwrite]
      exact ⟨hheld, hadd r hmem⟩
  · intro t r j n hhas hid
    rw [houtcome]
    by_cases ht : t = .attacher i
    · rw [ht, LockedStore.Store.view_write_self hwrite] at hhas
      rcases hsub r hhas with hhas | hr
      · rw [ht]
        exact h.seen _ r j n hhas hid
      · obtain ⟨n', hid'⟩ := hnew r hr
        rw [hid] at hid'
        cases hid'
        exact .inr ht
    · rw [LockedStore.Store.view_write_of_ne hwrite (.inl ht)] at hhas
      exact h.seen t r j n hhas hid
  · intro r j n hhas hid
    rw [houtcome]
    rw [LockedStore.Store.committed_write hwrite] at hhas
    exact h.kept r j n hhas hid

/-- An attacher keeps what it attached when it comes to its end. -/
theorem attached_ended (a : Nat → Attacher) (i j : Nat) (outcome : Outcome) :
    (Function.update a i { a i with outcome := outcome } j).attached = (a j).attached := by
  by_cases hj : j = i
  · rw [hj, Function.update_self]
  · rw [Function.update_of_ne hj]

theorem outcome_ended (a : Nat → Attacher) (i j : Nat) (outcome : Outcome) :
    (Function.update a i { a i with outcome := outcome } j).outcome = if j = i then outcome else (a j).outcome := by
  split
  · rename_i hj
    rw [hj, Function.update_self]
  · rename_i hj
    rw [Function.update_of_ne hj]

theorem Attached.attacherCommits (h : Attached m store a) :
    Attached m (store.commit (.attacher i)) (Function.update a i { a i with outcome := .committed }) := by
  have hcommitted : ∀ {j : Nat}, (a j).outcome = .committed ∨ Agent.attacher i = .attacher j →
      (if j = i then Outcome.committed else (a j).outcome) = .committed := by
    rintro j (hj | hj)
    · rw [hj, ite_self]
    · cases hj
      exact if_pos rfl
  constructor
  · intro j r hr
    rw [attached_ended] at hr
    exact h.owned j r hr
  · intro j hj r hr
    rw [outcome_ended] at hj
    rw [attached_ended] at hr
    split at hj
    · cases hj
    · rename_i hne
      obtain ⟨hheld, hhas⟩ := h.running j hj r hr
      refine ⟨Locks.held_release.mpr ⟨hheld, fun heq => hne (Agent.attacher.inj heq)⟩, ?_⟩
      rwa [LockedStore.Store.view_commit, if_pos hheld]
  · intro t r j n hhas hid
    rw [outcome_ended]
    rw [LockedStore.Store.view_commit] at hhas
    split at hhas
    · exact (h.seen t r j n hhas hid).imp_left fun hj => hcommitted (.inl hj)
    · exact .inl (hcommitted (h.seen _ r j n hhas hid))
  · intro r j n hhas hid
    rw [outcome_ended]
    exact hcommitted (h.seen _ r j n hhas hid)

theorem Attached.attacherAborts (h : Attached m store a) (hrunning : (a i).outcome = .running) :
    Attached m (store.rollback (.attacher i)) (Function.update a i { a i with outcome := .aborted }) := by
  have hcommitted : ∀ {j : Nat}, (a j).outcome = .committed →
      (if j = i then Outcome.aborted else (a j).outcome) = .committed := by
    intro j hj
    rw [if_neg, hj]
    rintro rfl
    rw [hrunning] at hj
    cases hj
  constructor
  · intro j r hr
    rw [attached_ended] at hr
    exact h.owned j r hr
  · intro j hj r hr
    rw [outcome_ended] at hj
    rw [attached_ended] at hr
    split at hj
    · cases hj
    · rename_i hne
      obtain ⟨hheld, hhas⟩ := h.running j hj r hr
      have hne' : Agent.attacher j ≠ .attacher i := fun heq => hne (Agent.attacher.inj heq)
      refine ⟨Locks.held_release.mpr ⟨hheld, hne'⟩, ?_⟩
      rwa [LockedStore.Store.view_rollback, if_neg hne']
  · intro t r j n hhas hid
    rw [outcome_ended]
    rw [LockedStore.Store.view_rollback] at hhas
    split at hhas
    · exact .inl (hcommitted (h.kept r j n hhas hid))
    · exact (h.seen t r j n hhas hid).imp_left hcommitted
  · intro r j n hhas hid
    rw [outcome_ended]
    exact hcommitted (h.kept r j n hhas hid)

end Store

/-! ## Every interleaving -/

theorem has_some {rels : List Relationship} {r : Relationship} : Has (some rels) r ↔ r ∈ rels :=
  ⟨fun ⟨_, heq, hr⟩ => Option.some.inj heq ▸ hr, fun hr => ⟨rels, rfl, hr⟩⟩

/-- A step of an attacher, which leaves the media write what it holds and sees. -/
theorem Inv.beside {s : Race} (h : Inv m rows s) {store : LockedStore.Store NodeKey Agent Medium}
    {attachers : Nat → Attacher}
    (hheld : s.store.locks (mediumKey m) = some .mediaWrite → store.locks (mediumKey m) = some .mediaWrite ∧
      store.view .mediaWrite (mediumKey m) = s.store.view .mediaWrite (mediumKey m))
    (hcovers : Covers m store s.swept) (hattached : Attached m store attachers) :
    Inv m rows { s with store := store, attachers := attachers } where
  locked hlocked := (hheld (h.locked hlocked)).1
  orphan hdeleting := by
    obtain ⟨rels, hrels, horphan⟩ := h.orphan hdeleting
    have hlocked : s.write.locked = true := by
      rw [show s.write = .deleting from hdeleting]
      rfl
    exact ⟨rels, (hheld (h.locked hlocked)).2.trans hrels, horphan⟩
  stale := h.stale
  covers := hcovers
  attached := hattached

theorem Inv.step {s s' : Race} (h : Inv m rows s) (hstep : Step m rows s s') : Inv m rows s' := by
  cases hstep with
  | locks hpc _ hlock =>
    exact ⟨fun _ => LockedStore.Store.held_lock hlock, nofun, h.stale, h.covers.lock hlock, h.attached.lock hlock⟩
  | @sweeps _ rels found hpc hview hsome hstale hwrite =>
    have hlocked : s.write.locked = true := by rw [hpc]; rfl
    refine ⟨fun _ => ?_, nofun, ?_, h.covers.write hwrite (List.subset_append_left _ _) ?_,
      h.attached.written hwrite ?_⟩
    · exact (congrFun (LockedStore.Store.locks_write hwrite) _).trans (h.locked hlocked)
    · intro r hr
      rcases List.mem_append.mp hr with hr | hr
      · exact h.stale r hr
      · obtain ⟨hr, hfound⟩ := List.mem_filter.mp hr
        exact hstale r hr (of_decide_eq_true hfound)
    · intro r _ hhas
      rw [hview, has_some] at hhas
      rw [has_some, sweep, List.mem_filter, List.mem_append, List.mem_filter]
      by_cases hfound : r.id ∈ found
      · exact .inr ⟨rfl, .inr ⟨hhas, decide_eq_true hfound⟩⟩
      · exact .inl ⟨hhas, decide_eq_true hfound⟩
    · intro r hr
      rw [hview, has_some]
      exact (List.mem_filter.mp (has_some.mp hr)).1
  | pruneLocks hpc hlock =>
    exact ⟨fun _ => LockedStore.Store.held_lock hlock, nofun, h.stale, h.covers.lock hlock, h.attached.lock hlock⟩
  | spares hpc _ _ =>
    have hlocked : s.write.locked = true := by rw [hpc]; rfl
    exact ⟨fun _ => h.locked hlocked, nofun, h.stale, h.covers, h.attached⟩
  | condemns hpc hview horphan =>
    have hlocked : s.write.locked = true := by rw [hpc]; rfl
    exact ⟨fun _ => h.locked hlocked, fun _ => ⟨_, hview, horphan⟩, h.stale, h.covers, h.attached⟩
  | deletes hpc hview _ hwrite =>
    have hlocked : s.write.locked = true := by rw [hpc]; rfl
    refine ⟨fun _ => ?_, nofun, h.stale, h.covers.write hwrite (fun _ hr => hr) ?_, h.attached.written hwrite ?_⟩
    · exact (congrFun (LockedStore.Store.locks_write hwrite) _).trans (h.locked hlocked)
    · -- The orphan check under the lock found no ISSUED_ON edge, and none has come since.
      intro r hissued hhas
      obtain ⟨rels, hrels, horphan⟩ := h.orphan hpc
      rw [hrels, has_some] at hhas
      exact absurd hissued (not_issuedTo_of_orphaned horphan hhas)
    · rintro r ⟨_, heq, _⟩
      cases heq
  | commits hpc => exact ⟨nofun, nofun, h.stale, h.covers.commit, h.attached.commit⟩
  | aborts _ =>
    exact ⟨nofun, nofun, fun r hr => absurd hr List.not_mem_nil, h.covers.rollback (.inl rfl), h.attached.rollback⟩
  | attacherLocks _ hlock =>
    refine h.beside (fun hheld => ⟨?_, ?_⟩) (h.covers.lock hlock) (h.attached.lock hlock)
    · exact (LockedStore.Store.held_of_lock hlock).mpr (.inr hheld)
    · rw [LockedStore.Store.view_lock hlock]
  | @creates _ i _ hview hwrite =>
    -- The attacher saw no medium, so there are no relationships to lose.
    have hnone : ∀ r, ¬ Has (s.store.view (.attacher i) (mediumKey m)) r := by
      rintro r ⟨_, heq, _⟩
      rw [hview] at heq
      cases heq
    have hattached := h.attached.grow hwrite (fun r hr => absurd hr List.not_mem_nil)
      (fun r hr => absurd hr (hnone r)) (fun r hr => absurd hr List.not_mem_nil)
      fun r hr => .inr (has_some.mp hr)
    rw [List.append_nil, Function.update_eq_self] at hattached
    refine h.beside (fun hheld => ?_)
      (h.covers.write hwrite (fun _ hr => hr) fun r _ hr => absurd hr (hnone r)) hattached
    rw [LockedStore.Store.held_of_write hwrite] at hheld
    cases hheld
  | @attaches _ i rels edge _ _ hview hwrite =>
    have hold : ∀ r, Has (s.store.view (.attacher i) (mediumKey m)) r → Has (some (rels ++ [s.fresh i edge])) r := by
      intro r hr
      rw [hview, has_some] at hr
      exact has_some.mpr (List.mem_append_left _ hr)
    refine h.beside (fun hheld => ?_) (h.covers.write hwrite (fun _ hr => hr) fun r _ hr => .inl (hold r hr))
      (h.attached.grow hwrite ?_ hold ?_ ?_)
    · rw [LockedStore.Store.held_of_write hwrite] at hheld
      cases hheld
    · intro r hr
      rw [List.mem_singleton.mp hr]
      exact ⟨_, rfl⟩
    · exact fun r hr => has_some.mpr (List.mem_append_right _ hr)
    · intro r hr
      rw [hview, has_some]
      exact List.mem_append.mp (has_some.mp hr)
  | @attacherCommits i _ =>
    refine h.beside (fun hheld => ⟨Locks.held_release.mpr ⟨hheld, nofun⟩, ?_⟩) h.covers.commit
      h.attached.attacherCommits
    rw [LockedStore.Store.view_commit, if_pos hheld]
  | @attacherAborts i hrunning =>
    refine h.beside (fun hheld => ⟨Locks.held_release.mpr ⟨hheld, nofun⟩, ?_⟩)
      (h.covers.rollback (.inr fun _ hr => hr)) (h.attached.attacherAborts hrunning)
    rw [LockedStore.Store.view_rollback, if_neg nofun]

/-- No step but the commit of the media write takes away a committed ISSUED_ON edge, and that
only the swept ones. -/
theorem Step.keeps {s s' : Race} (h : Inv m rows s) (hstep : Step m rows s s') {r : Relationship}
    (hissued : IssuedTo m r) (hhas : Has (s.store.committed (mediumKey m)) r) :
    Has (s'.store.committed (mediumKey m)) r ∨ s'.Lost r := by
  cases hstep with
  | locks _ _ hlock | pruneLocks _ hlock | attacherLocks _ hlock =>
    rw [LockedStore.Store.committed_lock hlock]
    exact .inl hhas
  | sweeps _ _ _ _ hwrite | deletes _ _ _ hwrite | creates _ _ hwrite =>
    rw [LockedStore.Store.committed_write hwrite]
    exact .inl hhas
  | attaches _ _ _ hwrite =>
    rw [Race.setAttacher, LockedStore.Store.committed_write hwrite]
    exact .inl hhas
  | spares | condemns | aborts | attacherAborts => exact .inl hhas
  | commits => exact (h.covers .mediaWrite r hissued hhas).imp_right fun hself => ⟨⟨_, rfl⟩, hself.2⟩
  | @attacherCommits i _ => exact .inl ((h.covers (.attacher i) r hissued hhas).resolve_right nofun)

/-- After its commit the write takes no step. -/
theorem Step.lost {s s' : Race} (hstep : Step m rows s s') {r : Relationship} (h : s.Lost r) : s'.Lost r := by
  obtain ⟨⟨deleted, hcommitted⟩, hswept⟩ := h
  cases hstep with
  | locks hpc | sweeps hpc | pruneLocks hpc | spares hpc | condemns hpc | deletes hpc | commits hpc =>
    rw [hcommitted] at hpc
    cases hpc
  | aborts hpc => exact absurd hcommitted (hpc deleted)
  | attacherLocks | creates | attaches | attacherCommits | attacherAborts => exact ⟨⟨deleted, hcommitted⟩, hswept⟩

/-- The relationships of a committed attacher were its own before, or it commits them with this step. -/
theorem Step.attached {s s' : Race} (h : Inv m rows s) (hstep : Step m rows s s') {i : Nat}
    (hi : (s'.attachers i).outcome = .committed) {r : Relationship} (hr : r ∈ (s'.attachers i).attached) :
    (s.attachers i).outcome = .committed ∧ r ∈ (s.attachers i).attached ∨
      Has (s'.store.committed (mediumKey m)) r := by
  cases hstep with
  | locks | sweeps | pruneLocks | spares | condemns | deletes | commits | aborts | attacherLocks | creates =>
    exact .inl ⟨hi, hr⟩
  | @attaches _ j _ _ hrunning =>
    by_cases hj : i = j
    · rw [Race.attachers_setAttacher, hj, Function.update_self, hrunning] at hi
      cases hi
    · rw [Race.attachers_setAttacher, Function.update_of_ne hj] at hi hr
      exact .inl ⟨hi, hr⟩
  | @attacherCommits j hrunning =>
    rw [Race.attachers_setAttacher, outcome_ended] at hi
    rw [Race.attachers_setAttacher, attached_ended] at hr
    split at hi
    · rename_i hj
      rw [hj] at hr
      exact .inr (h.attached.running j hrunning r hr).2
    · exact .inl ⟨hi, hr⟩
  | @attacherAborts j hrunning =>
    rw [Race.attachers_setAttacher, outcome_ended] at hi
    rw [Race.attachers_setAttacher, attached_ended] at hr
    split at hi
    · cases hi
    · exact .inl ⟨hi, hr⟩

section Reachable

variable {edges : Option (List Edge)} {s : Race} {r : Relationship}

theorem Reachable.inv (h : Reachable m rows edges s) : Inv m rows s := by
  induction h with
  | refl => exact Inv.initial edges
  | tail _ hstep ih => exact ih.step hstep

/-- A committed ISSUED_ON edge stays, unless the write sweeps it. -/
theorem Reachable.keeps {s₀ : Race} (h₀ : Reachable m rows edges s₀) (h : Relation.ReflTransGen (Step m rows) s₀ s)
    (hissued : IssuedTo m r) (hhas : Has (s₀.store.committed (mediumKey m)) r) :
    Has (s.store.committed (mediumKey m)) r ∨ s.Lost r := by
  induction h with
  | refl => exact .inl hhas
  | tail hrun hstep ih =>
    rcases ih with hhas | hlost
    · exact hstep.keeps (Reachable.inv (h₀.trans hrun)) hissued hhas
    · exact .inr (hstep.lost hlost)

theorem Reachable.committed (h : Reachable m rows edges s) {i : Nat} (hi : (s.attachers i).outcome = .committed)
    (hr : r ∈ (s.attachers i).attached) (hissued : IssuedTo m r) :
    Has (s.store.committed (mediumKey m)) r ∨ s.Lost r := by
  induction h with
  | refl => cases hi
  | tail hrun hstep ih =>
    have hinv := Reachable.inv hrun
    rcases hstep.attached hinv hi hr with ⟨hi, hr⟩ | hhas
    · rcases ih hi hr with hhas | hlost
      · exact hstep.keeps hinv hissued hhas
      · exact .inr (hstep.lost hlost)
    · exact .inl hhas

end Reachable

/-! ## One after the other -/

section Alone

variable {s : Race} {rels : List Relationship}

variable (rows) in
/-- Nobody in between, the write leaves the relationships that are not stale, or no medium if
they do not keep it. -/
theorem exists_write_alone (hpc : s.write = .locking) (hfree : s.store.locks (mediumKey m) = none)
    (hmedium : s.store.committed (mediumKey m) = some rels) (hids : ∀ r ∈ rels, ∀ r' ∈ rels, r.id = r'.id → r = r')
    (htouches : ∀ r ∈ rels, r.edge.Touches (mediumKey m)) (hstale : ∃ r ∈ rels, Stale rows r.edge) :
    ∃ kept s', Relation.ReflTransGen (Step m rows) s s' ∧ s'.attachers = s.attachers ∧
      s'.store.locks (mediumKey m) = none ∧ (∀ r, r ∈ kept ↔ r ∈ rels ∧ ¬ Stale rows r.edge) ∧
      s'.write = .committed (orphaned m kept) ∧
      s'.store.committed (mediumKey m) = if orphaned m kept then none else some kept := by
  classical
  let found := (rels.filter fun r => Stale rows r.edge).map (·.id)
  have hfound : ∀ r ∈ rels, r.id ∈ found ↔ Stale rows r.edge := by
    intro r hr
    constructor
    · intro hmem
      obtain ⟨r', hr', hid⟩ := List.mem_map.mp hmem
      obtain ⟨hr', hstale⟩ := List.mem_filter.mp hr'
      rw [hids r hr r' hr' hid.symm]
      exact of_decide_eq_true hstale
    · exact fun hstale => List.mem_map.mpr ⟨r, List.mem_filter.mpr ⟨hr, decide_eq_true hstale⟩, rfl⟩
  have hkept : ∀ r, r ∈ sweep found rels ↔ r ∈ rels ∧ ¬ Stale rows r.edge := by
    intro r
    rw [sweep, List.mem_filter, decide_eq_true_eq]
    exact and_congr_right fun hr => not_congr (hfound r hr)
  obtain ⟨store₁, hlock⟩ := LockedStore.Store.exists_lock (t := Agent.mediaWrite) hfree
  have hheld₁ := LockedStore.Store.held_lock hlock
  have hview : s.store.view .mediaWrite (mediumKey m) = some rels :=
    (LockedStore.Store.view_of_free hfree).trans hmedium
  have hview₁ : store₁.view .mediaWrite (mediumKey m) = some rels := by
    rw [LockedStore.Store.view_lock hlock, hview]
  obtain ⟨store₂, hwrite⟩ := LockedStore.Store.exists_write hheld₁ (some (sweep found rels))
  have hheld₂ : store₂.locks (mediumKey m) = some .mediaWrite :=
    (congrFun (LockedStore.Store.locks_write hwrite) _).trans hheld₁
  have hview₂ := LockedStore.Store.view_write_self hwrite
  have hrelock : store₂.lock .mediaWrite (mediumKey m) = some store₂ := if_pos hheld₂
  have hsome : ∃ r ∈ rels, r.id ∈ found := by
    obtain ⟨r, hr, hstale⟩ := hstale
    exact ⟨r, hr, (hfound r hr).mpr hstale⟩
  have hrun : Relation.ReflTransGen (Step m rows) s
      { s with store := store₂, write := .checking, swept := s.swept ++ rels.filter fun r => r.id ∈ found } :=
    (((Relation.ReflTransGen.single (Step.locks hpc (by rw [hview]; rfl) hlock)).tail
      (Step.sweeps rfl hview₁ hsome (fun r hr => (hfound r hr).mp) hwrite)).tail (Step.pruneLocks rfl hrelock))
  refine ⟨sweep found rels, ?_⟩
  cases horphan : orphaned m (sweep found rels) with
  | false =>
    exact ⟨_, (hrun.tail (Step.spares rfl hview₂ horphan)).tail (Step.commits rfl), rfl,
      LockedStore.Store.free_commit hheld₂, hkept, rfl, hview₂⟩
  | true =>
    -- What is left of an orphan are its own IN_FAMILY edges.
    have hrest : ((sweep found rels).filter fun r => !ownFamily m r) = [] := by
      refine List.filter_eq_nil_iff.mpr fun r hr => ?_
      have hnot := List.all_eq_true.mp horphan r hr
      rw [Bool.not_eq_true', decide_eq_false_iff_not, Keeps, not_and_or, not_or, not_not, not_not] at hnot
      rw [Bool.not_eq_true', Bool.not_eq_false, ownFamily, decide_eq_true_eq]
      exact hnot.resolve_left fun hnot => hnot (htouches r ((hkept r).mp hr).1)
    obtain ⟨store₃, hdelete⟩ := LockedStore.Store.exists_write hheld₂ none
    have hheld₃ : store₃.locks (mediumKey m) = some .mediaWrite :=
      (congrFun (LockedStore.Store.locks_write hdelete) _).trans hheld₂
    exact ⟨_, ((hrun.tail (Step.condemns rfl hview₂ horphan)).tail (Step.deletes rfl hview₂ hrest hdelete)).tail
      (Step.commits rfl), rfl, LockedStore.Store.free_commit hheld₃, hkept, rfl,
      LockedStore.Store.view_write_self hdelete⟩

variable (rows) in
/-- Nobody in between, an attacher attaches its edge to the medium that is there, or to a new one. -/
theorem exists_attacher_alone {i : Nat} (edge : Edge) (hrunning : s.attachers i = {})
    (hfree : s.store.locks (mediumKey m) = none) (htouches : edge.Touches (mediumKey m)) :
    ∃ s', Relation.ReflTransGen (Step m rows) s s' ∧ s'.write = s.write ∧ s'.store.locks (mediumKey m) = none ∧
      s'.attachers i = ⟨.committed, [⟨.attached i 0, edge⟩]⟩ ∧ s'.store.committed (mediumKey m) =
        some ((s.store.committed (mediumKey m)).getD [] ++ [⟨.attached i 0, edge⟩]) := by
  have hoff : (s.attachers i).outcome = .running := by rw [hrunning]
  have hfresh : s.fresh i edge = ⟨.attached i 0, edge⟩ := by rw [Race.fresh, hrunning]; rfl
  obtain ⟨store₁, hlock⟩ := LockedStore.Store.exists_lock (t := Agent.attacher i) hfree
  have hview₁ : store₁.view (.attacher i) (mediumKey m) = s.store.committed (mediumKey m) := by
    rw [LockedStore.Store.view_lock hlock, LockedStore.Store.view_of_free hfree]
  -- With the medium in place, or created.
  obtain ⟨store₂, hrun, hheld, hview₂⟩ : ∃ store₂, Relation.ReflTransGen (Step m rows) s { s with store := store₂ } ∧
      store₂.locks (mediumKey m) = some (.attacher i) ∧
      store₂.view (.attacher i) (mediumKey m) = some ((s.store.committed (mediumKey m)).getD []) := by
    have hheld₁ := LockedStore.Store.held_lock hlock
    have hrun : Relation.ReflTransGen (Step m rows) s { s with store := store₁ } :=
      .single (.attacherLocks hoff hlock)
    cases hmedium : s.store.committed (mediumKey m) with
    | some rels => exact ⟨store₁, hrun, hheld₁, by rw [hview₁, hmedium]; rfl⟩
    | none =>
      obtain ⟨store₂, hwrite⟩ := LockedStore.Store.exists_write hheld₁ (some [])
      exact ⟨store₂, hrun.tail (Step.creates hoff (hview₁.trans hmedium) hwrite),
        (congrFun (LockedStore.Store.locks_write hwrite) _).trans hheld₁, LockedStore.Store.view_write_self hwrite⟩
  obtain ⟨store₃, hwrite⟩ := LockedStore.Store.exists_write hheld
    (some ((s.store.committed (mediumKey m)).getD [] ++ [s.fresh i edge]))
  have hheld₃ := (congrFun (LockedStore.Store.locks_write hwrite) _).trans hheld
  refine ⟨_, (hrun.tail (Step.attaches hoff htouches hview₂ hwrite)).tail (Step.attacherCommits (i := i) ?_), rfl,
    LockedStore.Store.free_commit hheld₃, ?_, ?_⟩
  · rw [Race.attachers_setAttacher, Function.update_self]
    exact hoff
  · rw [Race.attachers_setAttacher, Function.update_self, Race.attachers_setAttacher, Function.update_self]
    change (⟨.committed, (s.attachers i).attached ++ [s.fresh i edge]⟩ : Attacher) = _
    rw [hfresh, hrunning]
    rfl
  · rw [← hfresh]
    exact LockedStore.Store.view_write_self hwrite

/-- The relationships of the medium in the graph. -/
def edgesAt (m : String) (g : Graph) : Option (List Edge) :=
  (g.node (mediumKey m)).map fun _ => g.rels.filter fun e => e.Touches (mediumKey m)

/-- Nobody in between, the write does to the medium what its summary statement does. -/
theorem exists_write_alone_eq {g g' : Graph} (h : releaseMediaSummaryBatchCypher rows g = .ok g')
    (hlost : ∃ e ∈ g.rels, Stale rows e ∧ e.dst = mediumKey m) :
    ∃ s, Reachable m rows (edgesAt m g) s ∧
      ((s.store.committed (mediumKey m)).isSome ↔ (g'.node (mediumKey m)).isSome) ∧
      ∀ e, e.type = .issuedOn → e.dst = mediumKey m →
        (e ∈ g'.rels ↔ ∃ r, Has (s.store.committed (mediumKey m)) r ∧ r.edge = e) := by
  obtain ⟨e₀, he₀, hstale₀, hdst₀⟩ := hlost
  obtain ⟨hrels, _, _, hnode⟩ := releaseMediaSummaryBatch_eq_ok h
  have hsome : (g.node (mediumKey m)).isSome := hdst₀ ▸ (g.closed e₀ he₀).2
  obtain ⟨node, hgnode⟩ := Option.isSome_iff_exists.mp hsome
  let rels := (g.rels.filter fun e => e.Touches (mediumKey m)).mapIdx fun n e => (⟨.existing n, e⟩ : Relationship)
  have hmedium : (Race.initial (edgesAt m g)).store.committed (mediumKey m) = some rels := by
    rw [edgesAt, hgnode]
    rfl
  have hedge : ∀ r ∈ rels, r.edge ∈ g.rels ∧ r.edge.Touches (mediumKey m) := by
    intro r hr
    obtain ⟨n, hn, rfl⟩ := List.mem_mapIdx.mp hr
    obtain ⟨hmem, htouches⟩ := List.mem_filter.mp (List.getElem_mem hn)
    exact ⟨hmem, of_decide_eq_true htouches⟩
  have hrel : ∀ e ∈ g.rels, e.Touches (mediumKey m) → ∃ r ∈ rels, r.edge = e := by
    intro e he htouches
    have hmem : e ∈ g.rels.filter fun e => e.Touches (mediumKey m) :=
      List.mem_filter.mpr ⟨he, decide_eq_true htouches⟩
    obtain ⟨n, hn, rfl⟩ := List.getElem_of_mem hmem
    exact ⟨_, List.mem_mapIdx.mpr ⟨n, hn, rfl⟩, rfl⟩
  have hids : ∀ r ∈ rels, ∀ r' ∈ rels, r.id = r'.id → r = r' := by
    intro r hr r' hr' hid
    obtain ⟨n, hn, rfl⟩ := List.mem_mapIdx.mp hr
    obtain ⟨n', hn', rfl⟩ := List.mem_mapIdx.mp hr'
    cases hid
    rfl
  obtain ⟨kept, s, hrun, _, _, hkept, _, hcommitted⟩ :=
    exists_write_alone rows (s := .initial (edgesAt m g)) rfl rfl hmedium hids (fun r hr => (hedge r hr).2)
      (by
        obtain ⟨r, hr, heq⟩ := hrel e₀ he₀ (.inr hdst₀)
        exact ⟨r, hr, heq ▸ hstale₀⟩)
  -- What is left is an orphan where the statement prunes.
  have horphan : orphaned m kept = true ↔ Pruned rows g m := by
    rw [orphaned, List.all_eq_true]
    constructor
    · refine fun hall => ⟨⟨e₀, he₀, hstale₀, hdst₀⟩, fun e he hkeeps => ?_⟩
      by_contra hstale
      obtain ⟨r, hr, rfl⟩ := hrel e he hkeeps.1
      have hnot := hall r ((hkept r).mpr ⟨hr, hstale⟩)
      rw [decide_eq_true hkeeps] at hnot
      cases hnot
    · rintro ⟨_, hpruned⟩ r hr
      obtain ⟨hr, hstale⟩ := (hkept r).mp hr
      rw [Bool.not_eq_true', decide_eq_false_iff_not]
      exact fun hkeeps => hstale (hpruned r.edge (hedge r hr).1 hkeeps)
  refine ⟨s, hrun, ?_, fun e htype hdst => ?_⟩
  · rw [hnode, ← horphan, hcommitted]
    cases orphaned m kept with
    | true => exact iff_of_false nofun fun h => h.2 rfl
    | false => exact iff_of_true rfl ⟨hsome, nofun⟩
  · have hmem : e ∈ g'.rels ↔ e ∈ g.rels ∧ ¬ Stale rows e := by
      rw [hrels]
      refine and_congr_right fun _ => and_iff_left ?_
      rw [htype]
      exact fun h => nomatch h.1
    rw [hmem, hcommitted]
    constructor
    · rintro ⟨he, hstale⟩
      obtain ⟨r, hr, rfl⟩ := hrel e he (.inr hdst)
      have hr := (hkept r).mpr ⟨hr, hstale⟩
      refine ⟨r, ?_, rfl⟩
      split
      · rename_i horphan
        exact absurd ⟨htype, hdst⟩ (not_issuedTo_of_orphaned horphan hr)
      · exact has_some.mpr hr
    · rintro ⟨r, hr, rfl⟩
      split at hr
      · obtain ⟨_, heq, _⟩ := hr
        cases heq
      · obtain ⟨hr, hstale⟩ := (hkept r).mp (has_some.mp hr)
        exact ⟨(hedge r hr).1, hstale⟩

end Alone

/-! ## What is lost and what is not -/

/-- Whatever the interleaving, the ISSUED_ON edges of committed transactions are at the medium,
but for those the write's own stale delete took away: it detaches its releases, and its prune
nothing. An attacher that commits leaves its edges on a medium that is there, and one that
aborts leaves none. -/
theorem prune_detaches_no_edge (m : String) (rows : List SummaryRow) (edges : Option (List Edge)) {s : Race}
    (h : Reachable m rows edges s) :
    (∀ r, IssuedTo m r → Has ((Race.initial edges).store.committed (mediumKey m)) r ∨
        (∃ i, (s.attachers i).outcome = .committed ∧ r ∈ (s.attachers i).attached) →
      Has (s.store.committed (mediumKey m)) r ∨ (s.Lost r ∧ Stale rows r.edge)) ∧
    (∀ i, (s.attachers i).outcome = .running → ∀ r ∈ (s.attachers i).attached,
      Has ((s.store.commit (.attacher i)).committed (mediumKey m)) r) ∧
    ∀ i, (s.attachers i).outcome = .aborted → ∀ r ∈ (s.attachers i).attached,
      ¬ Has (s.store.committed (mediumKey m)) r := by
  have hinv := h.inv
  refine ⟨fun r hissued hr => ?_, fun i hi r hr => (hinv.attached.running i hi r hr).2, fun i hi r hr hhas => ?_⟩
  · have hkept : Has (s.store.committed (mediumKey m)) r ∨ s.Lost r := by
      rcases hr with hr | ⟨i, hi, hr⟩
      · exact Reachable.keeps .refl h hissued hr
      · exact h.committed hi hr hissued
    exact hkept.imp_right fun hlost => ⟨hlost, hinv.stale r hlost.2⟩
  · obtain ⟨n, hid⟩ := hinv.attached.owned i r hr
    have hcommitted := hinv.attached.kept r i n hhas hid
    rw [hi] at hcommitted
    cases hcommitted

/-- An ISSUED_ON edge of the release `id` to a CD. -/
def onCd (id source : String) : Edge := ⟨.issuedOn, releaseKey id, mediumKey "CD", fun _ => .str source⟩

/-- The row of release 1 with no medium any more. -/
def noMedia : SummaryRow := ⟨"1", [], 0, []⟩

theorem stale_noMedia {e : Edge} : Stale [noMedia] e ↔ isStale noMedia e = true := by simp [Stale]

theorem eq_nil_of_stale {r₀ : Relationship} {kept : List Relationship} (hstale : Stale rows r₀.edge)
    (hkept : ∀ r, r ∈ kept ↔ r ∈ [r₀] ∧ ¬ Stale rows r.edge) : kept = [] := by
  refine List.eq_nil_iff_forall_not_mem.mpr fun r hr => ?_
  obtain ⟨hr, hnot⟩ := (hkept r).mp hr
  rw [List.mem_singleton.mp hr] at hnot
  exact hnot hstale

/-- Release 1 leaves the medium, which is pruned; next a release of another catalog is attached. -/
theorem prune_detaches_no_edge_reattached :
    ∃ s : Race, s.write = .committed true ∧
      Has (s.store.committed (mediumKey "CD")) ⟨.attached 0 0, onCd "2" "discogs"⟩ := by
  have hstale : Stale [noMedia] (onCd "1" mediaSource) := stale_noMedia.mpr (by decide)
  obtain ⟨kept, s₁, hrun₁, hattachers₁, hfree₁, hkept, hwrite₁, _⟩ :=
    exists_write_alone [noMedia] (m := "CD") (s := .initial (some [onCd "1" mediaSource])) rfl rfl rfl
      (fun r hr r' hr' _ => (List.mem_singleton.mp hr).trans (List.mem_singleton.mp hr').symm)
      (fun r hr => by rw [List.mem_singleton.mp hr]; exact .inr rfl) ⟨_, List.mem_singleton_self _, hstale⟩
  obtain ⟨s, hrun, hwrite, _, hattacher, _⟩ :=
    exists_attacher_alone [noMedia] (m := "CD") (s := s₁) (i := 0) (onCd "2" "discogs")
      (by rw [hattachers₁]; rfl) hfree₁ (.inr rfl)
  have hmain := (prune_detaches_no_edge "CD" [noMedia] _ (hrun₁.trans hrun)).1 ⟨.attached 0 0, onCd "2" "discogs"⟩
    ⟨rfl, rfl⟩ (.inr ⟨0, by rw [hattacher], by rw [hattacher]; exact List.mem_singleton_self _⟩)
  refine ⟨s, by rw [hwrite, hwrite₁, eq_nil_of_stale hstale hkept]; rfl, hmain.resolve_right fun hlost => ?_⟩
  exact absurd (stale_noMedia.mp hlost.2) (by decide)

/-- Of two writes of one release the second detaches what the first attached. -/
theorem own_edge_swept :
    ¬ ∀ (m : String) (rows : List SummaryRow) (edges : Option (List Edge)) (s : Race), Reachable m rows edges s →
      s.write = .committed true → ∀ i, (s.attachers i).outcome = .committed → ∀ r ∈ (s.attachers i).attached,
        IssuedTo m r → Has (s.store.committed (mediumKey m)) r := by
  intro hclaim
  have hstale : Stale [noMedia] (onCd "1" mediaSource) := stale_noMedia.mpr (by decide)
  obtain ⟨s₁, hrun₁, hwrite₁, hfree₁, hattacher₁, hmedium₁⟩ :=
    exists_attacher_alone [noMedia] (m := "CD") (s := .initial none) (i := 0) (onCd "1" mediaSource) rfl rfl (.inr rfl)
  obtain ⟨kept, s, hrun, hattachers, _, hkept, hwrite, hmedium⟩ :=
    exists_write_alone [noMedia] hwrite₁ hfree₁ hmedium₁
      (fun r hr r' hr' _ => (List.mem_singleton.mp hr).trans (List.mem_singleton.mp hr').symm)
      (fun r hr => by rw [List.mem_singleton.mp hr]; exact .inr rfl) ⟨_, List.mem_singleton_self _, hstale⟩
  rw [eq_nil_of_stale hstale hkept] at hwrite hmedium
  have hhas := hclaim "CD" [noMedia] none s (hrun₁.trans hrun) hwrite 0 (by rw [hattachers, hattacher₁])
    ⟨.attached 0 0, onCd "1" mediaSource⟩ (by rw [hattachers, hattacher₁]; exact List.mem_singleton_self _) ⟨rfl, rfl⟩
  obtain ⟨_, heq, _⟩ := hhas
  rw [hmedium] at heq
  cases heq

end ConcurrentPrune

end Brainzgraphinator
