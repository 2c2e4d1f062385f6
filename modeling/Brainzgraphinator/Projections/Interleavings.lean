-- SUMMARY: Whatever the order in which transactions of different entity types commit, no type can tell.
import Brainzgraphinator.Projections.BatchFallback
import Brainzgraphinator.Projections.Isolation
import Brainzgraphinator.Projections.UsedMedia

/-!
# Interleavings

The service writes the four entity types from tasks of their own: a flush in one
transaction, or its records one by one, while the other types' transactions commit in
between. `catalog` is the graph with its transactions in the order of their commits.

No type sees what the others do, so the order in which their transactions commit
settles nothing, and a flush may be thought of as running at once.
-/

namespace Brainzgraphinator

open PropertyGraph (SameOn)

/-! ## Transactions -/

inductive Work where
  /-- One record on its own. -/
  | message (record : Dict)
  | batch (records : List Dict)

def Work.records : Work → List Dict
  | .message record => [record]
  | .batch records => records

/-- What a transaction is to write, with the time stamp it writes. -/
structure Transaction where
  type : EntityType
  now : Json
  work : Work

def Transaction.records (t : Transaction) : List Dict := t.work.records

variable (rt : Runtime) (gate : Bool)

/-- The transaction as it is to commit, and what it tells of each record. -/
def Transaction.execute (t : Transaction) (g : Graph) : Except Failure (Tx × List Bool) :=
  match t.work with
  | .message record => do
    let (tx, matched) ← writeOne rt gate t.now t.type record g
    return (tx, [matched])
  | .batch records => batchProjections rt gate t.now t.type records ⟨g, {}⟩

/-- A transaction commits and answers with its counters, or is rolled back with its error. -/
def commit (g : Graph) : Except Failure (Tx × List Bool) → Graph × Except Failure (Stats × List Bool)
  | .ok (tx, flags) => (tx.graph, .ok (tx.stats, flags))
  | .error error => (g, .error error)

def catalog : Unwinding.Machine Graph Transaction (Except Failure (Stats × List Bool)) (Option EntityType) where
  step g t := commit g (t.execute rt gate g)
  domain t := some t.type
  view d := SameOn (ownPart d)

/-! ## One transaction -/

section Execute

variable {rt gate} {now : Json} {t : EntityType} {d : Option EntityType} {tx tx' : Tx} {record : Dict}
  {records : List Dict} {g g' : Graph}

theorem processors_agree (h : SameTx (some t) tx tx') :
    Except.Agree (SameTx (some t)) (processors rt gate now t record tx) (processors rt gate now t record tx') := by
  cases t with
  | artists =>
    refine (enrichNode_agree artistSpec rfl record h).bind ?_
    rintro ⟨tx₁, matched⟩ ⟨tx₁', _⟩ ⟨htx, rfl⟩
    rcases matched with _ | ⟨id, changed⟩
    · exact .ok htx
    · dsimp only
      split
      · refine (Except.Agree.refl _).bind ?_
        rintro relations _ rfl
        exact createRelationshipEdges_agree relations htx
      · exact .ok htx
  | labels =>
    refine (enrichNode_agree labelSpec rfl record h).bind ?_
    rintro ⟨tx₁, matched⟩ ⟨tx₁', _⟩ ⟨htx, rfl⟩
    exact .ok htx
  | releaseGroups =>
    refine (enrichNode_agree releaseGroupSpec rfl record h).bind ?_
    rintro ⟨tx₁, matched⟩ ⟨tx₁', _⟩ ⟨htx, rfl⟩
    exact .ok htx
  | releases =>
    refine (enrichNode_agree (releaseSpec rt) rfl record h).bind ?_
    rintro ⟨tx₁, matched⟩ ⟨tx₁', _⟩ ⟨htx, rfl⟩
    rcases matched with _ | ⟨id, _ | _⟩
    · exact .ok htx
    · exact .ok htx
    · refine (reconcileReleaseMedia_agree id record htx.graph).bind ?_
      intro g g' hgraph
      exact .ok ⟨hgraph, htx.stats⟩

theorem processors_outside (hd : some t ≠ d) (h : processors rt gate now t record tx = .ok tx') :
    SameOn (ownPart d) tx'.graph tx.graph := by
  cases t with
  | artists =>
    obtain ⟨⟨tx₁, matched⟩, hnode, h⟩ := Except.bind_eq_ok.mp h
    have hgated := enrichNode_outside artistSpec hd hnode
    rcases matched with _ | ⟨id, changed⟩
    · cases h
      exact hgated
    · dsimp only at h
      split at h
      · obtain ⟨relations, _, h⟩ := Except.bind_eq_ok.mp h
        exact (createRelationshipEdges_outside hd.symm h).trans hgated
      · cases h
        exact hgated
  | labels =>
    obtain ⟨⟨tx₁, matched⟩, hnode, h⟩ := Except.bind_eq_ok.mp h
    cases h
    exact enrichNode_outside labelSpec hd hnode
  | releaseGroups =>
    obtain ⟨⟨tx₁, matched⟩, hnode, h⟩ := Except.bind_eq_ok.mp h
    cases h
    exact enrichNode_outside releaseGroupSpec hd hnode
  | releases =>
    obtain ⟨⟨tx₁, matched⟩, hnode, h⟩ := Except.bind_eq_ok.mp h
    have hgated := enrichNode_outside (releaseSpec rt) hd hnode
    rcases matched with _ | ⟨id, _ | _⟩
    · cases h
      exact hgated
    · cases h
      exact hgated
    · obtain ⟨g, hmedia, h⟩ := Except.bind_eq_ok.mp h
      cases h
      exact (reconcileReleaseMedia_outside hd.symm hmedia).trans hgated

variable (rt gate now records) in
theorem batchProjections_agree (h : SameTx (some t) tx tx') :
    Except.Agree (fun r r' => SameTx (some t) r.1 r'.1 ∧ r.2 = r'.2) (batchProjections rt gate now t records tx)
      (batchProjections rt gate now t records tx') := by
  cases t with
  | artists =>
    refine (runEntityBatch_agree artistSpec rfl true records h).bind ?_
    rintro ⟨tx₁, outcomes⟩ ⟨tx₁', _⟩ ⟨htx, rfl⟩
    refine (Except.Agree.refl _).bind ?_
    rintro work _ rfl
    refine (projectRelations_agree work htx).bind ?_
    intro tx₂ tx₂' htx₂
    exact .ok ⟨htx₂, rfl⟩
  | labels =>
    refine (runEntityBatch_agree labelSpec rfl false records h).bind ?_
    rintro ⟨tx₁, outcomes⟩ ⟨tx₁', _⟩ ⟨htx, rfl⟩
    exact .ok ⟨htx, rfl⟩
  | releaseGroups =>
    refine (runEntityBatch_agree releaseGroupSpec rfl false records h).bind ?_
    rintro ⟨tx₁, outcomes⟩ ⟨tx₁', _⟩ ⟨htx, rfl⟩
    exact .ok ⟨htx, rfl⟩
  | releases =>
    refine (runEntityBatch_agree (releaseSpec rt) rfl false records h).bind ?_
    rintro ⟨tx₁, outcomes⟩ ⟨tx₁', _⟩ ⟨htx, rfl⟩
    refine (reconcileBatch_agree _ _ htx.graph).bind ?_
    intro g g' hgraph
    exact .ok ⟨⟨hgraph, htx.stats⟩, rfl⟩

theorem batchProjections_outside (hd : some t ≠ d) {flags : List Bool}
    (h : batchProjections rt gate now t records tx = .ok (tx', flags)) : SameOn (ownPart d) tx'.graph tx.graph := by
  cases t with
  | artists =>
    obtain ⟨⟨tx₁, outcomes⟩, hrun, h⟩ := Except.bind_eq_ok.mp h
    obtain ⟨work, _, h⟩ := Except.bind_eq_ok.mp h
    obtain ⟨tx₂, hproject, h⟩ := Except.bind_eq_ok.mp h
    cases h
    exact (projectRelations_outside hd.symm hproject).trans (runEntityBatch_outside artistSpec hd hrun)
  | labels =>
    obtain ⟨⟨tx₁, outcomes⟩, hrun, h⟩ := Except.bind_eq_ok.mp h
    cases h
    exact runEntityBatch_outside labelSpec hd hrun
  | releaseGroups =>
    obtain ⟨⟨tx₁, outcomes⟩, hrun, h⟩ := Except.bind_eq_ok.mp h
    cases h
    exact runEntityBatch_outside releaseGroupSpec hd hrun
  | releases =>
    obtain ⟨⟨tx₁, outcomes⟩, hrun, h⟩ := Except.bind_eq_ok.mp h
    obtain ⟨g, hmedia, h⟩ := Except.bind_eq_ok.mp h
    cases h
    exact (reconcileBatch_outside hd.symm hmedia).trans (runEntityBatch_outside (releaseSpec rt) hd hrun)

variable (rt gate now record) in
theorem writeOne_agree (h : SameOn (ownPart (some t)) g g') :
    Except.Agree (fun r r' => SameTx (some t) r.1 r'.1 ∧ r.2 = r'.2) (writeOne rt gate now t record g)
      (writeOne rt gate now t record g') := by
  have hstart : SameTx (some t) ⟨g, {}⟩ ⟨g', {}⟩ := ⟨h, rfl⟩
  refine (processors_agree hstart).bind ?_
  intro tx tx' htx
  exact .ok ⟨htx, by rw [htx.stats]⟩

theorem writeOne_outside (hd : some t ≠ d) {matched : Bool} (h : writeOne rt gate now t record g = .ok (tx', matched)) :
    SameOn (ownPart d) tx'.graph g := by
  obtain ⟨tx, hrun, h⟩ := Except.bind_eq_ok.mp h
  cases h
  exact processors_outside hd hrun

variable (rt gate) in
theorem execute_agree (t : Transaction) (h : SameOn (ownPart (some t.type)) g g') :
    Except.Agree (fun r r' => SameTx (some t.type) r.1 r'.1 ∧ r.2 = r'.2) (t.execute rt gate g)
      (t.execute rt gate g') := by
  obtain ⟨type, now, record | records⟩ := t
  · refine (writeOne_agree rt gate now record h).bind ?_
    rintro ⟨tx, matched⟩ ⟨tx', _⟩ ⟨htx, rfl⟩
    exact .ok ⟨htx, rfl⟩
  · exact batchProjections_agree rt gate now records ⟨h, rfl⟩

theorem execute_outside {t : Transaction} (hd : some t.type ≠ d) {flags : List Bool}
    (h : t.execute rt gate g = .ok (tx', flags)) : SameOn (ownPart d) tx'.graph g := by
  obtain ⟨type, now, record | records⟩ := t
  · obtain ⟨⟨tx, matched⟩, hwrite, h⟩ := Except.bind_eq_ok.mp h
    cases h
    exact writeOne_outside hd hwrite
  · exact batchProjections_outside hd h

end Execute

/-! ## Any order of transactions -/

theorem catalog_separated : (catalog rt gate).Separated where
  equivalence d := SameOn.equivalence (ownPart d)
  respects g t d hd := by
    change SameOn (ownPart d) (commit g (t.execute rt gate g)).1 g
    cases hexec : t.execute rt gate g with
    | error error => exact .refl g
    | ok r => exact execute_outside hd hexec
  consistent g g' t hview := by
    have hagree := execute_agree rt gate t hview
    change (commit g (t.execute rt gate g)).2 = (commit g' (t.execute rt gate g')).2 ∧
      SameOn (ownPart (some t.type)) (commit g (t.execute rt gate g)).1 (commit g' (t.execute rt gate g')).1
    revert hagree
    generalize t.execute rt gate g = x
    generalize t.execute rt gate g' = x'
    intro hagree
    cases hagree with
    | error error => exact ⟨rfl, hview⟩
    | ok h =>
      refine ⟨?_, h.1.graph⟩
      rw [commit, commit, h.1.stats, h.2]

/-- A type's transactions are answered as if the others' had not run, and leave what
the type owns as if they had not. -/
theorem type_isolated (t : EntityType) (g : Graph) (transactions : List Transaction) :
    (catalog rt gate).answers (some t) g transactions =
        (catalog rt gate).answers (some t) g (transactions.filter fun tx => tx.type = t) ∧
      SameOn (ownPart (some t)) ((catalog rt gate).run g transactions)
        ((catalog rt gate).run g (transactions.filter fun tx => tx.type = t)) := by
  have hown : (catalog rt gate).actionsOf (some t) transactions = transactions.filter fun tx => tx.type = t :=
    List.filter_congr fun tx _ => decide_eq_decide.mpr Option.some_inj
  rw [← hown]
  exact (catalog_separated rt gate).purge (.refl g) transactions

variable {rt gate}

/-- Graphs that are the same to every type and to none have the same nodes, and the
same relationships in some order. -/
theorem eq_of_sameOn {g g' : Graph} (h : ∀ d, SameOn (ownPart d) g g') : g.node = g'.node ∧ g.rels.Perm g'.rels :=
  ⟨funext fun k => (h k.label.owner).node k rfl, SameOn.perm_of_filter_eq fun d => (h d).rels⟩

/-- Two interleavings of the same transactions of each type give every type the same
answers, and leave the same graph. -/
theorem interleavings_agree {transactions transactions' : List Transaction}
    (hsame : ∀ t : EntityType, (transactions.filter fun tx => tx.type = t) =
      transactions'.filter fun tx => tx.type = t) (g : Graph) :
    (∀ t : EntityType, (catalog rt gate).answers (some t) g transactions =
        (catalog rt gate).answers (some t) g transactions') ∧
      ((catalog rt gate).run g transactions).node = ((catalog rt gate).run g transactions').node ∧
      ((catalog rt gate).run g transactions).rels.Perm ((catalog rt gate).run g transactions').rels := by
  have hown : ∀ (d : Option EntityType), (catalog rt gate).actionsOf d transactions =
      (catalog rt gate).actionsOf d transactions' := by
    intro d
    cases d with
    | none =>
      have hnone : ∀ txs, (catalog rt gate).actionsOf none txs = [] :=
        fun txs => List.filter_eq_nil_iff.mpr fun tx _ hdomain => Option.some_ne_none _ (of_decide_eq_true hdomain)
      rw [hnone, hnone]
    | some t =>
      have hsome : ∀ txs, (catalog rt gate).actionsOf (some t) txs = txs.filter fun tx => tx.type = t :=
        fun txs => List.filter_congr fun tx _ => decide_eq_decide.mpr Option.some_inj
      rw [hsome, hsome, hsame t]
  have hagree := fun d => (catalog_separated rt gate).agree (.refl g) (hown d)
  exact ⟨fun t => (hagree (some t)).1, eq_of_sameOn fun d => (hagree d).2⟩

/-- A release and an artist, in both orders. -/
theorem interleavings_agree_opticalDisc :
    let release : Transaction := ⟨.releases, .str "first", .message discRecord⟩
    let artist : Transaction := ⟨.artists, .str "second", .batch [[("discogs_artist_id", .int 1)]]⟩
    let catalog := catalog plainRuntime true
    (∀ t : EntityType, catalog.answers (some t) opticalDisc [release, artist] =
        catalog.answers (some t) opticalDisc [artist, release]) ∧
      (catalog.run opticalDisc [release, artist]).node = (catalog.run opticalDisc [artist, release]).node ∧
      (catalog.run opticalDisc [release, artist]).rels.Perm (catalog.run opticalDisc [artist, release]).rels := by
  intro release artist catalog
  refine interleavings_agree (fun t => ?_) opticalDisc
  cases t <;> rfl

/-! ## A flush amid the transactions of the others -/

section Flush

variable (rt : Runtime) (gate : Bool) (t : EntityType)

/-- The replay of `replayAll`; `others k` is what commits before the `k`-th record's own write. -/
def replayAmid (clock : Nat → Json) (others : Nat → List Transaction) :
    List (Dict × Nat) → Graph → Graph × List (Except Failure Bool)
  | [], g => (g, [])
  | r :: rs, g =>
    let g := (catalog rt gate).run g (others r.2)
    match writeOne rt gate (clock r.2) t r.1 g with
    | .error error =>
      let (g, answers) := replayAmid clock others rs g
      (g, .error error :: answers)
    | .ok (tx, matched) =>
      let (g, answers) := replayAmid clock others rs tx.graph
      (g, .ok matched :: answers)

/-- `_write` as it runs beside the flushes of the other types; `before` is what commits
before the batch transaction. -/
def writeBatchAmid (now : Json) (clock : Nat → Json) (before : List Transaction)
    (others : Nat → List Transaction) (records : List Dict) (g : Graph) :
    Graph × List (Except Failure Bool) :=
  let g := (catalog rt gate).run g before
  match batchProjections rt gate now t records ⟨g, {}⟩ with
  | .ok (tx, flags) => (tx.graph, flags.map .ok)
  | .error error =>
    if records.length = 1 then (g, records.map fun _ => .error error)
    else replayAmid rt gate t clock others records.zipIdx g

variable {rt gate t}

variable (rt gate) in
/-- What the others commit in between is nothing to the type. -/
theorem run_others {others : List Transaction} (hothers : ∀ tx ∈ others, tx.type ≠ t) (g : Graph) :
    SameOn (ownPart (some t)) ((catalog rt gate).run g others) g := by
  induction others generalizing g with
  | nil => exact .refl g
  | cons tx others ih =>
    have hforeign : some tx.type ≠ some t := fun heq => hothers tx List.mem_cons_self (Option.some.inj heq)
    exact (ih (fun tx htx => hothers tx (List.mem_cons_of_mem _ htx)) _).trans
      ((catalog_separated rt gate).respects g tx (some t) hforeign)

theorem replayAmid_agree {clock : Nat → Json} {others : Nat → List Transaction}
    (hothers : ∀ k, ∀ tx ∈ others k, tx.type ≠ t) (rs : List (Dict × Nat)) {g g' : Graph}
    (h : SameOn (ownPart (some t)) g g') :
    SameOn (ownPart (some t)) (replayAmid rt gate t clock others rs g).1 (replayAll rt gate t clock rs g').1 ∧
      (replayAmid rt gate t clock others rs g).2 = (replayAll rt gate t clock rs g').2 := by
  induction rs generalizing g g' with
  | nil => exact ⟨h, rfl⟩
  | cons r rs ih =>
    have hview := (run_others rt gate (hothers r.2) g).trans h
    have hagree := writeOne_agree rt gate (clock r.2) r.1 hview
    unfold replayAmid replayAll
    dsimp only
    revert hagree
    generalize writeOne rt gate (clock r.2) t r.1 ((catalog rt gate).run g (others r.2)) = x
    generalize writeOne rt gate (clock r.2) t r.1 g' = x'
    intro hagree
    cases hagree with
    | error error =>
      obtain ⟨hgraph, hanswers⟩ := ih hview
      refine ⟨hgraph, ?_⟩
      dsimp only
      rw [hanswers]
    | ok hok =>
      obtain ⟨hgraph, hanswers⟩ := ih hok.1.graph
      refine ⟨hgraph, ?_⟩
      dsimp only
      rw [hok.2, hanswers]

/-- A flush between whose transactions those of other types commit resolves its
submits, and leaves what its type owns, as if it had run at once. -/
theorem writeBatch_amid {now : Json} {clock : Nat → Json} {before : List Transaction}
    {others : Nat → List Transaction} (hbefore : ∀ tx ∈ before, tx.type ≠ t)
    (hothers : ∀ k, ∀ tx ∈ others k, tx.type ≠ t) (records : List Dict) (g : Graph) :
    (writeBatchAmid rt gate t now clock before others records g).2 = (writeBatch rt gate t now clock records g).2 ∧
      SameOn (ownPart (some t)) (writeBatchAmid rt gate t now clock before others records g).1
        (writeBatch rt gate t now clock records g).1 := by
  have hview := run_others rt gate hbefore g
  have hstart : SameTx (some t) ⟨(catalog rt gate).run g before, {}⟩ ⟨g, {}⟩ := ⟨hview, rfl⟩
  have hagree := batchProjections_agree rt gate now records hstart
  unfold writeBatchAmid writeBatch
  dsimp only
  revert hagree
  generalize batchProjections rt gate now t records ⟨(catalog rt gate).run g before, {}⟩ = x
  generalize batchProjections rt gate now t records ⟨g, {}⟩ = x'
  intro hagree
  cases hagree with
  | error error =>
    dsimp only
    split
    · exact ⟨rfl, hview⟩
    · obtain ⟨hgraph, hanswers⟩ := replayAmid_agree hothers records.zipIdx hview
      exact ⟨hanswers, hgraph⟩
  | ok hok =>
    dsimp only
    rw [hok.2]
    exact ⟨rfl, hok.1.graph⟩

/-- Two releases flushed while an artist is written. -/
theorem writeBatch_amid_opticalDisc :
    let artist : Transaction := ⟨.artists, .str "now", .batch [[("discogs_artist_id", .int 1)]]⟩
    let flush := writeBatchAmid plainRuntime true .releases (.str "now") (fun _ => .str "later") [artist]
      (fun _ => [artist]) [noMediaRecord, discRecord] opticalDisc
    let alone := writeBatch plainRuntime true .releases (.str "now") (fun _ => .str "later")
      [noMediaRecord, discRecord] opticalDisc
    flush.2 = alone.2 ∧ SameOn (ownPart (some .releases)) flush.1 alone.1 := by
  intro artist flush alone
  have hartist : ∀ tx ∈ [artist], tx.type ≠ .releases := by
    intro tx htx
    rw [List.mem_singleton.mp htx]
    decide
  exact writeBatch_amid hartist (fun _ => hartist) _ _

end Flush

end Brainzgraphinator
