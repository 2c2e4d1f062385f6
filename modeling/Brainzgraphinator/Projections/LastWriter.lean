-- SUMMARY: Of the records of one id, a node carries the one whose transaction committed last, whatever commits in between.
import Brainzgraphinator.Projections.Interleavings

/-!
# The last writer

`commits` lists the transactions of a type that commit in a run, and `committed` their
records. An entity node carries the last of them that has its id, and a node none of
them names is as it was: the other types' transactions make no difference, nor does a
transaction that is rolled back.
-/

namespace Brainzgraphinator

open PropertyGraph (SameOn)

section Defs

variable (rt : Runtime) (gate : Bool)

/-- The transactions of the type that commit in a run from `g`, in this order. -/
def commits (t : EntityType) : Graph → List Transaction → List Transaction
  | _, [] => []
  | g, tx :: transactions =>
    let later := commits t ((catalog rt gate).step g tx).1 transactions
    if tx.type = t ∧ (tx.execute rt gate g).isOk then tx :: later else later

/-- Their records. -/
def committed (t : EntityType) (g : Graph) (transactions : List Transaction) : List Dict :=
  (commits rt gate t g transactions).flatMap Transaction.records

/-- To the type, the graph is one that entity writes of these records have led to. -/
def Reflects (t : EntityType) (records : List Dict) (g₀ g : Graph) : Prop :=
  ∃ g', EntityRun rt t records g₀ g' ∧ SameOn (ownPart (some t)) g g'

end Defs

variable {rt : Runtime} {gate : Bool} {t : EntityType} {records : List Dict} {g₀ g g' : Graph}

theorem EntityType.owner_kind (rt : Runtime) (t : EntityType) : (t.spec rt).kind.owner = some t := by
  cases t <;> rfl

theorem matchesNode_agree (h : SameOn (ownPart (some t)) g g') (record : Dict) :
    matchesNode rt t g record = matchesNode rt t g' record := by
  unfold matchesNode
  split
  · rfl
  · rename_i id _
    rw [h.node ⟨(t.spec rt).kind, id⟩ (t.owner_kind rt)]

/-! ## One transaction -/

/-- A committed transaction writes its records, and tells of each whether it has a node. -/
theorem execute_entityWrite {tx : Transaction} {tx' : Tx} {flags : List Bool}
    (h : tx.execute rt gate g = .ok (tx', flags)) :
    EntityWrite rt gate tx.now tx.type tx.records g tx'.graph ∧
      flags = tx.records.map (matchesNode rt tx.type g) := by
  obtain ⟨type, now, record | records⟩ := tx
  · obtain ⟨⟨one, matched⟩, hwrite, h⟩ := Except.bind_eq_ok.mp h
    obtain ⟨hentity, rfl, _⟩ := writeOne_spec hwrite
    cases h
    exact ⟨hentity, rfl⟩
  · exact ⟨batchProjections_entityWrite h, (batchProjections_counted h).1⟩

namespace Reflects

theorem refl (g : Graph) : Reflects rt t [] g g := ⟨g, .nil g, .refl g⟩

/-- What a type reads off the graph. -/
theorem matchesNode_eq (h : Reflects rt t records g₀ g) (record : Dict) :
    matchesNode rt t g record = matchesNode rt t g₀ record := by
  obtain ⟨g', hrun, hsame⟩ := h
  rw [matchesNode_agree hsame, hrun.matchesNode]

/-- A transaction of the type adds its records. -/
theorem own (h : Reflects rt t records g₀ g) (hinj : Function.Injective rt.hexdigest)
    (htruthful : TruthfulNodes rt t g₀) {tx : Transaction} (htype : tx.type = t) {tx' : Tx} {flags : List Bool}
    (hexec : tx.execute rt gate g = .ok (tx', flags)) : Reflects rt t (records ++ tx.records) g₀ tx'.graph := by
  obtain ⟨g', hrun, hsame⟩ := h
  subst htype
  -- The transaction does the same on the graph of the type's own writes.
  have hagree := execute_agree rt gate tx hsame
  rw [hexec] at hagree
  cases hexec' : tx.execute rt gate g' with
  | error error =>
    rw [hexec'] at hagree
    cases hagree
  | ok r =>
    rw [hexec'] at hagree
    cases hagree with
    | ok hok =>
      have hwrite := (execute_entityWrite hexec').1
      exact ⟨r.1.graph, hrun.trans (hwrite.run hinj (hrun.truthful htruthful)), hok.1.graph⟩

/-- A transaction of another type does nothing to what the type sees. -/
theorem foreign (h : Reflects rt t records g₀ g) {tx : Transaction} (htype : tx.type ≠ t) {tx' : Tx}
    {flags : List Bool} (hexec : tx.execute rt gate g = .ok (tx', flags)) :
    Reflects rt t records g₀ tx'.graph := by
  obtain ⟨g', hrun, hsame⟩ := h
  have hforeign : some tx.type ≠ some t := fun heq => htype (Option.some.inj heq)
  exact ⟨g', hrun, (execute_outside hforeign hexec).trans hsame⟩

/-- The nodes of the type after the records. -/
theorem node (h : Reflects rt t records g₀ g) (id : String) :
    (g.node ⟨(t.spec rt).kind, id⟩).isSome = (g₀.node ⟨(t.spec rt).kind, id⟩).isSome ∧
      (∀ record n, lastOf rt (t.spec rt).idKey records id = some record →
        g.node ⟨(t.spec rt).kind, id⟩ = some n → Carries rt (t.spec rt) record n) ∧
      (lastOf rt (t.spec rt).idKey records id = none → ∀ key ∈ (t.spec rt).fields.map Prod.fst ++ stamps,
        (g.node ⟨(t.spec rt).kind, id⟩).map (· key) = (g₀.node ⟨(t.spec rt).kind, id⟩).map (· key)) := by
  obtain ⟨g', hrun, hsame⟩ := h
  have hnode := hsame.node ⟨(t.spec rt).kind, id⟩ (t.owner_kind rt)
  rw [hnode]
  exact ⟨hrun.isSome_node _ (t.fixes_kind rt), fun record n => hrun.carries id record n, hrun.unnamed id⟩

end Reflects

/-! ## A run -/

/-- What holds of a run by its first transaction: one of the type that commits, one of
another type that does, or one that is rolled back. -/
theorem commits_induction {P : Graph → List Transaction → Graph → Prop} {t : EntityType}
    (hnil : ∀ g, P g [] g)
    (hown : ∀ g (tx : Transaction) tx' flags later g', tx.type = t → tx.execute rt gate g = .ok (tx', flags) →
      P tx'.graph later g' → P g (tx :: later) g')
    (hforeign : ∀ g (tx : Transaction) tx' flags later g', tx.type ≠ t → tx.execute rt gate g = .ok (tx', flags) →
      P tx'.graph later g' → P g later g')
    (g : Graph) (transactions : List Transaction) :
    P g (commits rt gate t g transactions) ((catalog rt gate).run g transactions) := by
  induction transactions generalizing g with
  | nil => exact hnil g
  | cons tx transactions ih =>
    have hstep : ((catalog rt gate).step g tx).1 = (commit g (tx.execute rt gate g)).1 := rfl
    change P g _ ((catalog rt gate).run ((catalog rt gate).step g tx).1 transactions)
    rw [commits, hstep]
    cases hexec : tx.execute rt gate g with
    | error error =>
      have hnot : ¬(tx.type = t ∧ (Except.error error : Except Failure (Tx × List Bool)).isOk = true) := by
        rintro ⟨_, hok⟩
        cases hok
      rw [if_neg hnot]
      exact ih g
    | ok r =>
      by_cases htype : tx.type = t
      · rw [if_pos ⟨htype, rfl⟩]
        exact hown g tx r.1 r.2 _ _ htype hexec (ih r.1.graph)
      · rw [if_neg fun hown => htype hown.1]
        exact hforeign g tx r.1 r.2 _ _ htype hexec (ih r.1.graph)

theorem Reflects.run (hinj : Function.Injective rt.hexdigest) (htruthful : TruthfulNodes rt t g₀)
    (h : Reflects rt t records g₀ g) (transactions : List Transaction) :
    Reflects rt t (records ++ committed rt gate t g transactions) g₀ ((catalog rt gate).run g transactions) := by
  refine commits_induction (P := fun g later g' => ∀ records, Reflects rt t records g₀ g →
    Reflects rt t (records ++ later.flatMap Transaction.records) g₀ g') (t := t) ?_ ?_ ?_ g transactions records h
  · intro g records h
    rwa [List.flatMap_nil, List.append_nil]
  · intro g tx tx' flags later g' htype hexec ih records h
    rw [List.flatMap_cons, ← List.append_assoc]
    exact ih _ (h.own hinj htruthful htype hexec)
  · intro g tx tx' flags later g' htype hexec ih records h
    exact ih records (h.foreign htype hexec)

/-- However the types' transactions interleave and whichever of them are rolled back: an
entity node is there if it was, it carries the last committed record of its id, and it has
the properties it had if there is none. -/
theorem last_writer (hinj : Function.Injective rt.hexdigest) (htruthful : TruthfulNodes rt t g)
    (transactions : List Transaction) (id : String) :
    (((catalog rt gate).run g transactions).node ⟨(t.spec rt).kind, id⟩).isSome =
        (g.node ⟨(t.spec rt).kind, id⟩).isSome ∧
      (∀ record n, lastOf rt (t.spec rt).idKey (committed rt gate t g transactions) id = some record →
        ((catalog rt gate).run g transactions).node ⟨(t.spec rt).kind, id⟩ = some n →
          Carries rt (t.spec rt) record n) ∧
      (lastOf rt (t.spec rt).idKey (committed rt gate t g transactions) id = none →
        ∀ key ∈ (t.spec rt).fields.map Prod.fst ++ stamps,
          (((catalog rt gate).run g transactions).node ⟨(t.spec rt).kind, id⟩).map (· key) =
            (g.node ⟨(t.spec rt).kind, id⟩).map (· key)) :=
  ((Reflects.refl g).run hinj htruthful transactions).node id

set_option maxRecDepth 2000 in
/-- The same release twice, with an artist written in between. -/
theorem last_writer_bareRelease : ∃ n,
    ((catalog plainRuntime true).run bareRelease
      [⟨.releases, .str "first", .message mediaRecord⟩,
        ⟨.artists, .str "second", .batch [[("discogs_artist_id", .int 1)]]⟩,
        ⟨.releases, .str "third", .batch [mediaLessRecord]⟩]).node (releaseKey "1") = some n ∧
    Carries plainRuntime (releaseSpec plainRuntime) mediaLessRecord n := by
  have htruthful : TruthfulNodes plainRuntime .releases bareRelease := by
    intro id n hn
    simp only [bareRelease, Option.ite_none_right_eq_some, Option.some.injEq] at hn
    exact .inl (by rw [← hn.2]; rfl)
  obtain ⟨hpresent, hlast, _⟩ := @last_writer plainRuntime true .releases bareRelease plainRuntime_injective htruthful
    [⟨.releases, .str "first", .message mediaRecord⟩,
      ⟨.artists, .str "second", .batch [[("discogs_artist_id", .int 1)]]⟩,
      ⟨.releases, .str "third", .batch [mediaLessRecord]⟩] "1"
  have hthere : (bareRelease.node ⟨(EntityType.releases.spec plainRuntime).kind, "1"⟩).isSome = true := rfl
  obtain ⟨n, hn⟩ := Option.isSome_iff_exists.mp (hpresent.trans hthere)
  refine ⟨n, hn, hlast mediaLessRecord n ?_ hn⟩
  decide +kernel

end Brainzgraphinator
