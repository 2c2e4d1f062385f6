-- SUMMARY: Over any run, a release shows the media of the last of its records that says anything about media.
import Brainzgraphinator.Projections.LastWriter
import Brainzgraphinator.Projections.ReplayGate
import Brainzgraphinator.Projections.Vocabulary

/-!
# The media of a release over a run

A transaction has one record of its own for a release, the last that names it. In a run
of transactions of all types the release goes through these records one by one
(`InOrder`), the replay gate notwithstanding, so its media are those of the last of them
with a block. The records that a later one of the same flush superseded do not count,
whatever media they listed.
-/

namespace Brainzgraphinator

open PropertyGraph (SameOn)

/-- The release's own records of the transactions: in each the last that names it. -/
def ownRecords (rt : Runtime) (id : String) (transactions : List Transaction) : List Dict :=
  transactions.filterMap fun tx => lastOf rt "discogs_release_id" tx.records id

variable {rt : Runtime} {gate : Bool} {g g' : Graph} {id : String} {transactions : List Transaction}

theorem ownRecords_cons (rt : Runtime) (id : String) (tx : Transaction) (transactions : List Transaction) :
    ownRecords rt id (tx :: transactions) = ownRecords rt id [tx] ++ ownRecords rt id transactions :=
  List.filterMap_append (l := [tx])

theorem ownRecords_singleton (rt : Runtime) (id : String) (tx : Transaction) :
    ownRecords rt id [tx] = (lastOf rt "discogs_release_id" tx.records id).toList := by
  rw [ownRecords]
  cases h : lastOf rt "discogs_release_id" tx.records id with
  | none => rw [List.filterMap_cons_none (by exact h), List.filterMap_nil, Option.toList_none]
  | some record => rw [List.filterMap_cons_some (by exact h), List.filterMap_nil, Option.toList_some]

theorem execute_releaseWrite {tx : Transaction} (htype : tx.type = .releases) {tx' : Tx} {flags : List Bool}
    (h : tx.execute rt gate g = .ok (tx', flags)) : ReleaseWrite rt gate tx.now tx.records g tx'.graph :=
  (execute_writesReleases htype h).releaseWrite

/-! ## What other types leave alone -/

theorem issuedQtys_of_sameOn (h : SameOn (ownPart (some .releases)) g' g) (id : String) (d : NodeKey) :
    issuedQtys g' (releaseKey id) d = issuedQtys g (releaseKey id) d := by
  rw [issuedQtys, issuedQtys, h.filter_eq fun e he => ?_]
  simp only [mbIssued, decide_eq_true_eq] at he
  exact has_iff.mpr (relsOwner_of_src (by rw [he.2.1]; rfl))

theorem releaseView_of_sameOn (h : SameOn (ownPart (some .releases)) g' g) (id : String) :
    releaseView g' id = releaseView g id := by
  rw [releaseView, releaseView, h.node (releaseKey id) rfl]
  simp only [issuedQtys_of_sameOn h]

theorem GateInvariant.of_sameOn (hinv : GateInvariant rt g) (h : SameOn (ownPart (some .releases)) g' g) :
    GateInvariant rt g' where
  stored id v hv := hinv.stored id v (by rwa [releaseView_of_sameOn h] at hv)
  single id d := by
    rw [issuedQtys_of_sameOn h]
    exact hinv.single id d
  media id d hd := by
    rw [issuedQtys_of_sameOn h]
    exact hinv.media id d hd

theorem execute_foreign {tx : Transaction} (htype : tx.type ≠ .releases) {tx' : Tx} {flags : List Bool}
    (h : tx.execute rt gate g = .ok (tx', flags)) : SameOn (ownPart (some .releases)) tx'.graph g :=
  execute_outside (fun heq => htype (Option.some.inj heq)) h

theorem execute_gateInvariant (hinj : Function.Injective rt.hexdigest) (hinv : GateInvariant rt g)
    {tx : Transaction} {tx' : Tx} {flags : List Bool} (h : tx.execute rt gate g = .ok (tx', flags)) :
    GateInvariant rt tx'.graph := by
  by_cases htype : tx.type = .releases
  · exact hinv.releaseWrite hinj (execute_releaseWrite htype h)
  · exact hinv.of_sameOn (execute_foreign htype h)

/-! ## The release's own records, one by one -/

/-- A transaction of releases takes the release one record of its own further, if it has one. -/
theorem inOrder_execute (hinj : Function.Injective rt.hexdigest) {records : List Dict} {o : Option ReleaseView}
    (hin : Option.Rel (InOrder rt records id) o (releaseView g id)) (hstored : ∀ v, o = some v → Stored rt v)
    {tx : Transaction} (htype : tx.type = .releases) {tx' : Tx} {flags : List Bool}
    (h : tx.execute rt gate g = .ok (tx', flags)) :
    Option.Rel (InOrder rt (records ++ ownRecords rt id [tx]) id) o (releaseView tx'.graph id) := by
  have hview := (execute_releaseWrite htype h).releaseView id
  rw [ownRecords_singleton]
  cases hlast : lastOf rt "discogs_release_id" tx.records id with
  | none =>
    rw [hlast] at hview
    rw [Option.toList_none, List.append_nil, show releaseView tx'.graph id = releaseView g id from hview]
    exact hin
  | some record =>
    rw [hlast] at hview
    obtain ⟨row, hproj, hview⟩ := hview
    have hid : discogsId rt "discogs_release_id" record = some id := by
      have hfound := List.find?_some hlast
      exact of_decide_eq_true hfound
    rw [hview, Option.toList_some]
    generalize releaseView g id = v at hin
    cases hin with
    | none => exact .none
    | some hin => exact .some (hin.project hinj (hstored _ rfl) hid hproj)

variable (gate) in
theorem inOrder_run (hinj : Function.Injective rt.hexdigest) {records : List Dict} {o : Option ReleaseView}
    (hin : Option.Rel (InOrder rt records id) o (releaseView g id)) (hstored : ∀ v, o = some v → Stored rt v)
    (transactions : List Transaction) :
    Option.Rel (InOrder rt (records ++ ownRecords rt id (commits rt gate .releases g transactions)) id) o
      (releaseView ((catalog rt gate).run g transactions) id) := by
  refine commits_induction (P := fun g later g' => ∀ records, Option.Rel (InOrder rt records id) o (releaseView g id) →
    Option.Rel (InOrder rt (records ++ ownRecords rt id later) id) o (releaseView g' id)) (t := .releases)
    ?_ ?_ ?_ g transactions records hin
  · intro g records h
    rwa [ownRecords, List.filterMap_nil, List.append_nil]
  · intro g tx tx' flags later g' htype hexec ih records h
    have hnext := ih _ (inOrder_execute hinj h hstored htype hexec)
    rwa [List.append_assoc, ← ownRecords_cons] at hnext
  · intro g tx tx' flags later g' htype hexec ih records h
    refine ih records ?_
    rw [releaseView_of_sameOn (execute_foreign htype hexec)]
    exact h

/-! ## The media -/

/-- What a block says of the quantities to every medium, when no two edges are parallel. -/
theorem GateInvariant.issuedQtys_of_shows (hinv : GateInvariant rt g) {v : ReleaseView}
    (hv : releaseView g id = some v) {block : MediaBlock} (h : Shows rt block v) (d : NodeKey) :
    issuedQtys g (releaseKey id) d =
      ((mediaEdgeRows rt block).filter fun r => mediumKey r.medium = d).map fun r => .int r.qty := by
  by_cases hd : d.label = .medium
  · obtain ⟨_, m⟩ := d
    cases hd
    have hmedia := h.media m
    rw [← (releaseView_eq_some.mp hv).2 m] at hmedia
    have heq := eq_of_mem_iff (hinv.single id (mediumKey m)) (mediaEdgeRows_nodup rt block) hmedia
    simpa [mediumKey] using heq
  · rw [hinv.media id d hd]
    have hnone : ∀ r ∈ mediaEdgeRows rt block, ¬mediumKey r.medium = d := by
      rintro r _ rfl
      exact hd rfl
    rw [List.filter_eq_nil_iff.mpr (by simpa using hnone)]
    rfl

/-- The same media are the same quantities, when no two edges are parallel. -/
theorem GateInvariant.issuedQtys_of_sameMedia (hinv : GateInvariant rt g) (hinv' : GateInvariant rt g')
    {v v' : ReleaseView} (hv : releaseView g id = some v) (hv' : releaseView g' id = some v')
    (h : SameMedia v v') (d : NodeKey) : issuedQtys g' (releaseKey id) d = issuedQtys g (releaseKey id) d := by
  by_cases hd : d.label = .medium
  · obtain ⟨_, m⟩ := d
    cases hd
    have hmem : ∀ q, q ∈ issuedQtys g (releaseKey id) (mediumKey m) ↔ q ∈ issuedQtys g' (releaseKey id) (mediumKey m) := by
      intro q
      rw [(releaseView_eq_some.mp hv).2 m, (releaseView_eq_some.mp hv').2 m]
      exact h.media m q
    have hsingle := hinv.single id (mediumKey m)
    have hsingle' := hinv'.single id (mediumKey m)
    change issuedQtys g' (releaseKey id) (mediumKey m) = issuedQtys g (releaseKey id) (mediumKey m)
    generalize issuedQtys g (releaseKey id) (mediumKey m) = qtys at hmem hsingle
    generalize issuedQtys g' (releaseKey id) (mediumKey m) = qtys' at hmem hsingle'
    rcases qtys with _ | ⟨q, _ | ⟨_, _⟩⟩
    · exact List.eq_nil_iff_forall_not_mem.mpr fun q hq => List.not_mem_nil ((hmem q).mpr hq)
    · have hq := (hmem q).mp List.mem_cons_self
      rcases qtys' with _ | ⟨q', _ | ⟨_, _⟩⟩
      · exact absurd hq List.not_mem_nil
      · rw [List.mem_singleton.mp hq]
      · exact absurd hsingle' (by simp)
    · exact absurd hsingle (by simp)
  · rw [hinv.media id d hd, hinv'.media id d hd]

/-- However the types' transactions interleave, whichever are rolled back and whatever the
gate skips: a release has the summary and the musicbrainz edges of the last block among
its own records, and keeps those it had as long as there is none. -/
theorem media_last_writer (hinj : Function.Injective rt.hexdigest) (hinv : GateInvariant rt g)
    (transactions : List Transaction) (id : String) {n : Props}
    (hnode : ((catalog rt gate).run g transactions).node (releaseKey id) = some n) :
    (∀ block, lastBlockOf rt (ownRecords rt id (commits rt gate .releases g transactions)) id = some block →
      n "mb_media_families" = strings (rt.familiesOf block) ∧ n "mb_medium_count" = .int (mediumCount block) ∧
        ∀ d, issuedQtys ((catalog rt gate).run g transactions) (releaseKey id) d =
          ((mediaEdgeRows rt block).filter fun r => mediumKey r.medium = d).map fun r => .int r.qty) ∧
    (lastBlockOf rt (ownRecords rt id (commits rt gate .releases g transactions)) id = none →
      ∃ n₀, g.node (releaseKey id) = some n₀ ∧ (∀ key ∈ summaryProps, n key = n₀ key) ∧
        ∀ d, issuedQtys ((catalog rt gate).run g transactions) (releaseKey id) d = issuedQtys g (releaseKey id) d) := by
  have hinv' : GateInvariant rt ((catalog rt gate).run g transactions) :=
    catalog_run_keeps (P := GateInvariant rt) (fun g tx tx' flags h hexec => execute_gateInvariant hinj h hexec) hinv
      transactions
  have hview : releaseView ((catalog rt gate).run g transactions) id =
      some ⟨n, fun m => issuedQtys ((catalog rt gate).run g transactions) (releaseKey id) (mediumKey m)⟩ := by
    rw [releaseView, hnode, Option.map_some]
  have hstart : Option.Rel (InOrder rt [] id) (releaseView g id) (releaseView g id) := by
    cases releaseView g id with
    | none => exact .none
    | some v => exact .some (.nil id v)
  have hin := inOrder_run gate hinj hstart (hinv.stored id) transactions
  rw [List.nil_append, hview] at hin
  cases hview₀ : releaseView g id with
  | none =>
    rw [hview₀] at hin
    cases hin
  | some v₀ =>
    rw [hview₀] at hin
    cases hin with
    | some hin =>
      refine ⟨fun block hblock => ?_, fun hnone => ?_⟩
      · have hshows := hin.block block hblock
        exact ⟨hshows.families, hshows.count, hinv'.issuedQtys_of_shows hview hshows⟩
      · have hsame := hin.media hnone
        refine ⟨v₀.props, (releaseView_eq_some.mp hview₀).1, fun key hkey => (hsame.summary key hkey).symm, ?_⟩
        exact hinv.issuedQtys_of_sameMedia hinv' hview₀ hview hsame

/-- The record with media and the one without, in two flushes and in one. -/
theorem media_last_writer_bareRelease :
    (∀ n, ((catalog plainRuntime true).run bareRelease
        [⟨.releases, .str "first", .message mediaRecord⟩,
          ⟨.artists, .str "second", .batch [[("discogs_artist_id", .int 1)]]⟩,
          ⟨.releases, .str "third", .batch [mediaLessRecord]⟩]).node (releaseKey "1") = some n →
      n "mb_medium_count" = .int 1) ∧
    ∀ n, ((catalog plainRuntime true).run bareRelease
        [⟨.releases, .str "first", .batch [mediaRecord, mediaLessRecord]⟩]).node (releaseKey "1") = some n →
      n "mb_medium_count" = .null := by
  have hstart : GateInvariant plainRuntime bareRelease := by
    refine .start ⟨fun id n hn key _ => ?_, fun e he => by cases he⟩
    simp only [bareRelease, Option.ite_none_right_eq_some, Option.some.injEq] at hn
    rw [← hn.2]
    rfl
  refine ⟨fun n hn => ?_, fun n hn => ?_⟩
  · obtain ⟨block, hblock, hcount⟩ := Option.map_eq_some_iff.mp
      (show (lastBlockOf plainRuntime (ownRecords plainRuntime "1" (commits plainRuntime true .releases bareRelease
        [⟨.releases, .str "first", .message mediaRecord⟩,
          ⟨.artists, .str "second", .batch [[("discogs_artist_id", .int 1)]]⟩,
          ⟨.releases, .str "third", .batch [mediaLessRecord]⟩])) "1").map mediumCount = some 1 by decide +kernel)
    rw [((media_last_writer plainRuntime_injective hstart _ "1" hn).1 block hblock).2.1, hcount]
    rfl
  · obtain ⟨n₀, hn₀, hsame, _⟩ := (media_last_writer plainRuntime_injective hstart _ "1" hn).2 (by
      rw [← Option.map_eq_none_iff (f := mediumCount)]
      decide +kernel)
    rw [hsame _ (by decide)]
    simp only [bareRelease, Option.ite_none_right_eq_some, Option.some.injEq] at hn₀
    rw [← hn₀.2]
    rfl

end Brainzgraphinator
