-- SUMMARY: When a stored relations digest means that every relation is projected, over whole histories.
import Brainzgraphinator.Projections.ArtistHistory
import Brainzgraphinator.Projections.Serialization

/-!
# The relations gate over whole histories

A batch skips an artist's relations when their digest is stored, so the digest
must mean that each of them is an edge (`Told`). It does in every history whose
batches avoid two shapes: a record with an unresolved relation that parallel
edges make up for in the row count (`Masked`), and an id-less record behind the
last record of an artist whose id reads `None` (`NoneShadow`).
-/

namespace Brainzgraphinator

variable {rt : Runtime}

/-! ## What the gate trusts -/

/-- Every supported relation names a target, both artists exist and the edge is there. -/
def Told (rt : Runtime) (g : Graph) (owner : String) (relations : Json) : Prop :=
  ∀ relation ∈ relations.elems, ∀ type row?, supported rt owner relation = some (type, row?) →
    ∃ row, row? = some row ∧ bothSides g row = true ∧ HasEdge g type row

/-- The stored relations digest of every artist tells the truth. -/
def DigestsTold (rt : Runtime) (g : Graph) : Prop :=
  ∀ id n relations, g.node (artistKey id) = some n →
    n "mb_relations_hash" = payloadHash rt [relations] → Told rt g id relations

/-- The last record of every matched artist has its resolvable relations projected. -/
def LastProjected (rt : Runtime) (records : List Dict) (g g' : Graph) : Prop :=
  ∀ id record, (g.node (artistKey id)).isSome →
    lastOf rt "discogs_artist_id" records id = some record →
    ∀ relation ∈ (recordRelations record).elems, ∀ type row,
      supported rt id relation = some (type, some row) → bothSides g' row = true →
      HasEdge g' type row

/-! ## The two shapes -/

/-- Some relation is unresolved, but parallel edges return as many rows. -/
def Masked (rt : Runtime) (g : Graph) (record : Dict) : Prop :=
  Complete rt g record ∧
    ∃ relation ∈ (recordRelations record).elems,
      unresolved rt g (ownerText rt record) relation = true

/-- An id-less record follows the last record of the artist with the id `None`. -/
def NoneShadow (rt : Runtime) (records : List Dict) (g : Graph) : Prop :=
  (g.node (artistKey "None")).isSome ∧ ∃ r, lastRecord rt "discogs_artist_id" records "None" = some r ∧
    ∃ later ∈ records.drop (r.2 + 1), later.get "discogs_artist_id" = .null

/-- The batch has neither shape. -/
structure SafeBatch (rt : Runtime) (records : List Dict) (g : Graph) : Prop where
  masked : ∀ id record, (g.node (artistKey id)).isSome →
    lastOf rt "discogs_artist_id" records id = some record → ¬ Masked rt g record
  shadow : ¬ NoneShadow rt records g

/-! ## One write -/

theorem Told.grow {g g' : Graph} {owner : String} {relations : Json} (h : Told rt g owner relations)
    (hgrow : Grows g g') : Told rt g' owner relations := by
  intro relation hrel type row? hs
  obtain ⟨row, hrow, hboth, hedge⟩ := h relation hrel type row? hs
  exact ⟨row, hrow, hgrow.bothSides hboth, hgrow.edges type row hedge⟩

section Batch

variable {gate : Bool} {now : Json} {records : List Dict} {g g₁ g' : Graph}

/-- A selected record is the last one of its artist. -/
theorem Selects.lastRecord {r : Dict × Nat} (h : Selects rt gate records g r) :
    lastRecord rt "discogs_artist_id" records (ownerText rt r.1) = some r := by
  obtain ⟨_, _, hid, _⟩ := h.owner
  obtain ⟨last, hlast⟩ := exists_lastRecord h.1 hid
  obtain ⟨hmem, hidlast⟩ := lastRecord_mem hlast
  have htext : ownerText rt last.1 = ownerText rt r.1 := (discogsId_eq_some.mp hidlast).2
  rcases Nat.lt_trichotomy r.2 last.2 with hlt | heq | hlt
  · have hsup := superseded_of_lt h.1 hmem hlt htext
    rw [h.2.1] at hsup
    cases hsup
  · have hrec : r.1 = last.1 := by
      rw [← getD_of_mem_zipIdx h.1, ← getD_of_mem_zipIdx hmem, heq]
    rw [hlast, ← Prod.ext hrec heq]
  · have hdrop : r.1 ∈ records.drop (last.2 + 1) := by
      apply List.mem_of_getElem? (i := r.2 - (last.2 + 1))
      rw [List.getElem?_drop, Nat.add_sub_cancel' hlt]
      exact List.mk_mem_zipIdx_iff_getElem?.mp h.1
    exact absurd hid (not_mem_drop_lastRecord hlast hdrop)

/-- Only an id-less record can supersede the last record of an artist, and the
artist has the id `None` then. -/
theorem noneShadow_of_superseded {id : String} {r : Dict × Nat}
    (hlast : lastRecord rt "discogs_artist_id" records id = some r)
    (hnode : (g.node (artistKey id)).isSome) (hsup : superseded rt r.2 records = true) :
    id = "None" ∧ NoneShadow rt records g := by
  obtain ⟨hmem, hid⟩ := lastRecord_mem hlast
  simp only [superseded, getD_of_mem_zipIdx hmem, List.any_eq_true, decide_eq_true_eq] at hsup
  obtain ⟨later, hlater, htext⟩ := hsup
  rw [(discogsId_eq_some.mp hid).2] at htext
  by_cases hnull : later.get "discogs_artist_id" = .null
  · rw [hnull] at htext
    cases htext
    exact ⟨rfl, hnode, r, hlast, later, hlater, hnull⟩
  · exact absurd (discogsId_eq_some.mpr ⟨hnull, htext⟩) (not_mem_drop_lastRecord hlast hlater)

theorem not_superseded_lastRecord {id : String} {r : Dict × Nat}
    (hlast : lastRecord rt "discogs_artist_id" records id = some r)
    (hnode : (g.node (artistKey id)).isSome) (hshadow : ¬ NoneShadow rt records g) :
    superseded rt r.2 records = false := by
  rw [← Bool.not_eq_true]
  exact fun hsup => hshadow (noneShadow_of_superseded hlast hnode hsup).2

/-- The relations of a complete record that is not masked are projected. -/
theorem RelationPhase.told (hphase : RelationPhase rt gate records g g₁ g') (hgrow : Grows g g')
    {r : Dict × Nat} (hsel : Selects rt gate records g r) (hcomp : Complete rt g r.1)
    (hmask : ¬ Masked rt g r.1) : Told rt g' (ownerText rt r.1) (recordRelations r.1) := by
  intro relation hrel type row? hs
  have hresolved : unresolved rt g (ownerText rt r.1) relation ≠ true := fun hu =>
    hmask ⟨hcomp, relation, hrel, hu⟩
  rw [unresolved, hs] at hresolved
  cases row? with
  | none => exact absurd rfl hresolved
  | some row =>
    have hboth : bothSides g row = true := by simpa using hresolved
    exact ⟨row, rfl, hgrow.bothSides hboth, (hphase.edges type row).mpr
      (.inr ⟨r, hsel, relation, hrel, row, hs, ⟨rfl, rfl⟩, hboth⟩)⟩

/-- A safe batch keeps the stored digests true. -/
theorem DigestsTold.batch (hinj : Function.Injective rt.hexdigest) (h : DigestsTold rt g)
    (hsafe : SafeBatch rt records g) (hwrite : NodeWrite rt gate now artistSpec records g g₁)
    (hphase : RelationPhase rt gate records g g₁ g') : DigestsTold rt g' := by
  intro id n' relations hn' hhash
  have hgrow := grows_of_batch hwrite hphase
  rcases relationsHash_of_batch hwrite hphase hn' with ⟨n, hn, heq⟩ | ⟨r, hsel, hcomp, rfl, heq⟩
  · exact (h id n relations hn (heq.symm.trans hhash)).grow hgrow
  · have hrel : recordRelations r.1 = relations := by
      rw [heq, relationsDigest, payloadHash_inj hinj, List.cons.injEq] at hhash
      exact hhash.1
    rw [← hrel]
    obtain ⟨n, hn, _⟩ := hsel.owner
    have hlast : lastOf rt "discogs_artist_id" records (ownerText rt r.1) = some r.1 := by
      rw [← lastRecord_map_fst, hsel.lastRecord, Option.map_some]
    exact hphase.told hgrow hsel hcomp
      (hsafe.masked _ _ (Option.isSome_iff_exists.mpr ⟨n, hn⟩) hlast)

/-- After a batch, skipped or not, the last records are projected. -/
theorem DigestsTold.lastProjected (h : DigestsTold rt g) (hshadow : ¬ NoneShadow rt records g)
    (hwrite : NodeWrite rt gate now artistSpec records g g₁)
    (hphase : RelationPhase rt gate records g g₁ g') : LastProjected rt records g g' := by
  intro id record hnode hlast relation hrel type row hs hboth
  rw [← lastRecord_map_fst, Option.map_eq_some_iff] at hlast
  obtain ⟨r, hr, rfl⟩ := hlast
  obtain ⟨hmem, hid⟩ := lastRecord_mem hr
  have howner : ownerText rt r.1 = id := (discogsId_eq_some.mp hid).2
  have hgrow := grows_of_batch hwrite hphase
  obtain ⟨n, hn⟩ := Option.isSome_iff_exists.mp hnode
  by_cases hgate : gate = true ∧ n "mb_relations_hash" = relationsDigest rt r.1
  · -- The gate skips the record: its digest is stored, so its edges are there.
    obtain ⟨row', hrow', _, hedge⟩ := h id n _ hn hgate.2 relation hrel type _ hs
    cases hrow'
    exact hgrow.edges type row hedge
  · have hsel : Selects rt gate records g r :=
      ⟨hmem, not_superseded_lastRecord hr hnode hshadow, id, n, hid, hn, hgate⟩
    have hboth' : bothSides g row = true := by
      simp only [bothSides, hphase.isSome_node, hwrite.isSome_node] at hboth ⊢
      exact hboth
    refine (hphase.edges type row).mpr (.inr ⟨r, hsel, relation, hrel, row, ?_, ⟨rfl, rfl⟩, hboth'⟩)
    rw [howner]
    exact hs

end Batch

/-! ## Whole histories -/

theorem DigestsTold.grow {g g' : Graph} (h : DigestsTold rt g) (hgrow : Grows g g')
    (hhash : ∀ id n', g'.node (artistKey id) = some n' → n' "mb_relations_hash" =
      ((g.node (artistKey id)).map (· "mb_relations_hash")).getD .null) : DigestsTold rt g' := by
  intro id n' relations hn' hdigest
  rw [hhash id n' hn'] at hdigest
  cases hn : g.node (artistKey id) with
  | none =>
    rw [hn] at hdigest
    exact absurd hdigest.symm (payloadHash_ne_null _)
  | some n =>
    rw [hn] at hdigest
    exact (h id n relations hn hdigest).grow hgrow

/-- Every write of a history keeps the stored digests true. -/
theorem ArtistHistory.digestsTold (hinj : Function.Injective rt.hexdigest) {g : Graph}
    (h : ArtistHistory rt (SafeBatch rt) AddsArtists g) : DigestsTold rt g := by
  induction h with
  | start h =>
    intro id n relations hn hdigest
    rw [h.props id n hn _ (by decide)] at hdigest
    exact absurd hdigest.symm (payloadHash_ne_null _)
  | enrichArtist _ hrun ih =>
    obtain ⟨g₁, hwrite, hnode, hedges⟩ := enrichArtist_spec hrun
    refine ih.grow ⟨fun id hid => ?_, fun type row hedge => (hedges type row).mpr (.inl hedge)⟩ ?_
    · rw [hnode, hwrite.isSome_node]
      exact hid
    · intro id n' hn'
      rw [hnode] at hn'
      rw [← hwrite.eq_of_not_mem relationsHash_not_mem (artistKey id), hn']
      rfl
  | enrichArtistsBatch _ hsafe hrun ih =>
    obtain ⟨g₁, hwrite, hphase⟩ := enrichArtistsBatch_spec hrun
    exact ih.batch hinj hsafe hwrite hphase
  | otherService _ hother ih =>
    exact ih.grow hother.grows fun id n' hn' => hother.props id n' hn' _ (by decide)

/-- A membership in the group `target`. -/
def memberOfBand (target : String) : Json :=
  .obj [("target_discogs_artist_id", .str target), ("type", .str "member of band")]

/-- A record of the artist `id`, a member of the groups `targets`. -/
def memberRecord (id : String) (targets : List String) : Dict :=
  [("discogs_artist_id", .str id), ("relations", .arr (targets.map memberOfBand))]

theorem supported_memberOfBand (owner target : String) :
    supported rt owner (memberOfBand target) = some (.memberOf, some ⟨owner, owner, target⟩) := rfl

/-- In a history of safe batches every stored relations digest is true, and after
each batch the last records are projected, skipped or not. -/
theorem relationsGate_holds (hinj : Function.Injective rt.hexdigest) :
    (∀ g, ArtistHistory rt (SafeBatch rt) AddsArtists g → DigestsTold rt g) ∧
      ∀ gate now records tx tx' flags, ArtistHistory rt (SafeBatch rt) AddsArtists tx.graph →
        SafeBatch rt records tx.graph →
        enrichArtistsBatch rt gate now records tx = .ok (tx', flags) →
        LastProjected rt records tx.graph tx'.graph := by
  refine ⟨fun g h => h.digestsTold hinj, fun gate now records tx tx' flags h hsafe hrun => ?_⟩
  obtain ⟨g₁, hwrite, hphase⟩ := enrichArtistsBatch_spec hrun
  exact (h.digestsTold hinj).lastProjected hsafe.shadow hwrite hphase

/-- Two artists, none of them a member of the other yet. -/
def twoArtists : Graph := bareArtists ["x", "y"] [] (by decide)

theorem safeBatch_memberRecord : SafeBatch plainRuntime [memberRecord "x" ["y"]] twoArtists := by
  constructor
  · intro id record hnode hlast
    rw [lastOf_singleton, Option.ite_none_right_eq_some, Option.some.injEq] at hlast
    rw [← hlast.2]
    rintro ⟨_, relation, hrel, hunresolved⟩
    have hresolved : ∀ relation ∈ (recordRelations (memberRecord "x" ["y"])).elems,
        unresolved plainRuntime twoArtists (ownerText plainRuntime (memberRecord "x" ["y"]))
          relation = false := by
      decide +kernel
    rw [hresolved relation hrel] at hunresolved
    cases hunresolved
  · rintro ⟨hnode, _⟩
    have hnone : (twoArtists.node (artistKey "None")).isSome = false := by decide +kernel
    rw [hnone] at hnode
    cases hnode

/-- `x` joins `y` in a safe batch: the edge is there, and the digest is true. -/
theorem relationsGate_holds_memberRecord : ∃ tx flags,
    enrichArtistsBatch plainRuntime true .null [memberRecord "x" ["y"]] ⟨twoArtists, {}⟩ =
      .ok (tx, flags) ∧
    HasEdge tx.graph .memberOf ⟨"x", "x", "y"⟩ ∧ DigestsTold plainRuntime tx.graph := by
  obtain ⟨⟨tx, flags⟩, hrun, hboth⟩ : ∃ r : Tx × List Bool,
      enrichArtistsBatch plainRuntime true .null [memberRecord "x" ["y"]] ⟨twoArtists, {}⟩ = .ok r ∧
      bothSides r.1.graph ⟨"x", "x", "y"⟩ = true :=
    Except.exists_eq_ok (by decide +kernel)
  have hstart : ArtistHistory plainRuntime (SafeBatch plainRuntime) AddsArtists twoArtists :=
    .start (noArtistData_bareArtists (by decide))
  have helems : (recordRelations (memberRecord "x" ["y"])).elems = [memberOfBand "y"] := by
    decide +kernel
  obtain ⟨htold, hlast⟩ := relationsGate_holds plainRuntime_injective
  refine ⟨tx, flags, hrun, ?_, htold _ (.enrichArtistsBatch hstart safeBatch_memberRecord hrun)⟩
  exact hlast _ _ _ _ _ _ hstart safeBatch_memberRecord hrun "x" _ rfl rfl (memberOfBand "y")
    (helems ▸ List.mem_singleton_self _) _ _ (supported_memberOfBand "x" "y") hboth

/-! ## The two shapes defeat the gate -/

/-- `x` is a member of `y` twice over. -/
def parallelMembers : Graph := bareArtists ["x", "y"] [("x", "y"), ("x", "y")] (by decide)

def artistNone : Graph := bareArtists ["None", "y"] [] (by decide)

/-- Two parallel edges to `y` hide that `z` is missing; and a record without an
id takes the record of the artist `None` for superseded. -/
theorem relationsGate_defeated :
    Function.Injective plainRuntime.hexdigest ∧
    (∃ g, ArtistHistory plainRuntime (fun _ _ => True) AddsArtists g ∧ ¬ DigestsTold plainRuntime g) ∧
    ∃ records tx tx' flags, ArtistHistory plainRuntime (fun _ _ => True) AddsArtists tx.graph ∧
      enrichArtistsBatch plainRuntime true .null records tx = .ok (tx', flags) ∧
      ¬ LastProjected plainRuntime records tx.graph tx'.graph := by
  refine ⟨plainRuntime_injective, ?_, ?_⟩
  · obtain ⟨⟨tx, flags⟩, hrun, hsee⟩ : ∃ r : Tx × List Bool,
        enrichArtistsBatch plainRuntime true .null [memberRecord "x" ["y", "z"]]
          ⟨parallelMembers, {}⟩ = .ok r ∧
        ((r.1.graph.node (artistKey "x")).map (· "mb_relations_hash"),
          (r.1.graph.node (artistKey "z")).isSome) =
        (some (payloadHash plainRuntime [.arr [memberOfBand "y", memberOfBand "z"]]), false) :=
      Except.exists_eq_ok (by decide +kernel)
    obtain ⟨hhash, hz⟩ := Prod.mk.inj hsee
    obtain ⟨n, hn, hhash⟩ := Option.map_eq_some_iff.mp hhash
    refine ⟨tx.graph, .enrichArtistsBatch (.start (noArtistData_bareArtists (by decide))) trivial hrun, fun htold => ?_⟩
    obtain ⟨row, hrow, hboth, _⟩ := htold "x" n _ hn hhash (memberOfBand "z")
      (by simp [Json.elems, Json.iter, Except.toOption]) _ _ (supported_memberOfBand "x" "z")
    cases hrow
    simp only [bothSides, Bool.and_eq_true] at hboth
    rw [hz] at hboth
    cases hboth.2
  · obtain ⟨⟨tx, flags⟩, hrun, hsee⟩ : ∃ r : Tx × List Bool,
        enrichArtistsBatch plainRuntime true .null [memberRecord "None" ["y"], []]
          ⟨artistNone, {}⟩ = .ok r ∧
        (r.1.graph.rels.length, (r.1.graph.node (artistKey "None")).isSome,
          (r.1.graph.node (artistKey "y")).isSome) = (0, true, true) :=
      Except.exists_eq_ok (by decide +kernel)
    obtain ⟨hrels, hnodes⟩ := Prod.mk.inj hsee
    obtain ⟨hnone, hy⟩ := Prod.mk.inj hnodes
    have helems : (recordRelations (memberRecord "None" ["y"])).elems = [memberOfBand "y"] := by
      decide +kernel
    refine ⟨_, _, tx, flags, .start (noArtistData_bareArtists (by decide)), hrun, fun hlast => ?_⟩
    obtain ⟨e, he, _⟩ := hlast "None" (memberRecord "None" ["y"]) rfl rfl (memberOfBand "y")
      (helems ▸ List.mem_singleton_self _) _ _ (supported_memberOfBand "None" "y") (by simp [bothSides, hnone, hy])
    rw [List.eq_nil_of_length_eq_zero hrels] at he
    cases he

end Brainzgraphinator
