-- SUMMARY: How far the artist graph depends on where a stream of records is cut into batches.
import Brainzgraphinator.Projections.BatchSuccess
import Brainzgraphinator.Projections.RelationsGate

/-!
# Flush boundaries

A stream of artist records reaches the graph in batches whose ends are accidental.
The nodes do not depend on them: however the stream is cut, a node ends up with
the last record of its artist (`ArtistsStep.append`). The edges do: a batch
projects the relations of the last record it has of an artist and drops those of
the earlier ones (`BatchProjects`).
-/

namespace Brainzgraphinator

variable {rt : Runtime}

/-! ## A run of batches -/

/-- Run the batches one after another, each with its time stamp. -/
def runBatches (rt : Runtime) (gate : Bool) (batches : List (Json × List Dict)) (tx : Tx) :
    Except Failure Tx :=
  batches.foldlM (fun tx batch => do
    let (tx, _) ← enrichArtistsBatch rt gate batch.1 batch.2 tx
    return tx) tx

/-- The records of a run in stream order. -/
def stream (batches : List (Json × List Dict)) : List Dict := batches.flatMap Prod.snd

/-- The batch contributes the edge: a resolvable relation of the last record it
has of some existing artist. -/
def BatchProjects (rt : Runtime) (g : Graph) (records : List Dict) (type : RelType)
    (row : RelationRow) : Prop :=
  ∃ id record, lastOf rt "discogs_artist_id" records id = some record ∧
    (g.node (artistKey id)).isSome ∧ Projects rt g record type row

/-- Some batch of the run contributes the edge. -/
def Contributed (rt : Runtime) (g : Graph) (batches : List (Json × List Dict)) (type : RelType)
    (row : RelationRow) : Prop :=
  ∃ batch ∈ batches, BatchProjects rt g batch.2 type row

/-- No batch has two records of one artist. -/
def OneRecordPerArtist (rt : Runtime) (batches : List (Json × List Dict)) : Prop :=
  ∀ batch ∈ batches, (batch.2.filterMap (discogsId rt "discogs_artist_id")).Nodup

/-! ## The invariant -/

/-- Where the stored relations digest is that of some relations, those whose
artists exist are edges. -/
def ResolvedTold (rt : Runtime) (g : Graph) : Prop :=
  ∀ id n relations, g.node (artistKey id) = some n →
    n "mb_relations_hash" = payloadHash rt [relations] → ∀ relation ∈ relations.elems, ∀ type row,
      supported rt id relation = some (type, some row) → bothSides g row = true → HasEdge g type row

structure ArtistInvariant (rt : Runtime) (g : Graph) : Prop where
  truthful : ∀ id n, g.node (artistKey id) = some n → Truthful rt artistSpec n
  told : ResolvedTold rt g

theorem ResolvedTold.grow {g g' : Graph} (h : ResolvedTold rt g) (hgrow : Grows g g')
    (hfixed : ∀ id, (g'.node (artistKey id)).isSome → (g.node (artistKey id)).isSome)
    {id : String} {n : Props} {relations : Json} (hn : g.node (artistKey id) = some n)
    (hhash : n "mb_relations_hash" = payloadHash rt [relations]) :
    ∀ relation ∈ relations.elems, ∀ type row, supported rt id relation = some (type, some row) →
      bothSides g' row = true → HasEdge g' type row := by
  intro relation hrel type row hs hboth
  refine hgrow.edges type row (h id n relations hn hhash relation hrel type row hs ?_)
  simp only [bothSides, Bool.and_eq_true] at hboth ⊢
  exact ⟨hfixed _ hboth.1, hfixed _ hboth.2⟩

section Batch

variable {gate : Bool} {now : Json} {records : List Dict} {g g₁ g' : Graph}

theorem RelationPhase.exists_node (h : RelationPhase rt gate records g g₁ g') {k : NodeKey}
    {n' : Props} (hn' : g'.node k = some n') :
    ∃ n₁, g₁.node k = some n₁ ∧ ∀ key, key ≠ "mb_relations_hash" → n' key = n₁ key := by
  have hsome := h.isSome_node k
  rw [hn', Option.isSome_some, eq_comm, Option.isSome_iff_exists] at hsome
  obtain ⟨n₁, hn₁⟩ := hsome
  refine ⟨n₁, hn₁, fun key hkey => ?_⟩
  have heq := h.eq_of_ne hkey k
  rw [hn', hn₁, Option.map_some, Option.map_some, Option.some.injEq] at heq
  exact heq

/-- The mapped artist properties are not the relations digest. -/
theorem artistField_ne {field : String × String} (h : field ∈ artistSpec.fields) :
    field.1 ≠ "mb_relations_hash" := by
  have hne : ∀ field ∈ artistFields, field.1 ≠ "mb_relations_hash" := by decide
  exact hne field h

theorem bothSides_of_batch (hwrite : NodeWrite rt gate now artistSpec records g g₁)
    (hphase : RelationPhase rt gate records g g₁ g') (row : RelationRow) :
    bothSides g' row = bothSides g row := by
  simp only [bothSides, hphase.isSome_node, hwrite.isSome_node]

theorem ArtistInvariant.batch (hinj : Function.Injective rt.hexdigest) (h : ArtistInvariant rt g)
    (hwrite : NodeWrite rt gate now artistSpec records g g₁)
    (hphase : RelationPhase rt gate records g g₁ g') : ArtistInvariant rt g' := by
  constructor
  · intro id n' hn'
    obtain ⟨n₁, hn₁, hsame⟩ := hphase.exists_node hn'
    have htruthful := hwrite.truthful artistSpec_wellFormed hinj h.truthful hn₁
    exact htruthful.congr (hsame _ (by decide)) fun field hf => hsame _ (artistField_ne hf)
  · intro id n' relations hn' hhash
    rcases relationsHash_of_batch hwrite hphase hn' with ⟨n, hn, heq⟩ | ⟨r, hsel, _, rfl, heq⟩
    · refine h.told.grow (grows_of_batch hwrite hphase) (fun id hid => ?_) hn (heq.symm.trans hhash)
      rw [hphase.isSome_node, hwrite.isSome_node] at hid
      exact hid
    · intro relation hrel type row hs hboth
      rw [heq, relationsDigest, payloadHash_inj hinj, List.cons.injEq] at hhash
      rw [← hhash.1] at hrel
      rw [bothSides_of_batch hwrite hphase] at hboth
      exact (hphase.edges type row).mpr (.inr ⟨r, hsel, relation, hrel, row, hs, ⟨rfl, rfl⟩, hboth⟩)

/-! ## One batch -/

/-- What records do to the artist nodes: each has the last record of its artist. -/
structure ArtistsStep (rt : Runtime) (records : List Dict) (g g' : Graph) : Prop where
  isSome : ∀ k, (g'.node k).isSome = (g.node k).isSome
  carries : ∀ id record n', lastOf rt "discogs_artist_id" records id = some record →
    g'.node (artistKey id) = some n' → Carries rt artistSpec record n'
  frame : ∀ k key, key ≠ "mb_relations_hash" →
    (key ∈ artistProps → k.label = .artist → lastOf rt "discogs_artist_id" records k.id = none) →
    (g'.node k).map (· key) = (g.node k).map (· key)

theorem ArtistsStep.refl (g : Graph) : ArtistsStep rt [] g g :=
  ⟨fun _ => rfl, nofun, fun _ _ _ _ => rfl⟩

theorem artistsStep_of_batch (hinj : Function.Injective rt.hexdigest) (h : ArtistInvariant rt g)
    (hwrite : NodeWrite rt gate now artistSpec records g g₁)
    (hphase : RelationPhase rt gate records g g₁ g') : ArtistsStep rt records g g' := by
  refine ⟨fun k => (hphase.isSome_node k).trans (hwrite.isSome_node k), ?_, ?_⟩
  · intro id record n' hlast hn'
    obtain ⟨n₁, hn₁, hsame⟩ := hphase.exists_node hn'
    have hcarries := hwrite.carries artistSpec_wellFormed hinj h.truthful hlast hn₁
    exact hcarries.congr (hsame _ (by decide)) fun field hf => hsame _ (artistField_ne hf)
  · intro k key hkey hnot
    rw [hphase.eq_of_ne hkey]
    by_cases hmem : key ∈ artistProps
    · rw [hwrite.frame k fun hk => hnot hmem hk]
    · refine hwrite.eq_of_not_mem (fun hin => hmem ?_) k
      exact List.mem_append_left _ hin

/-- The edges after a batch. Without the shadow of an id-less record, a last
record that is not selected has its relations projected already. -/
theorem hasEdge_of_batch (h : ArtistInvariant rt g) (hshadow : ¬ NoneShadow rt records g)
    (hphase : RelationPhase rt gate records g g₁ g') (type : RelType) (row : RelationRow) :
    HasEdge g' type row ↔ HasEdge g type row ∨ BatchProjects rt g records type row := by
  rw [hphase.edges]
  constructor
  · rintro (hedge | ⟨r, hsel, hproj⟩)
    · exact .inl hedge
    · obtain ⟨n, hn, _⟩ := hsel.owner
      refine .inr ⟨ownerText rt r.1, r.1, ?_, Option.isSome_iff_exists.mpr ⟨n, hn⟩, hproj⟩
      rw [← lastRecord_map_fst, hsel.lastRecord, Option.map_some]
  · rintro (hedge | ⟨id, record, hlast, hnode, hproj⟩)
    · exact .inl hedge
    · rw [← lastRecord_map_fst, Option.map_eq_some_iff] at hlast
      obtain ⟨r, hr, rfl⟩ := hlast
      obtain ⟨hmem, hid⟩ := lastRecord_mem hr
      obtain ⟨n, hn⟩ := Option.isSome_iff_exists.mp hnode
      by_cases hgate : gate = true ∧ n "mb_relations_hash" = relationsDigest rt r.1
      · obtain ⟨relation, hrel, row₀, hs, hends, hboth⟩ := hproj
        rw [ownerText, (discogsId_eq_some.mp hid).2] at hs
        exact .inl ((h.told id n _ hn hgate.2 relation hrel type row₀ hs hboth).congr hends)
      · have hsup := not_superseded_lastRecord hr hnode hshadow
        exact .inr ⟨r, ⟨hmem, hsup, id, n, hid, hn, hgate⟩, hproj⟩

end Batch

/-! ## Many batches -/

/-- Two steps are one step of all records. -/
theorem ArtistsStep.append {xs ys : List Dict} {g g₁ g₂ : Graph} (h : ArtistsStep rt xs g g₁)
    (h' : ArtistsStep rt ys g₁ g₂) : ArtistsStep rt (xs ++ ys) g g₂ := by
  refine ⟨fun k => (h'.isSome k).trans (h.isSome k), ?_, ?_⟩
  · intro id record n' hlast hn'
    rw [lastOf_append] at hlast
    cases hys : lastOf rt "discogs_artist_id" ys id with
    | some record' =>
      rw [hys, Option.some_or, Option.some.injEq] at hlast
      exact hlast ▸ h'.carries id record' n' hys hn'
    | none =>
      rw [hys, Option.none_or] at hlast
      have hsome := h'.isSome (artistKey id)
      rw [hn', Option.isSome_some, eq_comm, Option.isSome_iff_exists] at hsome
      obtain ⟨n₁, hn₁⟩ := hsome
      have hsame : ∀ key, key ≠ "mb_relations_hash" → n' key = n₁ key := by
        intro key hkey
        have heq := h'.frame (artistKey id) key hkey fun _ _ => hys
        rw [hn', hn₁, Option.map_some, Option.map_some, Option.some.injEq] at heq
        exact heq
      exact (h.carries id record n₁ hlast hn₁).congr (hsame _ (by decide))
        fun field hf => hsame _ (artistField_ne hf)
  · intro k key hkey hnot
    have hboth : key ∈ artistProps → k.label = .artist →
        lastOf rt "discogs_artist_id" ys k.id = none ∧ lastOf rt "discogs_artist_id" xs k.id = none := by
      intro hmem hk
      have hnone := hnot hmem hk
      rw [lastOf_append, Option.or_eq_none_iff] at hnone
      exact hnone
    rw [h'.frame k key hkey fun hmem hk => (hboth hmem hk).1,
      h.frame k key hkey fun hmem hk => (hboth hmem hk).2]

/-- The same records leave the same properties, stamps of time apart. -/
theorem ArtistsStep.agree {records : List Dict} {g g₁ g₂ : Graph} (h : ArtistsStep rt records g g₁)
    (h' : ArtistsStep rt records g g₂) (k : NodeKey) {key : String} (htime : key ≠ "mb_updated_at")
    (hhash : key ≠ "mb_relations_hash") : (g₁.node k).map (· key) = (g₂.node k).map (· key) := by
  by_cases hwritten : key ∈ artistProps ∧ ∃ id record, k = artistKey id ∧
      lastOf rt "discogs_artist_id" records id = some record
  · obtain ⟨hmem, id, record, rfl, hlast⟩ := hwritten
    have hsome := (h.isSome (artistKey id)).trans (h'.isSome (artistKey id)).symm
    cases hn₁ : g₁.node (artistKey id) with
    | none =>
      rw [hn₁, Option.isSome_none, eq_comm, Option.isSome_eq_false_iff, Option.isNone_iff_eq_none] at hsome
      rw [hsome]
    | some n₁ =>
      rw [hn₁, Option.isSome_some, eq_comm, Option.isSome_iff_exists] at hsome
      obtain ⟨n₂, hn₂⟩ := hsome
      have hagree := (h.carries id record n₁ hlast hn₁).unique (h'.carries id record n₂ hlast hn₂)
      rw [hn₂, Option.map_some, Option.map_some, Option.some.injEq]
      simp only [artistProps, stamps, List.mem_append, List.mem_cons, List.not_mem_nil, or_false,
        hhash, htime] at hmem
      rcases hmem with hfield | rfl
      · obtain ⟨field, hf, rfl⟩ := List.mem_map.mp hfield
        exact hagree.2 field hf
      · exact hagree.1
  · have hnot : key ∈ artistProps → k.label = .artist →
        lastOf rt "discogs_artist_id" records k.id = none := by
      intro hmem hk
      obtain ⟨_, id⟩ := k
      cases hk
      cases hlast : lastOf rt "discogs_artist_id" records id with
      | none => rfl
      | some record => exact absurd ⟨hmem, id, record, rfl, hlast⟩ hwritten
    rw [h.frame k key hhash hnot, h'.frame k key hhash hnot]

/-- Every history of artist writes among the same artists keeps the invariant. -/
theorem ArtistHistory.artistInvariant (hinj : Function.Injective rt.hexdigest)
    {batch : List Dict → Graph → Prop} {g : Graph} (h : ArtistHistory rt batch KeepsArtists g) :
    ArtistInvariant rt g := by
  induction h with
  | start h =>
    refine ⟨fun id n hn => .inl (h.props id n hn _ (by decide)), fun id n relations hn hhash => ?_⟩
    rw [h.props id n hn _ (by decide)] at hhash
    exact absurd hhash.symm (payloadHash_ne_null _)
  | @enrichArtist gate now record tx tx' _ hrun ih =>
    obtain ⟨g₁, hwrite, hnode, hedges⟩ := enrichArtist_spec hrun
    have hgrow : Grows tx.graph tx'.graph := by
      refine ⟨fun id hid => ?_, fun type row hedge => (hedges type row).mpr (.inl hedge)⟩
      rw [hnode, hwrite.isSome_node]
      exact hid
    refine ⟨fun id n' hn' => ?_, fun id n' relations hn' hhash => ?_⟩
    · rw [hnode] at hn'
      exact hwrite.truthful artistSpec_wellFormed hinj ih.truthful hn'
    · have hsame := hwrite.eq_of_not_mem relationsHash_not_mem (artistKey id)
      rw [← hnode, hn', Option.map_some, eq_comm, Option.map_eq_some_iff] at hsame
      obtain ⟨n, hn, heq⟩ := hsame
      refine ih.told.grow hgrow (fun id hid => ?_) hn (heq.trans hhash)
      rw [hnode, hwrite.isSome_node] at hid
      exact hid
  | enrichArtistsBatch _ _ hrun ih =>
    obtain ⟨g₁, hwrite, hphase⟩ := enrichArtistsBatch_spec hrun
    exact ih.batch hinj hwrite hphase
  | @otherService g g' _ hother ih =>
    have hprops : ∀ id n', g'.node (artistKey id) = some n' → ∃ n, g.node (artistKey id) = some n ∧
        ∀ key ∈ artistProps, n' key = n key := by
      intro id n' hn'
      obtain ⟨n, hn⟩ := Option.isSome_iff_exists.mp
        (hother.fixed id (Option.isSome_iff_exists.mpr ⟨n', hn'⟩))
      refine ⟨n, hn, fun key hkey => ?_⟩
      rw [hother.props id n' hn' key hkey, hn]
      rfl
    refine ⟨fun id n' hn' => ?_, fun id n' relations hn' hhash => ?_⟩
    · obtain ⟨n, hn, hsame⟩ := hprops id n' hn'
      refine (ih.truthful id n hn).congr (hsame _ (by decide)) fun field hf => hsame _ ?_
      exact List.mem_append_left _ (List.mem_append_left _ (List.mem_map_of_mem hf))
    · obtain ⟨n, hn, hsame⟩ := hprops id n' hn'
      exact ih.told.grow hother.grows hother.fixed hn ((hsame _ (by decide)).symm.trans hhash)

section Run

variable {gate : Bool} {batches : List (Json × List Dict)} {tx tx' : Tx}

theorem NoneShadow.congr {records : List Dict} {g g' : Graph}
    (hnode : ∀ k, (g'.node k).isSome = (g.node k).isSome) (h : NoneShadow rt records g') :
    NoneShadow rt records g :=
  ⟨hnode _ ▸ h.1, h.2⟩

theorem batchProjects_congr {records : List Dict} {g g' : Graph}
    (hnode : ∀ k, (g'.node k).isSome = (g.node k).isSome) {type : RelType} {row : RelationRow} :
    BatchProjects rt g' records type row ↔ BatchProjects rt g records type row := by
  simp only [BatchProjects, Projects, hnode, bothSides_congr hnode]

/-- A run leaves the artist nodes as its stream of records says. -/
theorem runBatches_step (hinj : Function.Injective rt.hexdigest) (hinv : ArtistInvariant rt tx.graph)
    (h : runBatches rt gate batches tx = .ok tx') :
    ArtistsStep rt (stream batches) tx.graph tx'.graph := by
  induction batches generalizing tx with
  | nil =>
    cases Except.pure_eq_ok.mp h
    exact ArtistsStep.refl _
  | cons batch batches ih =>
    rw [runBatches, List.foldlM_cons] at h
    obtain ⟨tx₁, hbatch, h⟩ := Except.bind_eq_ok.mp h
    obtain ⟨⟨_, flags⟩, hbatch, hpure⟩ := Except.bind_eq_ok.mp hbatch
    cases Except.pure_eq_ok.mp hpure
    obtain ⟨g₁, hwrite, hphase⟩ := enrichArtistsBatch_spec hbatch
    exact (artistsStep_of_batch hinj hinv hwrite hphase).append (ih (hinv.batch hinj hwrite hphase) h)

/-- A run adds the edges its batches contribute. -/
theorem runBatches_edges (hinj : Function.Injective rt.hexdigest) (hinv : ArtistInvariant rt tx.graph)
    (hshadow : ∀ batch ∈ batches, ¬ NoneShadow rt batch.2 tx.graph)
    (h : runBatches rt gate batches tx = .ok tx') (type : RelType) (row : RelationRow) :
    HasEdge tx'.graph type row ↔
      HasEdge tx.graph type row ∨ Contributed rt tx.graph batches type row := by
  induction batches generalizing tx with
  | nil =>
    cases Except.pure_eq_ok.mp h
    simp [Contributed]
  | cons batch batches ih =>
    rw [runBatches, List.foldlM_cons] at h
    obtain ⟨tx₁, hbatch, h⟩ := Except.bind_eq_ok.mp h
    obtain ⟨⟨_, flags⟩, hbatch, hpure⟩ := Except.bind_eq_ok.mp hbatch
    cases Except.pure_eq_ok.mp hpure
    obtain ⟨g₁, hwrite, hphase⟩ := enrichArtistsBatch_spec hbatch
    have hnode := (artistsStep_of_batch hinj hinv hwrite hphase).isSome
    have hrest : ∀ batch ∈ batches, ¬ NoneShadow rt batch.2 tx₁.graph := fun b hb hs =>
      hshadow b (List.mem_cons_of_mem _ hb) (hs.congr hnode)
    rw [ih (hinv.batch hinj hwrite hphase) hrest h,
      hasEdge_of_batch hinv (hshadow batch List.mem_cons_self) hphase, or_assoc]
    simp only [Contributed, batchProjects_congr hnode, List.mem_cons, exists_eq_or_imp]

end Run

/-! ## Two ways to cut a stream -/

/-- Without two records of one artist in a batch, every record contributes. -/
theorem contributed_iff {g : Graph} {batches : List (Json × List Dict)}
    (h : OneRecordPerArtist rt batches) {type : RelType} {row : RelationRow} :
    Contributed rt g batches type row ↔ ∃ record ∈ stream batches, ∃ id,
      discogsId rt "discogs_artist_id" record = some id ∧ (g.node (artistKey id)).isSome ∧
        Projects rt g record type row := by
  constructor
  · rintro ⟨batch, hbatch, id, record, hlast, hnode, hproj⟩
    rw [← lastRecord_map_fst, Option.map_eq_some_iff] at hlast
    obtain ⟨r, hr, rfl⟩ := hlast
    obtain ⟨hmem, hid⟩ := lastRecord_mem hr
    have hrecord : r.1 ∈ batch.2 := (List.zipIdx_map_fst 0 batch.2) ▸ List.mem_map_of_mem hmem
    exact ⟨r.1, List.mem_flatMap.mpr ⟨batch, hbatch, hrecord⟩, id, hid, hnode, hproj⟩
  · rintro ⟨record, hrecord, id, hid, hnode, hproj⟩
    obtain ⟨batch, hbatch, hmem⟩ := List.mem_flatMap.mp hrecord
    rw [← List.zipIdx_map_fst 0 batch.2] at hmem
    obtain ⟨r, hr, rfl⟩ := List.mem_map.mp hmem
    obtain ⟨last, hlast⟩ := exists_lastRecord hr hid
    obtain ⟨hmemlast, hidlast⟩ := lastRecord_mem hlast
    have hin : ∀ x ∈ batch.2.zipIdx, x.1 ∈ batch.2 := fun x hx =>
      (List.zipIdx_map_fst 0 batch.2) ▸ List.mem_map_of_mem hx
    have heq := eq_of_nodup_filterMap (h batch hbatch) (hin last hmemlast) (hin r hr) hidlast hid
    refine ⟨batch, hbatch, id, r.1, ?_, hnode, hproj⟩
    rw [← lastRecord_map_fst, hlast, Option.map_some, heq]

/-- A stream that goes through one record at a time goes through in every cut. -/
theorem exists_runBatches (hinj : Function.Injective rt.hexdigest) {gate : Bool} {bs : List (Json × List Dict)}
    {tx : Tx} (h : WritableInOrder rt gate .artists (stream bs) (storedDigests .artist tx.graph)) :
    ∃ tx', runBatches rt gate bs tx = .ok tx' := by
  induction bs generalizing tx with
  | nil => exact ⟨tx, rfl⟩
  | cons batch bs ih =>
    obtain ⟨hfirst, hrest⟩ := h.append
    obtain ⟨⟨tx₁, flags⟩, hbatch⟩ :=
      exists_batchProjections batch.1 fun record hmem => hfirst.writable_of_mem hinj hmem
    have hdigests : storedDigests .artist tx₁.graph =
        batch.2.foldl (stamp rt artistSpec) (storedDigests .artist tx.graph) :=
      (batchProjections_entityWrite hbatch).digests
    have hlater : WritableInOrder rt gate .artists (stream bs) (storedDigests .artist tx₁.graph) := hdigests ▸ hrest
    obtain ⟨tx', hrun⟩ := ih hlater
    refine ⟨tx', ?_⟩
    rw [runBatches, List.foldlM_cons]
    exact Except.bind_eq_ok.mpr ⟨tx₁, Except.bind_eq_ok.mpr ⟨_, hbatch, rfl⟩, hrun⟩

/-- A stream that goes through one record at a time goes through in every cut. Two cuts that
go through leave the same node properties, and the same edges exactly when they contribute
the same ones, as they do when no batch has two records of one artist. -/
theorem flush_boundaries (hinj : Function.Injective rt.hexdigest) {gate gate' : Bool}
    {bs cs : List (Json × List Dict)} {tx : Tx}
    (hreach : ArtistHistory rt (fun _ _ => True) KeepsArtists tx.graph)
    (hcut : stream bs = stream cs)
    (hshadow : ∀ batch ∈ bs ++ cs, ¬ NoneShadow rt batch.2 tx.graph) :
    (OneByOne rt gate .artists (stream bs) tx.graph → ∃ tx₁, runBatches rt gate bs tx = .ok tx₁) ∧
    (OneByOne rt gate' .artists (stream bs) tx.graph → ∃ tx₂, runBatches rt gate' cs tx = .ok tx₂) ∧
    ∀ tx₁ tx₂, runBatches rt gate bs tx = .ok tx₁ → runBatches rt gate' cs tx = .ok tx₂ →
      (∀ k key, key ≠ "mb_updated_at" → key ≠ "mb_relations_hash" →
        (tx₁.graph.node k).map (· key) = (tx₂.graph.node k).map (· key)) ∧
      ((∀ type row, HasEdge tx₁.graph type row ↔ HasEdge tx₂.graph type row) ↔
        ∀ type row, ¬ HasEdge tx.graph type row →
          (Contributed rt tx.graph bs type row ↔ Contributed rt tx.graph cs type row)) ∧
      (OneRecordPerArtist rt bs → OneRecordPerArtist rt cs →
        ∀ type row, HasEdge tx₁.graph type row ↔ HasEdge tx₂.graph type row) := by
  refine ⟨fun hone => exists_runBatches hinj hone.writable,
    fun hone => exists_runBatches hinj (hcut ▸ hone).writable, fun tx₁ tx₂ hb hc => ?_⟩
  have hinv := hreach.artistInvariant hinj
  have hedges₁ := runBatches_edges hinj hinv
    (fun b hb => hshadow b (List.mem_append_left _ hb)) hb
  have hedges₂ := runBatches_edges hinj hinv
    (fun b hb => hshadow b (List.mem_append_right _ hb)) hc
  refine ⟨fun k key htime hhash => ?_, ?_, fun hone hone' type row => ?_⟩
  · have hstep := runBatches_step hinj hinv hc
    rw [← hcut] at hstep
    exact (runBatches_step hinj hinv hb).agree hstep k htime hhash
  · constructor
    · intro hsame type row hnot
      have h := hsame type row
      rw [hedges₁, hedges₂] at h
      simpa [hnot] using h
    · intro hsame type row
      rw [hedges₁, hedges₂]
      by_cases hedge : HasEdge tx.graph type row
      · simp [hedge]
      · rw [hsame type row hedge]
  · rw [hedges₁, hedges₂, contributed_iff hone, contributed_iff hone', hcut]

/-- `y` joins nothing and `x` joins `y`, in one batch or in two: the edge is there
either way. -/
theorem flush_boundaries_memberRecord : ∃ tx₁ tx₂,
    runBatches plainRuntime true [(.null, [memberRecord "y" [], memberRecord "x" ["y"]])]
      ⟨twoArtists, {}⟩ = .ok tx₁ ∧
    runBatches plainRuntime true [(.null, [memberRecord "y" []]), (.null, [memberRecord "x" ["y"]])]
      ⟨twoArtists, {}⟩ = .ok tx₂ ∧
    ∀ type row, HasEdge tx₁.graph type row ↔ HasEdge tx₂.graph type row := by
  obtain ⟨tx₀, hseq, _⟩ : ∃ tx₀, [memberRecord "y" [], memberRecord "x" ["y"]].zipIdx.foldlM
      (fun tx r => processors plainRuntime true .null .artists r.1 tx) ⟨twoArtists, {}⟩ = .ok tx₀ ∧
      tx₀.graph.rels.length = 1 := Except.exists_eq_ok (by decide +kernel)
  have hstart : ArtistHistory plainRuntime (fun _ _ => True) KeepsArtists twoArtists :=
    .start (noArtistData_bareArtists (by decide))
  have hshadow : ∀ records, ¬ NoneShadow plainRuntime records twoArtists := by
    rintro records ⟨hnode, _⟩
    have hnone : (twoArtists.node (artistKey "None")).isSome = false := by decide +kernel
    rw [hnone] at hnode
    cases hnode
  have hone : OneRecordPerArtist plainRuntime
      [(.null, [memberRecord "y" [], memberRecord "x" ["y"]])] := by
    intro batch hbatch
    rw [List.mem_singleton.mp hbatch]
    decide +kernel
  have hone' : OneRecordPerArtist plainRuntime
      [(.null, [memberRecord "y" []]), (.null, [memberRecord "x" ["y"]])] := by
    intro batch hbatch
    rcases List.mem_cons.mp hbatch with rfl | hbatch
    · decide +kernel
    · rw [List.mem_singleton.mp hbatch]
      decide +kernel
  have hcut : stream [(.null, [memberRecord "y" [], memberRecord "x" ["y"]])] =
      stream [(.null, [memberRecord "y" []]), (.null, [memberRecord "x" ["y"]])] := rfl
  obtain ⟨hfirst, hsecond, hagree⟩ := @flush_boundaries plainRuntime plainRuntime_injective true true _ _
    ⟨twoArtists, {}⟩ hstart hcut fun batch _ => hshadow batch.2
  have hseq' : OneByOne plainRuntime true .artists [memberRecord "y" [], memberRecord "x" ["y"]] twoArtists :=
    @OneByOne.of_foldlM plainRuntime true .artists (fun _ => .null) _ _ _ hseq
  obtain ⟨tx₁, hb⟩ := hfirst hseq'
  obtain ⟨tx₂, hc⟩ := hsecond hseq'
  exact ⟨tx₁, tx₂, hb, hc, (hagree tx₁ tx₂ hb hc).2.2 hone hone'⟩

/-- Two records of `x`, the earlier one a member of `y`: one batch projects the
later one only, two batches project both. -/
theorem flush_boundary_drops_relations : ∃ bs cs tx tx₁ tx₂,
    ArtistHistory plainRuntime (fun _ _ => True) KeepsArtists tx.graph ∧ stream bs = stream cs ∧
    runBatches plainRuntime true bs tx = .ok tx₁ ∧ runBatches plainRuntime true cs tx = .ok tx₂ ∧
    ¬ ∀ type row, HasEdge tx₁.graph type row ↔ HasEdge tx₂.graph type row := by
  obtain ⟨tx₁, hb, hnone⟩ : ∃ tx₁, runBatches plainRuntime true
      [(.null, [memberRecord "x" ["y"], memberRecord "x" []])] ⟨twoArtists, {}⟩ = .ok tx₁ ∧
      tx₁.graph.rels.length = 0 := Except.exists_eq_ok (by decide +kernel)
  obtain ⟨tx₂, hc, hedge⟩ : ∃ tx₂, runBatches plainRuntime true
      [(.null, [memberRecord "x" ["y"]]), (.null, [memberRecord "x" []])] ⟨twoArtists, {}⟩ = .ok tx₂ ∧
      tx₂.graph.rels.map (fun e => (e.type, e.src, e.dst, e.props "source")) =
        [(.memberOf, artistKey "x", artistKey "y", .str mediaSource)] :=
    Except.exists_eq_ok (by decide +kernel)
  have hstart : ArtistHistory plainRuntime (fun _ _ => True) KeepsArtists twoArtists :=
    .start (noArtistData_bareArtists (by decide))
  have hcut : stream [(.null, [memberRecord "x" ["y"], memberRecord "x" []])] =
      stream [(.null, [memberRecord "x" ["y"]]), (.null, [memberRecord "x" []])] := rfl
  refine ⟨_, _, ⟨twoArtists, {}⟩, tx₁, tx₂, hstart, hcut, hb, hc, fun hsame => ?_⟩
  have hedge₂ : HasEdge tx₂.graph .memberOf ⟨"x", "x", "y"⟩ := by
    obtain ⟨e, he, heq⟩ := List.mem_map.mp (hedge ▸ List.mem_singleton_self _)
    simp only [Prod.mk.injEq] at heq
    exact ⟨e, he, sameRelation_iff.mpr ⟨heq.1, heq.2.1, heq.2.2.1⟩, heq.2.2.2⟩
  obtain ⟨e, he, _⟩ := (hsame _ _).mpr hedge₂
  rw [List.eq_nil_of_length_eq_zero hnone] at he
  cases he

end Brainzgraphinator
