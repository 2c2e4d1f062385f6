-- SUMMARY: Histories of artist writes, and what one write does to the stored digests and the edges.
import Brainzgraphinator.Projections.ArtistWrite

/-!
# Histories of artist writes

`ArtistHistory` collects the graphs that committed artist writes can lead to from
a graph without MusicBrainz data. It is parametrised by the batches that are run
and by what other services may do in between.
-/

namespace Brainzgraphinator

variable {rt : Runtime}

/-- All properties the artist projections write. -/
def artistProps : List String :=
  artistFields.map Prod.fst ++ stamps ++ ["mb_relations_hash"]

structure NoArtistData (g : Graph) : Prop where
  props : ∀ id n, g.node (artistKey id) = some n → ∀ key ∈ artistProps, n key = .null
  edges : ∀ type row, ¬ HasEdge g type row

/-- A write of another service: it may add artists and do anything else, but it
removes neither artists nor musicbrainz edges and leaves the properties of the
artist projections alone. -/
structure AddsArtists (g g' : Graph) : Prop where
  artists : ∀ id, (g.node (artistKey id)).isSome → (g'.node (artistKey id)).isSome
  props : ∀ id n', g'.node (artistKey id) = some n' → ∀ key ∈ artistProps,
    n' key = ((g.node (artistKey id)).map (· key)).getD .null
  edges : ∀ type row, HasEdge g type row → HasEdge g' type row

/-- Such a write that adds no artist either. -/
structure KeepsArtists (g g' : Graph) : Prop extends AddsArtists g g' where
  fixed : ∀ id, (g'.node (artistKey id)).isSome → (g.node (artistKey id)).isSome

/-- The graphs a history of committed artist writes can lead to. -/
inductive ArtistHistory (rt : Runtime) (batch : List Dict → Graph → Prop)
    (other : Graph → Graph → Prop) : Graph → Prop
  | start {g : Graph} : NoArtistData g → ArtistHistory rt batch other g
  | enrichArtist {gate : Bool} {now : Json} {record : Dict} {tx tx' : Tx} :
      ArtistHistory rt batch other tx.graph → enrichArtist rt gate now record tx = .ok tx' →
      ArtistHistory rt batch other tx'.graph
  | enrichArtistsBatch {gate : Bool} {now : Json} {records : List Dict} {tx tx' : Tx}
      {flags : List Bool} : ArtistHistory rt batch other tx.graph → batch records tx.graph →
      enrichArtistsBatch rt gate now records tx = .ok (tx', flags) →
      ArtistHistory rt batch other tx'.graph
  | otherService {g g' : Graph} :
      ArtistHistory rt batch other g → other g g' → ArtistHistory rt batch other g'

/-- Artists without MusicBrainz data, some of them members of another. -/
def bareArtists (ids : List String) (members : List (String × String))
    (h : ∀ e ∈ members, e.1 ∈ ids ∧ e.2 ∈ ids) : Graph where
  node k := if k.label = .artist ∧ k.id ∈ ids then some noProps else none
  rels := members.map fun e => ⟨.memberOf, artistKey e.1, artistKey e.2, noProps⟩
  closed e he := by
    obtain ⟨e₀, he₀, rfl⟩ := List.mem_map.mp he
    simp [artistKey, h e₀ he₀]

theorem noArtistData_bareArtists {ids : List String} {members : List (String × String)}
    (h : ∀ e ∈ members, e.1 ∈ ids ∧ e.2 ∈ ids) : NoArtistData (bareArtists ids members h) := by
  constructor
  · intro id n hn key _
    simp only [bareArtists, Option.ite_none_right_eq_some, Option.some.injEq] at hn
    rw [← hn.2]
    rfl
  · rintro type row ⟨e, he, _, hsource⟩
    obtain ⟨_, _, rfl⟩ := List.mem_map.mp he
    cases hsource

/-! ## What one write keeps -/

/-- Artists and musicbrainz edges are still there. -/
structure Grows (g g' : Graph) : Prop where
  artists : ∀ id, (g.node (artistKey id)).isSome → (g'.node (artistKey id)).isSome
  edges : ∀ type row, HasEdge g type row → HasEdge g' type row

theorem Grows.bothSides {g g' : Graph} (h : Grows g g') {row : RelationRow}
    (hb : bothSides g row = true) : bothSides g' row = true := by
  simp only [Brainzgraphinator.bothSides, Bool.and_eq_true] at hb ⊢
  exact ⟨h.artists _ hb.1, h.artists _ hb.2⟩

theorem AddsArtists.grows {g g' : Graph} (h : AddsArtists g g') : Grows g g' :=
  ⟨h.artists, h.edges⟩

section Write

variable {gate : Bool} {now : Json} {records : List Dict} {g g₁ g' : Graph}

theorem relationsHash_not_mem : "mb_relations_hash" ∉ artistSpec.fields.map Prod.fst ++ stamps := by
  decide

/-- The relation phase adds and removes no node. -/
theorem RelationPhase.isSome_node (h : RelationPhase rt gate records g g₁ g') (k : NodeKey) :
    (g'.node k).isSome = (g₁.node k).isSome := by
  by_cases hk : ∃ r, Selects rt gate records g r ∧ Complete rt g r.1 ∧
      artistKey (ownerText rt r.1) = k
  · obtain ⟨r, hsel, hcomp, rfl⟩ := hk
    rw [h.stored r hsel hcomp, Option.isSome_map]
  · rw [h.frame k fun r hsel hcomp heq => hk ⟨r, hsel, hcomp, heq⟩]

/-- The relation phase writes the relations digest only. -/
theorem RelationPhase.eq_of_ne (h : RelationPhase rt gate records g g₁ g') {key : String}
    (hkey : key ≠ "mb_relations_hash") (k : NodeKey) :
    (g'.node k).map (· key) = (g₁.node k).map (· key) := by
  by_cases hk : ∃ r, Selects rt gate records g r ∧ Complete rt g r.1 ∧
      artistKey (ownerText rt r.1) = k
  · obtain ⟨r, hsel, hcomp, rfl⟩ := hk
    rw [h.stored r hsel hcomp, Option.map_map]
    congr 1
    funext n
    exact Function.update_of_ne hkey _ _
  · rw [h.frame k fun r hsel hcomp heq => hk ⟨r, hsel, hcomp, heq⟩]

theorem grows_of_batch (hwrite : NodeWrite rt gate now artistSpec records g g₁)
    (hphase : RelationPhase rt gate records g g₁ g') : Grows g g' := by
  refine ⟨fun id hid => ?_, fun type row hedge => (hphase.edges type row).mpr (.inl hedge)⟩
  rw [hphase.isSome_node, hwrite.isSome_node]
  exact hid

/-- After a batch the relations digest of an artist is as before, or it is that
of a selected and complete record of the artist. -/
theorem relationsHash_of_batch (hwrite : NodeWrite rt gate now artistSpec records g g₁)
    (hphase : RelationPhase rt gate records g g₁ g') {id : String} {n' : Props}
    (hn' : g'.node (artistKey id) = some n') :
    (∃ n, g.node (artistKey id) = some n ∧ n' "mb_relations_hash" = n "mb_relations_hash") ∨
      ∃ r, Selects rt gate records g r ∧ Complete rt g r.1 ∧ ownerText rt r.1 = id ∧
        n' "mb_relations_hash" = relationsDigest rt r.1 := by
  by_cases hk : ∃ r, Selects rt gate records g r ∧ Complete rt g r.1 ∧ ownerText rt r.1 = id
  · obtain ⟨r, hsel, hcomp, rfl⟩ := hk
    rw [hphase.stored r hsel hcomp, Option.map_eq_some_iff] at hn'
    obtain ⟨n₁, _, rfl⟩ := hn'
    exact .inr ⟨r, hsel, hcomp, rfl, Function.update_self _ _ _⟩
  · have hframe := hphase.frame (artistKey id) fun r hsel hcomp heq =>
      hk ⟨r, hsel, hcomp, artistKey_inj.mp heq⟩
    have hsame := hwrite.eq_of_not_mem relationsHash_not_mem (artistKey id)
    rw [← hframe, hn', Option.map_some, eq_comm, Option.map_eq_some_iff] at hsame
    obtain ⟨n, hn, heq⟩ := hsame
    exact .inl ⟨n, hn, heq.symm⟩

end Write

end Brainzgraphinator
