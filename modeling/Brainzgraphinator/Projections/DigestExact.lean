-- SUMMARY: What the digest of a record says about its projection, and what else leaks into it.
import Brainzgraphinator.Projections.RelationsGate
import Brainzgraphinator.Projections.RowLaws

/-!
# What the digest says

Records of equal digest project the same. The converse fails where the digest covers what
is not projected: the order of the media rows, and the relations of an artist as they came,
with their order, their repetitions and all that the projection does not read.
-/

namespace Brainzgraphinator

variable {rt : Runtime}

/-! ## Artists -/

/-- On the artist `owner`, a relation of the record becomes this edge. -/
def ProjectsEdge (rt : Runtime) (owner : String) (record : Dict) (type : RelType) (source target : String) : Prop :=
  ∃ relation ∈ (recordRelations record).elems, ∃ row, supported rt owner relation = some (type, some row) ∧
    row.sourceId = source ∧ row.targetId = target

/-- A supported relation of the record names no target. -/
def Untargeted (rt : Runtime) (owner : String) (record : Dict) (type : RelType) : Prop :=
  ∃ relation ∈ (recordRelations record).elems, supported rt owner relation = some (type, none)

/-- The two records project the same onto the artist `owner`. -/
structure AlikeArtists (rt : Runtime) (owner : String) (record record' : Dict) : Prop where
  row : artistRow record = artistRow record'
  edges : ∀ type source target,
    ProjectsEdge rt owner record type source target ↔ ProjectsEdge rt owner record' type source target
  untargeted : ∀ type, Untargeted rt owner record type ↔ Untargeted rt owner record' type

theorem AlikeArtists.of_relations {owner : String} {record record' : Dict} (hrow : artistRow record = artistRow record')
    (h : recordRelations record = recordRelations record') : AlikeArtists rt owner record record' where
  row := hrow
  edges type source target := by rw [ProjectsEdge, ProjectsEdge, h]
  untargeted type := by rw [Untargeted, Untargeted, h]

/-- The digest of an artist is that of its row and its relations as they came. -/
theorem artist_mbHash_eq_iff (hinj : Function.Injective rt.hexdigest) {record record' : Dict} {row row' : EntityRow}
    (hproj : artistSpec.Projects rt record row) (hproj' : artistSpec.Projects rt record' row') :
    row.mbHash = row'.mbHash ↔
      artistRow record = artistRow record' ∧ recordRelations record = recordRelations record' := by
  have hrow : artistRow record = .ok row.row := hproj.1
  have hrow' : artistRow record' = .ok row'.row := hproj'.1
  rw [hproj.2, hproj'.2, payloadHash_inj hinj, hrow, hrow', List.cons.injEq, List.cons.injEq, Json.obj.injEq,
    Except.ok.injEq]
  exact ⟨fun h => ⟨h.1, h.2.1⟩, fun h => ⟨h.1, h.2, rfl⟩⟩

/-! ## Releases -/

/-- The two records give a release the same families, the same count and the same media. -/
structure AlikeBlocks (rt : Runtime) (block block' : MediaBlock) : Prop where
  families : rt.familiesOf block = rt.familiesOf block'
  count : mediumCount block = mediumCount block'
  media : ∀ row, row ∈ mediaEdgeRows rt block ↔ row ∈ mediaEdgeRows rt block'

/-- The two records project the same onto a release. -/
structure AlikeReleases (rt : Runtime) (record record' : Dict) : Prop where
  row : releaseRow rt record = releaseRow rt record'
  block : Option.Rel (AlikeBlocks rt) (releaseMediaBlock rt record) (releaseMediaBlock rt record')

/-- The media rows of the two records come in the same order. -/
def MediaInOrder (rt : Runtime) (record record' : Dict) : Prop :=
  (releaseMediaBlock rt record).map (mediaEdgeRows rt) = (releaseMediaBlock rt record').map (mediaEdgeRows rt)

theorem mediaDigest_eq_iff {record record' : Dict} :
    mediaDigest rt record = mediaDigest rt record' ↔
      Option.Rel (AlikeBlocks rt) (releaseMediaBlock rt record) (releaseMediaBlock rt record') ∧
        MediaInOrder rt record record' := by
  unfold mediaDigest MediaInOrder
  cases releaseMediaBlock rt record with
  | none =>
    cases releaseMediaBlock rt record' with
    | none => exact ⟨fun _ => ⟨.none, rfl⟩, fun _ => rfl⟩
    | some block' => exact ⟨nofun, nofun⟩
  | some block =>
    cases releaseMediaBlock rt record' with
    | none => exact ⟨nofun, nofun⟩
    | some block' =>
      simp only [Json.arr.injEq, List.cons.injEq, and_true, Json.int.injEq, Int.ofNat_inj, Option.map_some,
        Option.some.injEq]
      constructor
      · rintro ⟨hfamilies, hcount, hrows⟩
        have heq := List.map_injective_iff.mpr MediaRow.toJson_injective hrows
        exact ⟨.some ⟨strings_injective hfamilies, hcount, fun row => by rw [heq]⟩, heq⟩
      · rintro ⟨⟨hsame⟩, heq⟩
        exact ⟨congrArg strings hsame.families, hsame.count, congrArg (List.map MediaRow.toJson) heq⟩

theorem release_mbHash_eq_iff (hinj : Function.Injective rt.hexdigest) {record record' : Dict} {row row' : EntityRow}
    (hproj : (releaseSpec rt).Projects rt record row) (hproj' : (releaseSpec rt).Projects rt record' row') :
    row.mbHash = row'.mbHash ↔ AlikeReleases rt record record' ∧ MediaInOrder rt record record' := by
  have hrow : releaseRow rt record = .ok row.row := hproj.1
  have hrow' : releaseRow rt record' = .ok row'.row := hproj'.1
  have hdigest : row.mbHash = row'.mbHash ↔
      releaseRow rt record = releaseRow rt record' ∧ mediaDigest rt record = mediaDigest rt record' := by
    rw [hproj.2, hproj'.2, payloadHash_inj hinj, hrow, hrow', List.cons.injEq, List.cons.injEq, Json.obj.injEq,
      Except.ok.injEq]
    exact ⟨fun h => ⟨h.1, h.2.1⟩, fun h => ⟨h.1, h.2, rfl⟩⟩
  rw [hdigest, mediaDigest_eq_iff]
  exact ⟨fun h => ⟨⟨h.1, h.2.1⟩, h.2.2⟩, fun h => ⟨h.1.row, h.1.block, h.2⟩⟩

/-! ## How exact the digest is -/

/-- Digests are equal exactly for equal projections, where records that project the same have
the same relations, or list their media in the same order. -/
theorem digest_exact_iff (hinj : Function.Injective rt.hexdigest) {record record' : Dict} {row row' : EntityRow} :
    (∀ owner, artistSpec.Projects rt record row → artistSpec.Projects rt record' row' →
      ((row.mbHash = row'.mbHash ↔ AlikeArtists rt owner record record') ↔
        (recordRelations record ≠ recordRelations record' → ¬AlikeArtists rt owner record record'))) ∧
    ((releaseSpec rt).Projects rt record row → (releaseSpec rt).Projects rt record' row' →
      ((row.mbHash = row'.mbHash ↔ AlikeReleases rt record record') ↔
        (¬MediaInOrder rt record record' → ¬AlikeReleases rt record record'))) := by
  constructor
  · intro owner hproj hproj'
    rw [artist_mbHash_eq_iff hinj hproj hproj']
    constructor
    · exact fun h hne hsame => hne (h.mpr hsame).2
    · intro h
      refine ⟨fun heq => .of_relations heq.1 heq.2, fun hsame => ⟨hsame.row, ?_⟩⟩
      by_contra hne
      exact h hne hsame
  · intro hproj hproj'
    rw [release_mbHash_eq_iff hinj hproj hproj']
    constructor
    · exact fun h hne hsame => hne (h.mpr hsame).2
    · intro h
      refine ⟨And.left, fun hsame => ⟨hsame, ?_⟩⟩
      by_contra hne
      exact h hne hsame

/-- A field that nothing reads leaves digest and projection alone. -/
theorem digest_exact_iff_named : ∃ row row',
    artistSpec.Projects plainRuntime (memberRecord "x" ["y"]) row ∧
    artistSpec.Projects plainRuntime (("name", .str "X") :: memberRecord "x" ["y"]) row' ∧
    (row.mbHash = row'.mbHash ↔
      AlikeArtists plainRuntime "x" (memberRecord "x" ["y"]) (("name", .str "X") :: memberRecord "x" ["y"])) := by
  obtain ⟨row, hrow⟩ : ∃ row, artistRow (memberRecord "x" ["y"]) = .ok row := ⟨_, rfl⟩
  obtain ⟨row', hrow'⟩ : ∃ row, artistRow (("name", .str "X") :: memberRecord "x" ["y"]) = .ok row := ⟨_, rfl⟩
  have hproj : artistSpec.Projects plainRuntime (memberRecord "x" ["y"])
      ⟨0, "x", row, payloadHash plainRuntime [.obj row, recordRelations (memberRecord "x" ["y"])]⟩ := ⟨hrow, rfl⟩
  have hproj' : artistSpec.Projects plainRuntime (("name", .str "X") :: memberRecord "x" ["y"])
      ⟨0, "x", row', payloadHash plainRuntime
        [.obj row', recordRelations (("name", .str "X") :: memberRecord "x" ["y"])]⟩ := ⟨hrow', rfl⟩
  exact ⟨_, _, hproj, hproj',
    ((digest_exact_iff plainRuntime_injective).1 "x" hproj hproj').mpr fun hne => absurd rfl hne⟩

theorem recordRelations_memberRecord (id : String) (targets : List String) :
    recordRelations (memberRecord id targets) = .arr (targets.map memberOfBand) := by
  cases targets with
  | nil => rfl
  | cons target targets => rfl

theorem projectsEdge_memberRecord {owner id : String} {targets : List String} {type : RelType} {source target : String} :
    ProjectsEdge rt owner (memberRecord id targets) type source target ↔
      type = .memberOf ∧ source = owner ∧ target ∈ targets := by
  rw [ProjectsEdge, recordRelations_memberRecord]
  constructor
  · rintro ⟨relation, hrel, row, hrow, rfl, rfl⟩
    obtain ⟨target, htarget, rfl⟩ := List.mem_map.mp hrel
    rw [supported_memberOfBand] at hrow
    cases hrow
    exact ⟨rfl, rfl, htarget⟩
  · rintro ⟨rfl, rfl, htarget⟩
    exact ⟨memberOfBand target, List.mem_map_of_mem htarget, _, supported_memberOfBand source target, rfl, rfl⟩

theorem not_untargeted_memberRecord {owner id : String} {targets : List String} {type : RelType} :
    ¬Untargeted rt owner (memberRecord id targets) type := by
  rintro ⟨relation, hrel, hnone⟩
  rw [recordRelations_memberRecord] at hrel
  obtain ⟨target, _, rfl⟩ := List.mem_map.mp hrel
  rw [supported_memberOfBand] at hnone
  cases hnone

/-- A release on two media of one family, in either order. -/
def twoMediaRecord (media : List String) : Dict :=
  [("discogs_release_id", .str "r"), ("media", .obj [("items", .arr (media.map fun medium =>
    .obj [("family", .str "optical"), ("medium", .str medium)]))])]

/-- The families of a block without repetitions. -/
def dedupRuntime : Runtime := { plainRuntime with familiesOf := fun media => (plainRuntime.familiesOf media).dedup }

theorem alikeReleases_twoMediaRecord :
    AlikeReleases dedupRuntime (twoMediaRecord ["cd", "sacd"]) (twoMediaRecord ["sacd", "cd"]) ∧
      ¬MediaInOrder dedupRuntime (twoMediaRecord ["cd", "sacd"]) (twoMediaRecord ["sacd", "cd"]) := by
  have hblock : ∀ media, releaseMediaBlock dedupRuntime (twoMediaRecord media) =
      some ⟨[("items", .arr (media.map fun medium => .obj [("family", .str "optical"), ("medium", .str medium)]))],
        media.map fun medium => .obj [("family", .str "optical"), ("medium", .str medium)], rfl⟩ := fun _ => rfl
  constructor
  · refine ⟨rfl, ?_⟩
    rw [hblock, hblock]
    refine .some ⟨by decide +kernel, rfl, fun row => ?_⟩
    have hrows : mediaEdgeRows dedupRuntime
        ⟨[("items", .arr (["cd", "sacd"].map fun medium => .obj [("family", .str "optical"), ("medium", .str medium)]))],
          ["cd", "sacd"].map fun medium => .obj [("family", .str "optical"), ("medium", .str medium)], rfl⟩ =
        [⟨"cd", "optical", "cd", 1⟩, ⟨"sacd", "optical", "sacd", 1⟩] := by decide +kernel
    have hrows' : mediaEdgeRows dedupRuntime
        ⟨[("items", .arr (["sacd", "cd"].map fun medium => .obj [("family", .str "optical"), ("medium", .str medium)]))],
          ["sacd", "cd"].map fun medium => .obj [("family", .str "optical"), ("medium", .str medium)], rfl⟩ =
        [⟨"sacd", "optical", "sacd", 1⟩, ⟨"cd", "optical", "cd", 1⟩] := by decide +kernel
    rw [hrows, hrows']
    simp only [List.mem_cons, List.not_mem_nil, or_false]
    exact Or.comm
  · rw [MediaInOrder, hblock, hblock]
    decide +kernel

/-- Members that swap places, and media that do, change the digest. -/
theorem digest_of_order :
    (∃ row row', artistSpec.Projects plainRuntime (memberRecord "x" ["y", "z"]) row ∧
      artistSpec.Projects plainRuntime (memberRecord "x" ["z", "y"]) row' ∧
      AlikeArtists plainRuntime "x" (memberRecord "x" ["y", "z"]) (memberRecord "x" ["z", "y"]) ∧
      row.mbHash ≠ row'.mbHash) ∧
    ∃ row row', (releaseSpec dedupRuntime).Projects dedupRuntime (twoMediaRecord ["cd", "sacd"]) row ∧
      (releaseSpec dedupRuntime).Projects dedupRuntime (twoMediaRecord ["sacd", "cd"]) row' ∧
      AlikeReleases dedupRuntime (twoMediaRecord ["cd", "sacd"]) (twoMediaRecord ["sacd", "cd"]) ∧
      row.mbHash ≠ row'.mbHash := by
  constructor
  · obtain ⟨row, hrow⟩ : ∃ row, artistRow (memberRecord "x" ["y", "z"]) = .ok row := ⟨_, rfl⟩
    have hproj : artistSpec.Projects plainRuntime (memberRecord "x" ["y", "z"])
        ⟨0, "x", row, payloadHash plainRuntime [.obj row, recordRelations (memberRecord "x" ["y", "z"])]⟩ := ⟨hrow, rfl⟩
    have hproj' : artistSpec.Projects plainRuntime (memberRecord "x" ["z", "y"])
        ⟨0, "x", row, payloadHash plainRuntime [.obj row, recordRelations (memberRecord "x" ["z", "y"])]⟩ := ⟨hrow, rfl⟩
    refine ⟨_, _, hproj, hproj', ⟨rfl, fun type source target => ?_, fun type => ?_⟩, fun heq => ?_⟩
    · rw [projectsEdge_memberRecord, projectsEdge_memberRecord, (List.Perm.swap "y" "z" []).mem_iff]
    · exact iff_of_false not_untargeted_memberRecord not_untargeted_memberRecord
    · have hrelations := ((artist_mbHash_eq_iff plainRuntime_injective hproj hproj').mp heq).2
      rw [recordRelations_memberRecord, recordRelations_memberRecord] at hrelations
      revert hrelations
      decide
  · obtain ⟨row, hrow⟩ : ∃ row, releaseRow dedupRuntime (twoMediaRecord ["cd", "sacd"]) = .ok row := ⟨_, rfl⟩
    have hproj : (releaseSpec dedupRuntime).Projects dedupRuntime (twoMediaRecord ["cd", "sacd"])
        ⟨0, "r", row, payloadHash dedupRuntime [.obj row, mediaDigest dedupRuntime (twoMediaRecord ["cd", "sacd"])]⟩ :=
      ⟨hrow, rfl⟩
    have hproj' : (releaseSpec dedupRuntime).Projects dedupRuntime (twoMediaRecord ["sacd", "cd"])
        ⟨0, "r", row, payloadHash dedupRuntime [.obj row, mediaDigest dedupRuntime (twoMediaRecord ["sacd", "cd"])]⟩ :=
      ⟨hrow, rfl⟩
    have hinj : Function.Injective dedupRuntime.hexdigest := plainRuntime_injective
    exact ⟨_, _, hproj, hproj', alikeReleases_twoMediaRecord.1, fun heq =>
      alikeReleases_twoMediaRecord.2 ((release_mbHash_eq_iff hinj hproj hproj').mp heq).2⟩

end Brainzgraphinator
