-- SUMMARY: What a release holds of a record, and that an injective digest identifies it.
import Brainzgraphinator.Projections.NodeProps
import Brainzgraphinator.Projections.ReleaseView

/-!
# What a stored digest stands for

`Holds record v`: the release carries the record's digest, its property row and,
when the record has a media block, that block (`Shows`). With an injective
digest, two records of equal digest are held alike, so a gate that compares
digests skips only what the release holds already (`project_holds`).
-/

namespace Brainzgraphinator

/-! ## Properties of the written row -/

/-- The properties the summary statement writes. -/
def summaryProps : List String := ["mb_media_families", "mb_medium_count"]

/-- All properties the release projections write. -/
def releaseProps : List String :=
  releaseFields.map Prod.fst ++ stamps ++ summaryProps

section WriteRow

variable (n : Props)

theorem setSummary_of_not_mem (summary : SummaryRow) {key : String} (h : key ∉ summaryProps) :
    setSummary summary n key = n key := by
  simp only [summaryProps, List.mem_cons, List.not_mem_nil, or_false, not_or] at h
  rw [setSummary, Function.update_of_ne h.2, Function.update_of_ne h.1]

end WriteRow

/-! ## Holding a record -/

section Holds

variable {rt : Runtime} {gate : Bool} {now : Json}

/-- The media of the release are those of the block. -/
structure Shows (rt : Runtime) (block : MediaBlock) (v : ReleaseView) : Prop where
  families : v.props "mb_media_families" = strings (rt.familiesOf block)
  count : v.props "mb_medium_count" = .int (mediumCount block)
  media : ∀ m q, q ∈ v.media m ↔ ∃ row ∈ mediaEdgeRows rt block, row.medium = m ∧ q = .int row.qty

/-- The release carries what the record projects. -/
structure Holds (rt : Runtime) (record : Dict) (v : ReleaseView) : Prop where
  row : Carries rt (releaseSpec rt) record v.props
  block : ∀ block, releaseMediaBlock rt record = some block → Shows rt block v

/-- The stored digest, if there is one, is that of a record the release holds. -/
def Stored (rt : Runtime) (v : ReleaseView) : Prop :=
  v.props "mb_hash" = .null ∨ ∃ record, Holds rt record v

/-- The two views have the same media. -/
structure SameMedia (v v' : ReleaseView) : Prop where
  summary : ∀ key ∈ summaryProps, v.props key = v'.props key
  media : ∀ m q, q ∈ v.media m ↔ q ∈ v'.media m

theorem SameMedia.refl (v : ReleaseView) : SameMedia v v := ⟨fun _ _ => rfl, fun _ _ => Iff.rfl⟩

theorem SameMedia.symm {v v' : ReleaseView} (h : SameMedia v v') : SameMedia v' v :=
  ⟨fun key hk => (h.summary key hk).symm, fun m q => (h.media m q).symm⟩

theorem SameMedia.trans {v v' v'' : ReleaseView} (h : SameMedia v v') (h' : SameMedia v' v'') :
    SameMedia v v'' :=
  ⟨fun key hk => (h.summary key hk).trans (h'.summary key hk),
    fun m q => (h.media m q).trans (h'.media m q)⟩

/-- A block decides the media. -/
theorem Shows.sameMedia {block : MediaBlock} {v v' : ReleaseView} (h : Shows rt block v)
    (h' : Shows rt block v') : SameMedia v v' := by
  constructor
  · simp only [summaryProps, List.mem_cons, List.not_mem_nil, or_false]
    rintro key (rfl | rfl)
    · rw [h.families, h'.families]
    · rw [h.count, h'.count]
  · intro m q
    rw [h.media, h'.media]

theorem Shows.of_sameMedia {block : MediaBlock} {v v' : ReleaseView} (h : Shows rt block v)
    (hsame : SameMedia v v') : Shows rt block v' := by
  refine ⟨?_, ?_, ?_⟩
  · rw [← hsame.summary _ (by decide), h.families]
  · rw [← hsame.summary _ (by decide), h.count]
  · intro m q
    rw [← hsame.media, h.media]

theorem reconcile_shows (block : MediaBlock) (v : ReleaseView) :
    Shows rt block (v.reconcile rt block) := by
  refine ⟨by simp [ReleaseView.reconcile, setSummary, summaryRow],
    by simp [ReleaseView.reconcile, setSummary, summaryRow], fun m q => ?_⟩
  simp only [ReleaseView.reconcile]
  cases hfind : (mediaEdgeRows rt block).find? fun row => row.medium = m with
  | none =>
    rw [List.find?_eq_none] at hfind
    simp only [List.not_mem_nil, false_iff]
    rintro ⟨row, hrow, hm, _⟩
    have := hfind row hrow
    simp [hm] at this
  | some row =>
    dsimp only
    rw [mem_settle]
    constructor
    · rintro rfl
      obtain ⟨hmem, hm⟩ := find?_mediaEdgeRows.mp hfind
      exact ⟨row, hmem, hm, rfl⟩
    · rintro ⟨row', hmem, hm, rfl⟩
      rw [find?_mediaEdgeRows.mpr ⟨hmem, hm⟩] at hfind
      cases hfind
      rfl

/-! ## The digest identifies what is held -/

/-- Equal media digests come from blocks that project the same. -/
theorem mediaDigest_eq {record record' : Dict} (h : mediaDigest rt record = mediaDigest rt record')
    {block : MediaBlock} (hblock : releaseMediaBlock rt record = some block) :
    ∃ block', releaseMediaBlock rt record' = some block' ∧
      rt.familiesOf block = rt.familiesOf block' ∧ mediumCount block = mediumCount block' ∧
      mediaEdgeRows rt block = mediaEdgeRows rt block' := by
  rw [mediaDigest, hblock, mediaDigest] at h
  cases hblock' : releaseMediaBlock rt record' with
  | none => rw [hblock'] at h; cases h
  | some block' =>
    rw [hblock'] at h
    simp only [Json.arr.injEq, List.cons.injEq, and_true, Json.int.injEq, Int.ofNat_inj] at h
    exact ⟨block', rfl, strings_injective h.1, h.2.1,
      List.map_injective_iff.mpr MediaRow.toJson_injective h.2.2⟩

/-- A release that carries the digest of a record holds that record. -/
theorem Stored.holds (hinj : Function.Injective rt.hexdigest) {v : ReleaseView}
    (h : Stored rt v) {record : Dict} {row : EntityRow}
    (hproj : (releaseSpec rt).Projects rt record row) (hhash : v.props "mb_hash" = row.mbHash) :
    Holds rt record v := by
  rcases h with hnull | ⟨record', ⟨row', hproj', hhash', hfields'⟩, hblock'⟩
  · rw [hnull, hproj.2] at hhash
    exact absurd hhash.symm (payloadHash_ne_null _)
  · -- Equal digests: the rows and the media digests agree.
    have heq := hhash'.symm.trans hhash
    rw [hproj.2, hproj'.2, payloadHash_inj hinj, List.cons.injEq, List.cons.injEq,
      Json.obj.injEq] at heq
    refine ⟨⟨row, hproj, hhash, ?_⟩, ?_⟩
    · intro field hfield
      rw [hfields' field hfield, heq.1]
    · intro block hblock
      obtain ⟨block', hb, hfamilies, hcount, hrows⟩ := mediaDigest_eq heq.2.1.symm hblock
      have hshows := hblock' block' hb
      refine ⟨?_, ?_, ?_⟩
      · rw [hshows.families, hfamilies]
      · rw [hshows.count, hcount]
      · intro m q
        rw [hshows.media, hrows]

/-! ## Projecting a record -/

/-- What the two views have in common besides what the projections write. -/
def SameOthers (v v' : ReleaseView) : Prop := ∀ key ∉ releaseProps, v.props key = v'.props key

variable (gate now) in
/-- After a record was projected, gated or not, the release holds it; without a
block the media stay, and no other property changes. -/
theorem project_holds (hinj : Function.Injective rt.hexdigest) {v : ReleaseView}
    (hstored : Stored rt v) {record : Dict} {row : EntityRow}
    (hproj : (releaseSpec rt).Projects rt record row) :
    Holds rt record (v.project rt gate now record row) ∧
      (releaseMediaBlock rt record = none → SameMedia v (v.project rt gate now record row)) ∧
      SameOthers v (v.project rt gate now record row) := by
  unfold ReleaseView.project
  by_cases hc : changed gate v.props row.mbHash
  · rw [if_pos hc]
    dsimp only
    cases hblock : releaseMediaBlock rt record with
    | none =>
      refine ⟨⟨⟨row, hproj, writeRow_hash now row v.props releaseFields,
        fun field hf => writeRow_field now row v.props (releaseSpec_wellFormed rt) hf⟩, ?_⟩, ?_, ?_⟩
      · rw [hblock]; exact nofun
      · refine fun _ => ⟨?_, fun _ _ => Iff.rfl⟩
        have hdisj : ∀ key ∈ summaryProps,
            key ∉ releaseFields.map Prod.fst ++ stamps := by decide
        exact fun key hk => (writeRow_of_not_mem now row v.props (hdisj key hk)).symm
      · intro key hk
        rw [releaseProps, List.mem_append, not_or] at hk
        exact (writeRow_of_not_mem now row v.props hk.1).symm
    | some block =>
      have hdisj : ∀ key ∈ releaseFields.map Prod.fst ++ stamps,
          key ∉ summaryProps := by decide
      refine ⟨⟨⟨row, hproj, ?_, ?_⟩, ?_⟩, nofun, ?_⟩
      · exact (setSummary_of_not_mem _ (summaryRow rt "" block) (hdisj _ (by decide))).trans
          (writeRow_hash now row v.props releaseFields)
      · intro field hf
        have hmem : field.1 ∈ releaseFields.map Prod.fst ++ stamps :=
          List.mem_append_left _ (List.mem_map_of_mem hf)
        exact (setSummary_of_not_mem _ (summaryRow rt "" block) (hdisj _ hmem)).trans
          (writeRow_field now row v.props (releaseSpec_wellFormed rt) hf)
      · rintro block' hblock'
        cases hblock.symm.trans hblock'
        exact reconcile_shows block _
      · intro key hk
        rw [releaseProps, List.mem_append, not_or] at hk
        exact ((setSummary_of_not_mem _ (summaryRow rt "" block) hk.2).trans
          (writeRow_of_not_mem now row v.props hk.1)).symm
  · rw [if_neg hc]
    have hhash : v.props "mb_hash" = row.mbHash := by
      simp only [changed, Bool.or_eq_true, decide_eq_true_eq, not_or, not_not] at hc
      exact hc.2.2
    exact ⟨hstored.holds hinj hproj hhash, fun _ => SameMedia.refl v, fun _ _ => rfl⟩

end Holds

end Brainzgraphinator
