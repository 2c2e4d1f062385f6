-- SUMMARY: When one release batch leaves the releases as the same records one by one would.
import Brainzgraphinator.Projections.BatchSuccess
import Brainzgraphinator.Projections.Serialization

/-!
# One batch against one record at a time

Both runs project the same last record of every release, so they agree on its
row and its digest. They can differ in its media only: a batch reconciles the
block of the last record, a run in list order that of the last record that
carries one. They agree exactly when every release `KeepsMedia`.
-/

namespace Brainzgraphinator

variable {rt : Runtime} {gate : Bool} {now : Json}

/-- `enrich_release` on the records one by one; `clock` is the time of each write. -/
def enrichReleasesInOrder (rt : Runtime) (gate : Bool) (clock : Nat → Json) (records : List Dict)
    (tx : Tx) : Except Failure Tx :=
  records.zipIdx.foldlM (fun tx r => enrichRelease rt gate (clock r.2) r.1 tx) tx

/-- The block of the last record of the release that carries one. -/
def lastBlockOf (rt : Runtime) (records : List Dict) (id : String) : Option MediaBlock :=
  records.reverse.findSome? fun r =>
    if discogsId rt "discogs_release_id" r = some id then releaseMediaBlock rt r else none

/-- The same properties, the time of the write excepted, and the same set of
musicbrainz edges with their quantities. -/
structure SameRelease (v v' : ReleaseView) : Prop where
  props : ∀ key, key ≠ "mb_updated_at" → v.props key = v'.props key
  media : ∀ m q, q ∈ v.media m ↔ q ∈ v'.media m

def SameReleases (g g' : Graph) : Prop :=
  ∀ id, Option.Rel SameRelease (releaseView g id) (releaseView g' id)

/-- Every stored digest is that of a record the release holds. -/
def StoredDigests (rt : Runtime) (g : Graph) : Prop :=
  ∀ id v, releaseView g id = some v → Stored rt v

/-- When the last record of the release carries no block but an earlier one of
the batch does, the release shows the media of that block already. -/
def KeepsMedia (rt : Runtime) (records : List Dict) (id : String) (v : ReleaseView) : Prop :=
  ∀ record block, lastOf rt "discogs_release_id" records id = some record →
    releaseMediaBlock rt record = none → lastBlockOf rt records id = some block → Shows rt block v

/-! ## The view after some records -/

/-- `v` is what projecting the records in order leaves of `v₀`. -/
structure InOrder (rt : Runtime) (records : List Dict) (id : String) (v₀ v : ReleaseView) : Prop where
  unnamed : lastOf rt "discogs_release_id" records id = none → v = v₀
  holds : ∀ record, lastOf rt "discogs_release_id" records id = some record → Holds rt record v
  block : ∀ block, lastBlockOf rt records id = some block → Shows rt block v
  media : lastBlockOf rt records id = none → SameMedia v₀ v
  others : SameOthers v₀ v

variable (rt) in
theorem lastOf_concat (key : String) (records : List Dict) (record : Dict) (id : String) :
    lastOf rt key (records ++ [record]) id =
      if discogsId rt key record = some id then some record else lastOf rt key records id := by
  by_cases h : discogsId rt key record = some id <;> simp [lastOf, h]

variable (rt) in
theorem lastBlockOf_concat (records : List Dict) (record : Dict) (id : String) :
    lastBlockOf rt (records ++ [record]) id =
      if discogsId rt "discogs_release_id" record = some id then
        (releaseMediaBlock rt record).or (lastBlockOf rt records id)
      else lastBlockOf rt records id := by
  by_cases h : discogsId rt "discogs_release_id" record = some id
  · cases hb : releaseMediaBlock rt record <;> simp [lastBlockOf, h, hb]
  · simp [lastBlockOf, h]

theorem InOrder.nil (id : String) (v : ReleaseView) : InOrder rt [] id v v :=
  ⟨fun _ => rfl, nofun, nofun, fun _ => SameMedia.refl v, fun _ _ => rfl⟩

/-- A record of another release is not seen. -/
theorem InOrder.skip {records : List Dict} {id : String} {v₀ v : ReleaseView}
    (h : InOrder rt records id v₀ v) {record : Dict}
    (hid : discogsId rt "discogs_release_id" record ≠ some id) :
    InOrder rt (records ++ [record]) id v₀ v := by
  have hlast := lastOf_concat rt "discogs_release_id" records record id
  have hblock := lastBlockOf_concat rt records record id
  rw [if_neg hid] at hlast hblock
  refine ⟨?_, ?_, ?_, ?_, h.others⟩
  · rw [hlast]; exact h.unnamed
  · rw [hlast]; exact h.holds
  · rw [hblock]; exact h.block
  · rw [hblock]; exact h.media

/-- The digest stays truthful while records are projected. -/
theorem InOrder.stored {records : List Dict} {id : String} {v₀ v : ReleaseView}
    (h : InOrder rt records id v₀ v) (hstored : Stored rt v₀) : Stored rt v := by
  cases hlast : lastOf rt "discogs_release_id" records id with
  | none => rw [h.unnamed hlast]; exact hstored
  | some record => exact .inr ⟨record, h.holds record hlast⟩

theorem InOrder.project (hinj : Function.Injective rt.hexdigest) {records : List Dict} {id : String}
    {v₀ v : ReleaseView} (h : InOrder rt records id v₀ v) (hstored : Stored rt v₀) {record : Dict}
    {row : EntityRow} (hid : discogsId rt "discogs_release_id" record = some id)
    (hproj : (releaseSpec rt).Projects rt record row) :
    InOrder rt (records ++ [record]) id v₀ (v.project rt gate now record row) := by
  obtain ⟨hholds, hsame, hothers⟩ :=
    project_holds gate now hinj (h.stored hstored) hproj
  have hlast := lastOf_concat rt "discogs_release_id" records record id
  have hblock := lastBlockOf_concat rt records record id
  rw [if_pos hid] at hlast hblock
  refine ⟨?_, ?_, ?_, ?_, fun key hk => (h.others key hk).trans (hothers key hk)⟩
  · rw [hlast]; exact nofun
  · rw [hlast]
    rintro _ ⟨⟩
    exact hholds
  · intro block hb
    rw [hblock] at hb
    cases hcarried : releaseMediaBlock rt record with
    | none =>
      rw [hcarried, Option.none_or] at hb
      exact (h.block block hb).of_sameMedia (hsame hcarried)
    | some block' =>
      rw [hcarried, Option.some_or] at hb
      cases hb
      exact hholds.block _ hcarried
  · intro hb
    rw [hblock, Option.or_eq_none_iff] at hb
    exact (h.media hb.2).trans (hsame hb.1)

/-- One record at a time, each release goes through its own records in order. -/
theorem enrichReleasesInOrder_inOrder (hinj : Function.Injective rt.hexdigest) {clock : Nat → Json}
    {records : List Dict} {tx tx' : Tx} (hstored : StoredDigests rt tx.graph)
    (h : enrichReleasesInOrder rt gate clock records tx = .ok tx') (id : String) :
    Option.Rel (InOrder rt records id) (releaseView tx.graph id) (releaseView tx'.graph id) := by
  induction records using List.reverseRecOn generalizing tx' with
  | nil =>
    cases Except.pure_eq_ok.mp h
    cases releaseView tx.graph id with
    | none => exact .none
    | some v => exact .some (InOrder.nil id v)
  | append_singleton records record ih =>
    rw [enrichReleasesInOrder, List.zipIdx_append, List.foldlM_append] at h
    obtain ⟨tx₁, hprefix, h⟩ := Except.bind_eq_ok.mp h
    rw [List.zipIdx_singleton, List.foldlM_cons] at h
    obtain ⟨tx₂, hrecord, h⟩ := Except.bind_eq_ok.mp h
    cases Except.pure_eq_ok.mp h
    have hview := (enrichRelease_releaseWrite hrecord).releaseView id
    rw [lastOf_singleton] at hview
    have hih := ih hprefix
    by_cases hid : discogsId rt "discogs_release_id" record = some id
    · rw [if_pos hid] at hview
      obtain ⟨row, hproj, hview⟩ := hview
      rw [hview]
      have hstored := hstored id
      generalize releaseView tx.graph id = o₀ at hih hstored ⊢
      generalize releaseView tx₁.graph id = o at hih ⊢
      cases hih with
      | none => exact .none
      | some hin => exact .some (hin.project hinj (hstored _ rfl) hid hproj)
    · rw [if_neg hid] at hview
      rw [hview]
      generalize releaseView tx.graph id = o₀ at hih ⊢
      generalize releaseView tx₁.graph id = o at hih ⊢
      cases hih with
      | none => exact .none
      | some hin => exact .some (hin.skip hid)

/-! ## Where the two runs agree -/

/-- Two views that hold the same record differ at most in their media. -/
theorem sameRelease_of_holds {v₀ v v' : ReleaseView} {record : Dict} (h : Holds rt record v)
    (h' : Holds rt record v') (ho : SameOthers v₀ v) (ho' : SameOthers v₀ v') :
    SameRelease v v' ↔ SameMedia v v' := by
  constructor
  · exact fun hsame => ⟨fun key hk => hsame.props key (by
      rintro rfl
      revert hk
      decide), hsame.media⟩
  · intro hsame
    refine ⟨fun key hk => ?_, hsame.media⟩
    obtain ⟨row, hproj, hhash, hfields⟩ := h.row
    obtain ⟨row', hproj', hhash', hfields'⟩ := h'.row
    by_cases hmem : key ∈ releaseProps
    · simp only [releaseProps, stamps, List.mem_append, List.mem_cons, List.not_mem_nil, or_false,
        List.mem_map] at hmem
      rcases hmem with (⟨field, hfield, rfl⟩ | rfl | rfl) | hsummary
      · rw [hfields field hfield, hfields' field hfield, (hproj.unique hproj').1]
      · rw [hhash, hhash', (hproj.unique hproj').2]
      · exact absurd rfl hk
      · exact hsame.summary key hsummary
    · rw [← ho key hmem, ho' key hmem]

/-- The media of one release agree exactly when the batch keeps them. -/
theorem sameRelease_iff_keepsMedia {records : List Dict} {id : String} {record : Dict}
    {v₀ v v' : ReleaseView} (hlast : lastOf rt "discogs_release_id" records id = some record)
    (hbatch : Holds rt record v ∧ (releaseMediaBlock rt record = none → SameMedia v₀ v) ∧
      SameOthers v₀ v)
    (hseq : InOrder rt records id v₀ v') :
    SameRelease v v' ↔ KeepsMedia rt records id v₀ := by
  obtain ⟨hholds, hmedia, hothers⟩ := hbatch
  have hholds' := hseq.holds record hlast
  rw [sameRelease_of_holds hholds hholds' hothers hseq.others]
  cases hblock : releaseMediaBlock rt record with
  | some block =>
    have hkeeps : KeepsMedia rt records id v₀ := by
      intro record' _ hlast' hnone
      cases hlast.symm.trans hlast'
      rw [hblock] at hnone
      cases hnone
    exact iff_of_true ((hholds.block block hblock).sameMedia (hholds'.block block hblock)) hkeeps
  | none =>
    cases hb : lastBlockOf rt records id with
    | none =>
      have hkeeps : KeepsMedia rt records id v₀ := by
        intro _ _ _ _ hb'
        rw [hb] at hb'
        cases hb'
      exact iff_of_true ((hmedia hblock).symm.trans (hseq.media hb)) hkeeps
    | some block =>
      -- In order the block was projected; the batch left the media of `v₀`.
      have hshows := hseq.block block hb
      constructor
      · intro hsame record' block' _ _ hb'
        cases hb.symm.trans hb'
        exact hshows.of_sameMedia (((hmedia hblock).trans hsame).symm)
      · intro hkeeps
        exact ((hkeeps record block hlast hblock hb).of_sameMedia (hmedia hblock)).sameMedia hshows

/-- Records that go through one by one go through as a batch, which leaves the same releases
exactly when it keeps the media of each. -/
theorem enrichReleasesBatch_eq_inOrder_iff (hinj : Function.Injective rt.hexdigest)
    {clock : Nat → Json} {records : List Dict} {tx tx₂ : Tx} (hstored : StoredDigests rt tx.graph)
    (hseq : enrichReleasesInOrder rt gate clock records tx = .ok tx₂) :
    ∃ tx₁ flags, enrichReleasesBatch rt gate now records tx = .ok (tx₁, flags) ∧
      (SameReleases tx₁.graph tx₂.graph ↔
        ∀ id v, releaseView tx.graph id = some v → KeepsMedia rt records id v) := by
  obtain ⟨⟨tx₁, flags⟩, hbatch⟩ :
      ∃ r, batchProjections rt gate now .releases records tx = .ok r := by
    have hone : OneByOne rt gate .releases (records.zipIdx.map Prod.fst) tx.graph := .of_foldlM hseq
    rw [List.zipIdx_map_fst] at hone
    exact hone.exists_batch now hinj
  have hpointwise : ∀ id, Option.Rel SameRelease (releaseView tx₁.graph id) (releaseView tx₂.graph id) ↔
      ∀ v, releaseView tx.graph id = some v → KeepsMedia rt records id v := by
    intro id
    have hview := (enrichReleasesBatch_releaseWrite hbatch).releaseView id
    have horder := enrichReleasesInOrder_inOrder hinj hstored hseq id
    cases hv₀ : releaseView tx.graph id with
    | none =>
      rw [hv₀] at horder hview
      have hv₁ : releaseView tx₁.graph id = none := by
        split at hview
        · exact hview
        · obtain ⟨_, _, hview⟩ := hview
          exact hview
      generalize releaseView tx₂.graph id = o at horder ⊢
      cases horder
      simp [hv₁]
    | some v₀ =>
      rw [hv₀] at horder hview
      generalize releaseView tx₂.graph id = o at horder ⊢
      cases horder with
      | some hin =>
        rename_i v'
        cases hlast : lastOf rt "discogs_release_id" records id with
        | none =>
          rw [hlast] at hview
          dsimp only at hview
          have hkeeps : KeepsMedia rt records id v₀ := by
            intro record _ hlast'
            rw [hlast] at hlast'
            cases hlast'
          rw [hview, hin.unnamed hlast]
          simp only [Option.some.injEq, forall_eq', hkeeps, iff_true]
          exact .some ⟨fun _ _ => rfl, fun _ _ => Iff.rfl⟩
        | some record =>
          rw [hlast] at hview
          obtain ⟨row, hproj, hview⟩ := hview
          rw [hview, Option.map_some]
          simp only [Option.some.injEq, forall_eq', Option.rel_some_some]
          exact sameRelease_iff_keepsMedia hlast
            (project_holds gate now hinj (hstored id v₀ hv₀) hproj) hin
  exact ⟨tx₁, flags, hbatch, forall_congr' hpointwise⟩

/-! ## A duplicate that loses its media -/

/-- One release that MusicBrainz has not written yet. -/
def bareRelease : Graph where
  node k := if k = releaseKey "1" then some noProps else none
  rels := []
  closed := by simp

/-- The release with one medium. -/
def mediaRecord : Dict :=
  [("discogs_release_id", .int 1), ("media", .obj [("items", .arr [.obj [("medium", .str "cd"),
    ("family", .str "optical")]])])]

/-- The same release in an event without a media block. -/
def mediaLessRecord : Dict := [("discogs_release_id", .int 1), ("barcode", .str "5099902895529")]

theorem storedDigests_bareRelease (rt : Runtime) : StoredDigests rt bareRelease := by
  intro id v hv
  obtain ⟨hnode, _⟩ := releaseView_eq_some.mp hv
  simp only [bareRelease, Option.ite_none_right_eq_some, Option.some.injEq] at hnode
  exact .inl (by rw [← hnode.2]; rfl)

/-- The batch of both records leaves no musicbrainz edge. -/
theorem enrichReleasesBatch_bareRelease : ∃ r,
    enrichReleasesBatch plainRuntime true .null [mediaRecord, mediaLessRecord] ⟨bareRelease, {}⟩ = .ok r ∧
      (issuedQtys r.1.graph (releaseKey "1") (mediumKey "cd"),
        (r.1.graph.node (releaseKey "1")).isSome) = ([], true) :=
  Except.exists_eq_ok (by decide +kernel)

/-- One by one they leave the edge of the first. -/
theorem enrichReleasesInOrder_bareRelease : ∃ tx,
    enrichReleasesInOrder plainRuntime true (fun _ => .null) [mediaRecord, mediaLessRecord]
        ⟨bareRelease, {}⟩ = .ok tx ∧
      issuedQtys tx.graph (releaseKey "1") (mediumKey "cd") = [.int 1] :=
  Except.exists_eq_ok (by decide +kernel)

theorem enrichReleasesBatch_eq_inOrder_iff_bareRelease : ∃ tx₁ flags tx₂,
    enrichReleasesBatch plainRuntime true .null [mediaRecord, mediaLessRecord] ⟨bareRelease, {}⟩ =
        .ok (tx₁, flags) ∧
      enrichReleasesInOrder plainRuntime true (fun _ => .null) [mediaRecord, mediaLessRecord]
        ⟨bareRelease, {}⟩ = .ok tx₂ ∧
      (SameReleases tx₁.graph tx₂.graph ↔ ∀ id v, releaseView bareRelease id = some v →
        KeepsMedia plainRuntime [mediaRecord, mediaLessRecord] id v) := by
  obtain ⟨tx₂, hseq, _⟩ := enrichReleasesInOrder_bareRelease
  obtain ⟨tx₁, flags, hbatch, hiff⟩ := enrichReleasesBatch_eq_inOrder_iff plainRuntime_injective
    (storedDigests_bareRelease _) hseq
  exact ⟨tx₁, flags, tx₂, hbatch, hseq, hiff⟩

/-- Every medium id carries one family, in the graph and in the items of the records. -/
def OneFamily (rt : Runtime) (records : List Dict) (g : Graph) : Prop :=
  ∃ family : String → String,
    (∀ m n, g.node (mediumKey m) = some n → n "family" = .str (family m)) ∧
    ∀ record ∈ records, ∀ block, releaseMediaBlock rt record = some block →
      ∀ fields, Json.obj fields ∈ block.items → ∀ m f, Dict.get fields "medium" = .str m →
        Dict.get fields "family" = .str f → f = family m

theorem batch_differs_from_inOrder :
    ¬ ∀ (rt : Runtime) (gate : Bool) (now : Json) (clock : Nat → Json) (records : List Dict)
      (tx tx₁ tx₂ : Tx) (flags : List Bool), Function.Injective rt.hexdigest →
      StoredDigests rt tx.graph → OneFamily rt records tx.graph →
      enrichReleasesBatch rt gate now records tx = .ok (tx₁, flags) →
      enrichReleasesInOrder rt gate clock records tx = .ok tx₂ → SameReleases tx₁.graph tx₂.graph := by
  intro h
  obtain ⟨⟨tx₁, flags⟩, hbatch, heq⟩ := enrichReleasesBatch_bareRelease
  obtain ⟨tx₂, hseq, hqtys₂⟩ := enrichReleasesInOrder_bareRelease
  obtain ⟨hqtys₁, hnode⟩ := Prod.mk.inj heq
  have hfamily : OneFamily plainRuntime [mediaRecord, mediaLessRecord] bareRelease := by
    refine ⟨fun _ => "optical", ?_, ?_⟩
    · intro m n hn
      simp [bareRelease, mediumKey, releaseKey] at hn
    · intro record hrecord block hblock fields hfields m f _ hf
      rcases List.mem_pair.mp hrecord with rfl | rfl
      · have hitems : block.items = [.obj [("medium", .str "cd"), ("family", .str "optical")]] := by
          have : (releaseMediaBlock plainRuntime mediaRecord).map MediaBlock.items =
              some [.obj [("medium", .str "cd"), ("family", .str "optical")]] := by decide +kernel
          rw [hblock] at this
          exact Option.some.inj this
        rw [hitems, List.mem_singleton, Json.obj.injEq] at hfields
        rw [hfields] at hf
        exact (Json.str.inj hf).symm
      · have : releaseMediaBlock plainRuntime mediaLessRecord = none := by
          rw [← Option.isNone_iff_eq_none]
          decide +kernel
        rw [this] at hblock
        cases hblock
  have hsame := h plainRuntime true .null (fun _ => .null) [mediaRecord, mediaLessRecord]
    ⟨bareRelease, {}⟩ tx₁ tx₂ flags plainRuntime_injective (storedDigests_bareRelease _) hfamily hbatch
    hseq "1"
  obtain ⟨n₁, hn₁⟩ := Option.isSome_iff_exists.mp hnode
  rw [releaseView, hn₁, Option.map_some] at hsame
  generalize hv₂ : releaseView tx₂.graph "1" = o at hsame
  cases hsame with
  | some hrel =>
    obtain ⟨_, hmedia₂⟩ := releaseView_eq_some.mp hv₂
    have hmem := (hrel.media "cd" (.int 1)).mpr (by rw [← hmedia₂, hqtys₂]; exact List.mem_singleton_self _)
    change Json.int 1 ∈ issuedQtys tx₁.graph (releaseKey "1") (mediumKey "cd") at hmem
    rw [hqtys₁] at hmem
    cases hmem

end Brainzgraphinator
