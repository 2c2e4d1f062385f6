-- SUMMARY: Exactly what a release write removes: stale musicbrainz edges and the media they leave without a relationship.
import Brainzgraphinator.Projections.MediaPhase
import Brainzgraphinator.Projections.Serialization

/-!
# Exactness of the prune

`ExactPrune` describes a release write by the releases it reconciles alone: the
edges of other sources stay, the musicbrainz edges removed are those to media the
new blocks do not list, no family disappears, and a medium disappears exactly
when it lost an edge and nothing else holds it.
-/

namespace Brainzgraphinator

variable {rt : Runtime} {gate : Bool} {now : Json} {records : List Dict}

/-! ## The description -/

/-- Either write path over the records. -/
def WritesReleases (rt : Runtime) (gate : Bool) (now : Json) (records : List Dict) (tx tx' : Tx) : Prop :=
  (∃ record, records = [record] ∧ enrichRelease rt gate now record tx = .ok tx') ∨
    ∃ flags, enrichReleasesBatch rt gate now records tx = .ok (tx', flags)

/-- A reconciled release whose block lists the medium. -/
def Attaches (rt : Runtime) (gate : Bool) (records : List Dict) (g : Graph) (id m : String) : Prop :=
  ∃ block, Reconciles rt gate records g id block ∧
    m ∈ (mediaEdgeRows rt block).map MediaRow.medium

/-- A reconciled release whose block does not list the medium. -/
def Detaches (rt : Runtime) (gate : Bool) (records : List Dict) (g : Graph) (id m : String) : Prop :=
  ∃ block, Reconciles rt gate records g id block ∧
    m ∉ (mediaEdgeRows rt block).map MediaRow.medium

/-- A musicbrainz edge from a reconciled release to a medium its block does not list. -/
def StaleEdge (rt : Runtime) (gate : Bool) (records : List Dict) (g : Graph) (e : Edge) : Prop :=
  ∃ id m, Detaches rt gate records g id m ∧ mbIssued (releaseKey id) (mediumKey m) e = true

/-- The write removes an edge of the medium. -/
def LosesEdge (rt : Runtime) (gate : Bool) (records : List Dict) (g : Graph) (m : String) : Prop :=
  ∃ id, Detaches rt gate records g id m ∧ issuedQtys g (releaseKey id) (mediumKey m) ≠ []

/-- An ISSUED_ON edge of another source. -/
def foreignIssued (e : Edge) : Bool :=
  e.type = .issuedOn ∧ e.props "source" ≠ .str mediaSource

structure ExactPrune (rt : Runtime) (gate : Bool) (records : List Dict) (g g' : Graph) : Prop where
  foreign : g'.rels.filter foreignIssued = g.rels.filter foreignIssued
  removed : ∀ id m, Detaches rt gate records g id m →
    issuedQtys g' (releaseKey id) (mediumKey m) = []
  attached : ∀ id m, Attaches rt gate records g id m →
    (issuedQtys g' (releaseKey id) (mediumKey m)).length =
      max 1 (issuedQtys g (releaseKey id) (mediumKey m)).length
  kept : ∀ s d, (∀ id m, s = releaseKey id → d = mediumKey m →
      ∀ block, ¬ Reconciles rt gate records g id block) →
    issuedQtys g' s d = issuedQtys g s d
  families : ∀ f, (g.node (familyKey f)).isSome → (g'.node (familyKey f)).isSome
  media : ∀ m, (g'.node (mediumKey m)).isSome ↔
    ((g.node (mediumKey m)).isSome ∨ ∃ id, Attaches rt gate records g id m) ∧
      ¬ (LosesEdge rt gate records g m ∧
        (∀ e ∈ g'.rels, e.type = .issuedOn → e.dst ≠ mediumKey m) ∧
        ∀ e ∈ g.rels, Keeps m e → StaleEdge rt gate records g e)
  media_of_schema : (∀ e ∈ g.rels, e.type = .inFamily → e.dst.label = .mediaFamily) →
    ∀ m, (g'.node (mediumKey m)).isSome ↔
      ((g.node (mediumKey m)).isSome ∨ ∃ id, Attaches rt gate records g id m) ∧
        ¬ (LosesEdge rt gate records g m ∧
          (∀ e ∈ g'.rels, e.type = .issuedOn → e.dst ≠ mediumKey m) ∧
          ∀ e ∈ g'.rels, ¬ Keeps m e)

/-! ## The plan and the description -/

section Plan

variable {g g₁ g' : Graph} {summaries : List SummaryRow} {items : List ReleaseItem}

theorem MediaPlan.attaches_iff (hplan : MediaPlan rt gate records g summaries items) {m : String} :
    (∃ item ∈ items, item.medium = m) ↔ ∃ id, Attaches rt gate records g id m := by
  constructor
  · rintro ⟨item, hitem, rfl⟩
    obtain ⟨block, hrec, hrow⟩ := (hplan.mem_items item).mp hitem
    exact ⟨item.discogsId, block, hrec, List.mem_map_of_mem hrow⟩
  · rintro ⟨id, block, hrec, hm⟩
    obtain ⟨row, hrow, rfl⟩ := List.mem_map.mp hm
    exact ⟨⟨row, id⟩, (hplan.mem_items _).mpr ⟨block, hrec, hrow⟩, rfl⟩

theorem MediaPlan.detaches_iff (hplan : MediaPlan rt gate records g summaries items) {id m : String} :
    (∃ row ∈ summaries, row.discogsId = id ∧ m ∉ row.mediumIds) ↔
      Detaches rt gate records g id m := by
  constructor
  · rintro ⟨row, hrow, rfl, hm⟩
    obtain ⟨id, block, hrec, rfl⟩ := (hplan.mem_summaries row).mp hrow
    exact ⟨block, hrec, hm⟩
  · rintro ⟨block, hrec, hm⟩
    exact ⟨_, hplan.summary_mem hrec, rfl, hm⟩

theorem MediaPlan.stale_iff (hplan : MediaPlan rt gate records g summaries items) {e : Edge} :
    Stale summaries e ↔ StaleEdge rt gate records g e := by
  constructor
  · intro h
    obtain ⟨row, hrow, m, hm, he⟩ := h.mbIssued
    exact ⟨row.discogsId, m, hplan.detaches_iff.mp ⟨row, hrow, rfl, hm⟩, he⟩
  · rintro ⟨id, m, hdetach, he⟩
    obtain ⟨row, hrow, rfl, hm⟩ := hplan.detaches_iff.mpr hdetach
    exact stale_of_mbIssued hrow hm he

theorem issuedQtys_ne_nil {s d : NodeKey} :
    issuedQtys g s d ≠ [] ↔ ∃ e ∈ g.rels, mbIssued s d e = true := by
  simp [issuedQtys, List.filter_eq_nil_iff]

theorem MediaPlan.loses_iff (hplan : MediaPlan rt gate records g summaries items) {m : String} :
    (∃ e ∈ g.rels, Stale summaries e ∧ e.dst = mediumKey m) ↔ LosesEdge rt gate records g m := by
  simp only [LosesEdge, issuedQtys_ne_nil, hplan.stale_iff]
  constructor
  · rintro ⟨e, he, ⟨id, m', hdetach, hissued⟩, hdst⟩
    have hissued' := hissued
    simp only [mbIssued, decide_eq_true_eq] at hissued'
    obtain rfl : m' = m := mediumKey_inj.mp (hissued'.2.2.1.symm.trans hdst)
    exact ⟨id, hdetach, e, he, hissued⟩
  · rintro ⟨id, hdetach, e, he, hissued⟩
    have hissued' := hissued
    simp only [mbIssued, decide_eq_true_eq] at hissued'
    exact ⟨e, he, ⟨id, m, hdetach, hissued⟩, hissued'.2.2.1⟩

theorem MediaPlan.pruned_iff (hplan : MediaPlan rt gate records g summaries items) {m : String} :
    Pruned summaries g m ↔ LosesEdge rt gate records g m ∧
      ∀ e ∈ g.rels, Keeps m e → StaleEdge rt gate records g e := by
  rw [Pruned, hplan.loses_iff]
  simp only [hplan.stale_iff]

/-- Every ISSUED_ON edge to a medium keeps it. -/
theorem keeps_of_issuedOn {m : String} {e : Edge} (htype : e.type = .issuedOn)
    (hdst : e.dst = mediumKey m) : Keeps m e :=
  ⟨.inr hdst, .inl (by rw [htype]; exact nofun)⟩

/-- An attached medium has an ISSUED_ON edge after the write. -/
theorem exists_issuedOn_of_attaches {g g' : Graph} {id m : String}
    (hlength : (issuedQtys g' (releaseKey id) (mediumKey m)).length =
      max 1 (issuedQtys g (releaseKey id) (mediumKey m)).length) :
    ∃ e ∈ g'.rels, e.type = .issuedOn ∧ e.dst = mediumKey m := by
  have hne : issuedQtys g' (releaseKey id) (mediumKey m) ≠ [] := by
    intro hnil
    rw [hnil, List.length_nil] at hlength
    exact absurd hlength (by omega)
  obtain ⟨e, he, hissued⟩ := issuedQtys_ne_nil.mp hne
  simp only [mbIssued, decide_eq_true_eq] at hissued
  exact ⟨e, he, hissued.1, hissued.2.2.1⟩

theorem MediaEffect.length_of_attaches (heffect : MediaEffect summaries items g₁ g')
    (hplan : MediaPlan rt gate records g summaries items) (hrels : g₁.rels = g.rels) {id m : String}
    (h : Attaches rt gate records g id m) :
    (issuedQtys g' (releaseKey id) (mediumKey m)).length =
      max 1 (issuedQtys g (releaseKey id) (mediumKey m)).length := by
  obtain ⟨block, hrec, hm⟩ := h
  obtain ⟨row, hrow, rfl⟩ := List.mem_map.mp hm
  have hsettled := heffect.settled ⟨row, id⟩ ((hplan.mem_items _).mpr ⟨block, hrec, hrow⟩)
  rw [hsettled, length_settle, issuedQtys_congr hrels]

/-- What decides whether a medium outlives the write, by the graph before it. -/
theorem MediaEffect.isSome_medium_iff (heffect : MediaEffect summaries items g₁ g')
    (hwrite : NodeWrite rt gate now (releaseSpec rt) records g g₁)
    (hplan : MediaPlan rt gate records g summaries items) (m : String) :
    (g'.node (mediumKey m)).isSome ↔
      (∃ id, Attaches rt gate records g id m) ∨ (g.node (mediumKey m)).isSome ∧
        ¬ (LosesEdge rt gate records g m ∧
          ∀ e ∈ g.rels, Keeps m e → StaleEdge rt gate records g e) := by
  rw [heffect.medium, hplan.attaches_iff, pruned_congr hwrite.rels, hplan.pruned_iff,
    hwrite.isSome_node]

/-- The relationships that keep an unattached medium after the write. -/
theorem MediaEffect.mem_rels_iff (heffect : MediaEffect summaries items g₁ g')
    (hplan : MediaPlan rt gate records g summaries items) (hrels : g₁.rels = g.rels) {m : String}
    (hm : ¬ ∃ id, Attaches rt gate records g id m) {e : Edge} (he : Keeps m e) :
    e ∈ g'.rels ↔ e ∈ g.rels ∧ ¬ StaleEdge rt gate records g e ∧
      ¬ (e.type = .inFamily ∧ ∃ m', Pruned summaries g m' ∧ e.src = mediumKey m') := by
  have hitems : ∀ item ∈ items, item.medium ≠ m := by
    intro item hitem heq
    exact hm (hplan.attaches_iff.mp ⟨item, hitem, heq⟩)
  rw [heffect.keeps m hitems e he, hrels, hplan.stale_iff]
  simp only [pruned_congr hrels]

end Plan

/-! ## Every release write prunes exactly -/

/-- For an unattached medium, the missing ISSUED_ON edges follow from what does not keep it. -/
theorem outlives_iff {attached before lost noIssued unkept : Prop} (hm : ¬ attached)
    (h : unkept → noIssued) :
    (attached ∨ before ∧ ¬ (lost ∧ unkept)) ↔
      (before ∨ attached) ∧ ¬ (lost ∧ noIssued ∧ unkept) := by
  tauto

theorem ReleaseWrite.exactPrune {g g' : Graph} (h : ReleaseWrite rt gate now records g g') :
    ExactPrune rt gate records g g' := by
  obtain ⟨g₁, summaries, items, hwrite, hplan, heffect⟩ := h.effect
  have hrels := hwrite.rels
  have hattached : ∀ id m, Attaches rt gate records g id m → _ :=
    fun id m h => heffect.length_of_attaches hplan hrels h
  -- An attached medium stays, and its new edge shows in the description.
  have hstays : ∀ m, (∃ id, Attaches rt gate records g id m) →
      (g'.node (mediumKey m)).isSome ∧
        ¬ ∀ e ∈ g'.rels, e.type = .issuedOn → e.dst ≠ mediumKey m := by
    rintro m ⟨id, hid⟩
    refine ⟨(heffect.isSome_medium_iff hwrite hplan m).mpr (.inl ⟨id, hid⟩), fun hnone => ?_⟩
    obtain ⟨e, he, htype, hdst⟩ := exists_issuedOn_of_attaches (hattached id m hid)
    exact hnone e he htype hdst
  refine ⟨?_, ?_, hattached, ?_, ?_, ?_, ?_⟩
  · rw [heffect.others, hrels]
    intro e he
    simp only [foreignIssued, decide_eq_true_eq] at he
    refine ⟨by rw [he.1]; exact nofun, fun id m => ?_⟩
    simp [mbIssued, he.2]
  · intro id m hdetach
    obtain ⟨row, hrow, rfl, hm⟩ := hplan.detaches_iff.mpr hdetach
    exact heffect.stale row hrow m hm
  · intro s d hkept
    rw [heffect.kept, issuedQtys_congr hrels]
    rintro row hrow rfl hlabel
    obtain ⟨id, block, hrec, rfl⟩ := (hplan.mem_summaries row).mp hrow
    refine hkept id d.id rfl ?_ block hrec
    rw [mediumKey, ← hlabel]
  · intro f hf
    refine heffect.family f ?_
    rw [hwrite.isSome_node]
    exact hf
  · intro m
    by_cases hm : ∃ id, Attaches rt gate records g id m
    · obtain ⟨hsome, hissued⟩ := hstays m hm
      exact iff_of_true hsome ⟨.inr hm, fun h => hissued h.2.1⟩
    · rw [heffect.isSome_medium_iff hwrite hplan]
      have hissued : (∀ e ∈ g.rels, Keeps m e → StaleEdge rt gate records g e) →
          ∀ e ∈ g'.rels, e.type = .issuedOn → e.dst ≠ mediumKey m := by
        intro hkeeps e he htype hdst
        have hk := keeps_of_issuedOn htype hdst
        have hmem := (heffect.mem_rels_iff hplan hrels hm hk).mp he
        exact hmem.2.1 (hkeeps e hmem.1 hk)
      exact outlives_iff hm hissued
  · intro hschema m
    by_cases hm : ∃ id, Attaches rt gate records g id m
    · obtain ⟨hsome, hissued⟩ := hstays m hm
      exact iff_of_true hsome ⟨.inr hm, fun h => hissued h.2.1⟩
    · rw [heffect.isSome_medium_iff hwrite hplan]
      -- With IN_FAMILY edges to families only, no deleted edge kept another medium.
      have hthird : (∀ e ∈ g.rels, Keeps m e → StaleEdge rt gate records g e) ↔
          ∀ e ∈ g'.rels, ¬ Keeps m e := by
        constructor
        · intro hkeeps e he hk
          have hmem := (heffect.mem_rels_iff hplan hrels hm hk).mp he
          exact hmem.2.1 (hkeeps e hmem.1 hk)
        · intro hnone e he hk
          by_contra hstale
          refine hnone e ((heffect.mem_rels_iff hplan hrels hm hk).mpr ⟨he, hstale, ?_⟩) hk
          rintro ⟨htype, m', _, hsrc⟩
          have hlabel := hschema e he htype
          rcases hk with ⟨hsrc' | hdst, hother⟩
          · rcases hother with hne | hne
            · exact hne htype
            · exact hne hsrc'
          · rw [hdst] at hlabel
            cases hlabel
      have hissued : (∀ e ∈ g'.rels, ¬ Keeps m e) →
          ∀ e ∈ g'.rels, e.type = .issuedOn → e.dst ≠ mediumKey m :=
        fun hnone e he htype hdst => hnone e he (keeps_of_issuedOn htype hdst)
      rw [hthird]
      exact outlives_iff hm hissued

theorem WritesReleases.releaseWrite {tx tx' : Tx} (h : WritesReleases rt gate now records tx tx') :
    ReleaseWrite rt gate now records tx.graph tx'.graph := by
  rcases h with ⟨record, rfl, h⟩ | ⟨flags, h⟩
  · exact enrichRelease_releaseWrite h
  · exact enrichReleasesBatch_releaseWrite h

theorem releases_exactPrune {tx tx' : Tx} (h : WritesReleases rt gate now records tx tx') :
    ExactPrune rt gate records tx.graph tx'.graph :=
  h.releaseWrite.exactPrune

/-! ## A medium held by a pruned one -/

/-- A release with two media, the second of which has an IN_FAMILY edge to the first. -/
def chainedMedia : Graph where
  node k := if k = releaseKey "1" ∨ k = mediumKey "a" ∨ k = mediumKey "b" then some noProps else none
  rels :=
    [⟨.issuedOn, releaseKey "1", mediumKey "a", Function.update noProps "source" (.str mediaSource)⟩,
      ⟨.issuedOn, releaseKey "1", mediumKey "b", Function.update noProps "source" (.str mediaSource)⟩,
      ⟨.inFamily, mediumKey "b", mediumKey "a", noProps⟩]
  closed := by simp

/-- The release with an empty media block. -/
def noMediaRecord : Dict := [("discogs_release_id", .int 1), ("media", .obj [("items", .arr [])])]

theorem enrichReleasesBatch_chainedMedia : ∃ r,
    enrichReleasesBatch plainRuntime true .null [noMediaRecord] ⟨chainedMedia, {}⟩ = .ok r ∧
      ((r.1.graph.node (mediumKey "a")).isSome, r.1.graph.rels.length) = (true, 0) :=
  Except.exists_eq_ok (by decide +kernel)

theorem releases_exactPrune_chainedMedia : ∃ tx',
    WritesReleases plainRuntime true .null [noMediaRecord] ⟨chainedMedia, {}⟩ tx' ∧
      ExactPrune plainRuntime true [noMediaRecord] chainedMedia tx'.graph := by
  obtain ⟨⟨tx', flags⟩, hrun, _⟩ := enrichReleasesBatch_chainedMedia
  have hwrites : WritesReleases plainRuntime true .null [noMediaRecord] ⟨chainedMedia, {}⟩ tx' :=
    .inr ⟨flags, hrun⟩
  exact ⟨tx', hwrites, releases_exactPrune hwrites⟩

theorem losesEdge_chainedMedia :
    LosesEdge plainRuntime true [noMediaRecord] chainedMedia "a" := by
  have hblock : releaseMediaBlock plainRuntime noMediaRecord =
      some ⟨[("items", .arr [])], [], rfl⟩ := rfl
  obtain ⟨row, hrow⟩ : ∃ row, releaseRow plainRuntime noMediaRecord = .ok row := ⟨_, rfl⟩
  have hrec : Reconciles plainRuntime true [noMediaRecord] chainedMedia "1"
      ⟨[("items", .arr [])], [], rfl⟩ :=
    ⟨noMediaRecord, noProps, ⟨0, "1", row, payloadHash plainRuntime
      [.obj row, mediaDigest plainRuntime noMediaRecord]⟩, by decide +kernel, by simp [chainedMedia],
      ⟨hrow, rfl⟩, by simp [changed, noProps], hblock⟩
  refine ⟨"1", ⟨_, hrec, List.not_mem_nil⟩, issuedQtys_ne_nil.mpr ?_⟩
  exact ⟨_, List.mem_cons_self, by decide +kernel⟩

theorem relationshipless_medium_can_stay :
    ¬ ∀ (rt : Runtime) (gate : Bool) (now : Json) (records : List Dict) (tx tx' : Tx),
      WritesReleases rt gate now records tx tx' → ∀ m, (tx'.graph.node (mediumKey m)).isSome ↔
        ((tx.graph.node (mediumKey m)).isSome ∨ ∃ id, Attaches rt gate records tx.graph id m) ∧
          ¬ (LosesEdge rt gate records tx.graph m ∧
            (∀ e ∈ tx'.graph.rels, e.type = .issuedOn → e.dst ≠ mediumKey m) ∧
            ∀ e ∈ tx'.graph.rels, ¬ Keeps m e) := by
  intro h
  obtain ⟨⟨tx', flags⟩, hrun, heq⟩ := enrichReleasesBatch_chainedMedia
  obtain ⟨hsome, hlength⟩ := Prod.mk.inj heq
  have hnil : tx'.graph.rels = [] := List.length_eq_zero_iff.mp hlength
  obtain ⟨_, hnot⟩ := (h plainRuntime true .null [noMediaRecord] ⟨chainedMedia, {}⟩ tx'
    (.inr ⟨flags, hrun⟩) "a").mp hsome
  have hnone : ∀ e, e ∉ tx'.graph.rels := fun e he => by
    rw [hnil] at he
    exact List.not_mem_nil he
  exact hnot ⟨losesEdge_chainedMedia, fun e he => absurd he (hnone e),
    fun e he => absurd he (hnone e)⟩

end Brainzgraphinator
