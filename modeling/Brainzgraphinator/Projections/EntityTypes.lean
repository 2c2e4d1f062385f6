-- SUMMARY: The four entity types with their two projections each, and what any entity write does.
import Brainzgraphinator.Projections.ArtistHistory
import Brainzgraphinator.Projections.StoredDigest

/-!
# Entity types

Each entity type has a per-message projection (`processors`) and a batch
projection (`batchProjections`). All eight start with the same gated write of the
last record of every id; artists and releases go on with relations and media.
`EntityWrite` is what they have in common, seen from the entity nodes.
-/

namespace Brainzgraphinator

/-- `ENTITY_TYPES`. -/
inductive EntityType where
  | artists | labels | releaseGroups | releases
  deriving DecidableEq

def EntityType.spec (rt : Runtime) : EntityType → EntitySpec
  | .artists => artistSpec
  | .labels => labelSpec
  | .releaseGroups => releaseGroupSpec
  | .releases => releaseSpec rt

section Projections

variable (rt : Runtime) (gate : Bool) (now : Json)

/-- `PROCESSORS`: one record per transaction. -/
def processors : EntityType → Dict → Tx → Except Failure Tx
  | .artists => enrichArtist rt gate now
  | .labels => enrichLabel rt gate now
  | .releaseGroups => enrichReleaseGroup rt gate now
  | .releases => enrichRelease rt gate now

/-- `BATCH_PROJECTIONS`: many records per transaction. -/
def batchProjections : EntityType → List Dict → Tx → Except Failure (Tx × List Bool)
  | .artists => enrichArtistsBatch rt gate now
  | .labels => enrichLabelsBatch rt gate now
  | .releaseGroups => enrichReleaseGroupsBatch rt gate now
  | .releases => enrichReleasesBatch rt gate now

end Projections

theorem labelSpec_wellFormed : labelSpec.WellFormed := ⟨by decide, by decide⟩

theorem releaseGroupSpec_wellFormed : releaseGroupSpec.WellFormed := ⟨by decide, by decide⟩

theorem EntityType.spec_wellFormed (rt : Runtime) (t : EntityType) : (t.spec rt).WellFormed := by
  cases t with
  | artists => exact artistSpec_wellFormed
  | labels => exact labelSpec_wellFormed
  | releaseGroups => exact releaseGroupSpec_wellFormed
  | releases => exact releaseSpec_wellFormed rt

/-- Nodes with this label are no vocabulary the type maintains: releases create and
prune media and media families. -/
def EntityType.Fixes (t : EntityType) (l : NodeLabel) : Prop :=
  t = .releases → l ≠ .medium ∧ l ≠ .mediaFamily

theorem EntityType.fixes_kind (rt : Runtime) (t : EntityType) : t.Fixes (t.spec rt).kind := by
  rintro rfl
  exact ⟨nofun, nofun⟩

/-- The record has an id of the type and its node is there. -/
def matchesNode (rt : Runtime) (t : EntityType) (g : Graph) (record : Dict) : Bool :=
  match discogsId rt (t.spec rt).idKey record with
  | none => false
  | some id => (g.node ⟨(t.spec rt).kind, id⟩).isSome

theorem matchesNode_iff {rt : Runtime} {t : EntityType} {g : Graph} {record : Dict} :
    matchesNode rt t g record = true ↔ ∃ id, discogsId rt (t.spec rt).idKey record = some id ∧
      (g.node ⟨(t.spec rt).kind, id⟩).isSome := by
  unfold matchesNode
  cases hid : discogsId rt (t.spec rt).idKey record <;> simp

/-! ## What any entity write does -/

/-- What follows the gated write may write: the relations digest and the media summary. -/
def followUpProps : List String := "mb_relations_hash" :: summaryProps

/-- What follows the gated write leaves of the nodes. -/
structure FollowUp (rt : Runtime) (t : EntityType) (g₁ g' : Graph) : Prop where
  frame : ∀ k : NodeKey, t.Fixes k.label → k.label ≠ (t.spec rt).kind → g'.node k = g₁.node k
  props : ∀ k : NodeKey, t.Fixes k.label → ∀ key ∉ followUpProps,
    (g'.node k).map (· key) = (g₁.node k).map (· key)

theorem FollowUp.of_node_eq {rt : Runtime} {t : EntityType} {g₁ g' : Graph} (h : g'.node = g₁.node) :
    FollowUp rt t g₁ g' := by
  constructor <;> intros <;> rw [h]

/-- A gated write and what follows it. -/
def EntityWrite (rt : Runtime) (gate : Bool) (now : Json) (t : EntityType) (records : List Dict)
    (g g' : Graph) : Prop :=
  ∃ g₁, NodeWrite rt gate now (t.spec rt) records g g₁ ∧ FollowUp rt t g₁ g'

section EntityWrite

variable {rt : Runtime} {gate : Bool} {now : Json} {records : List Dict}

theorem RelationPhase.followUp {g g₁ g' : Graph} (h : RelationPhase rt gate records g g₁ g') :
    FollowUp rt .artists g₁ g' := by
  refine ⟨fun k _ hk => h.frame k ?_, fun k _ key hkey => h.eq_of_ne ?_ k⟩
  · rintro r _ _ rfl
    exact hk rfl
  · rintro rfl
    exact hkey List.mem_cons_self

theorem MediaEffect.followUp {summaries : List SummaryRow} {items : List ReleaseItem}
    {g₁ g' : Graph} (h : MediaEffect summaries items g₁ g') : FollowUp rt .releases g₁ g' := by
  constructor
  · intro k hfixes hk
    rw [h.node k (hfixes rfl).1 (hfixes rfl).2, PropertyGraph.Graph.node_foldl_update_of_forall_ne]
    rintro row _ rfl
    exact hk rfl
  · intro k hfixes key hkey
    rw [h.node k (hfixes rfl).1 (hfixes rfl).2]
    have hset : ∀ (row : SummaryRow) (n : Props), setSummary row n key = n key :=
      fun row n => setSummary_of_not_mem n row fun hmem => hkey (List.mem_cons_of_mem _ hmem)
    clear h
    induction summaries generalizing g₁ with
    | nil => rfl
    | cons row rows ih =>
      rw [List.foldl_cons, ih, PropertyGraph.Graph.node_update]
      split
      · rw [Option.map_map]
        congr 1
        funext n
        exact hset row n
      · rfl

/-- The per-message projections. -/
theorem processors_entityWrite {t : EntityType} {record : Dict} {tx tx' : Tx}
    (h : processors rt gate now t record tx = .ok tx') :
    EntityWrite rt gate now t [record] tx.graph tx'.graph := by
  cases t with
  | artists =>
    obtain ⟨g₁, hwrite, hnode, _⟩ := enrichArtist_spec h
    exact ⟨g₁, hwrite, .of_node_eq hnode⟩
  | labels =>
    obtain ⟨⟨tx₁, _⟩, hnode, h⟩ := Except.bind_eq_ok.mp h
    cases Except.pure_eq_ok.mp h
    exact ⟨_, enrichNode_nodeWrite hnode, .of_node_eq rfl⟩
  | releaseGroups =>
    obtain ⟨⟨tx₁, _⟩, hnode, h⟩ := Except.bind_eq_ok.mp h
    cases Except.pure_eq_ok.mp h
    exact ⟨_, enrichNode_nodeWrite hnode, .of_node_eq rfl⟩
  | releases =>
    obtain ⟨g₁, _, _, hwrite, _, heffect⟩ := (enrichRelease_releaseWrite h).effect
    exact ⟨g₁, hwrite, heffect.followUp⟩

/-- The batch projections. -/
theorem batchProjections_entityWrite {t : EntityType} {tx tx' : Tx} {flags : List Bool}
    (h : batchProjections rt gate now t records tx = .ok (tx', flags)) :
    EntityWrite rt gate now t records tx.graph tx'.graph := by
  cases t with
  | artists =>
    obtain ⟨g₁, hwrite, hphase⟩ := enrichArtistsBatch_spec h
    exact ⟨g₁, hwrite, hphase.followUp⟩
  | labels =>
    obtain ⟨⟨tx₁, _⟩, hrun, h⟩ := Except.bind_eq_ok.mp h
    cases Except.pure_eq_ok.mp h
    exact ⟨_, runEntityBatch_nodeWrite hrun, .of_node_eq rfl⟩
  | releaseGroups =>
    obtain ⟨⟨tx₁, _⟩, hrun, h⟩ := Except.bind_eq_ok.mp h
    cases Except.pure_eq_ok.mp h
    exact ⟨_, runEntityBatch_nodeWrite hrun, .of_node_eq rfl⟩
  | releases =>
    obtain ⟨g₁, _, _, hwrite, _, heffect⟩ := (enrichReleasesBatch_releaseWrite h).effect
    exact ⟨g₁, hwrite, heffect.followUp⟩

end EntityWrite

/-! ## Reading an entity write off the graphs -/

/-- All properties an entity write may change. -/
def EntityType.props (rt : Runtime) (t : EntityType) : List String :=
  (t.spec rt).fields.map Prod.fst ++ stamps ++ followUpProps

/-- The mapped properties and the digest are none of what follows the gated write. -/
theorem EntityType.not_mem_followUpProps (rt : Runtime) (t : EntityType) :
    ∀ key ∈ (t.spec rt).fields.map Prod.fst ++ stamps, key ∉ followUpProps := by
  cases t with
  | artists => exact (by decide : ∀ key ∈ artistFields.map Prod.fst ++ stamps, key ∉ followUpProps)
  | labels => exact (by decide : ∀ key ∈ labelFields.map Prod.fst ++ stamps, key ∉ followUpProps)
  | releaseGroups =>
    exact (by decide : ∀ key ∈ releaseGroupFields.map Prod.fst ++ stamps, key ∉ followUpProps)
  | releases => exact (by decide : ∀ key ∈ releaseFields.map Prod.fst ++ stamps, key ∉ followUpProps)

namespace EntityWrite

variable {rt : Runtime} {gate : Bool} {now : Json} {t : EntityType} {records : List Dict}
  {g g' : Graph}

/-- No entity node is created or deleted. -/
theorem isSome_node (h : EntityWrite rt gate now t records g g') {k : NodeKey}
    (hk : t.Fixes k.label) : (g'.node k).isSome = (g.node k).isSome := by
  obtain ⟨g₁, hwrite, hfollow⟩ := h
  have hkey : "" ∉ followUpProps := by decide
  rw [← hwrite.isSome_node, ← Option.isSome_map (f := (· "")), hfollow.props k hk "" hkey,
    Option.isSome_map]

/-- Nodes of other entity kinds are untouched. -/
theorem frame (h : EntityWrite rt gate now t records g g') {k : NodeKey} (hk : t.Fixes k.label)
    (hkind : k.label ≠ (t.spec rt).kind) : g'.node k = g.node k := by
  obtain ⟨g₁, hwrite, hfollow⟩ := h
  rw [hfollow.frame k hk hkind, hwrite.frame k fun heq => absurd heq hkind]

/-- Only the properties of the type are touched. -/
theorem props (h : EntityWrite rt gate now t records g g') {k : NodeKey} (hk : t.Fixes k.label)
    {key : String} (hkey : key ∉ t.props rt) : (g'.node k).map (· key) = (g.node k).map (· key) := by
  obtain ⟨g₁, hwrite, hfollow⟩ := h
  rw [EntityType.props, List.mem_append, not_or] at hkey
  rw [hfollow.props k hk key hkey.2, hwrite.eq_of_not_mem hkey.1]

/-- What follows the gated write leaves mapped properties and digest alone. -/
theorem exists_node (h : EntityWrite rt gate now t records g g') {id : String} {n' : Props}
    (hn' : g'.node ⟨(t.spec rt).kind, id⟩ = some n') :
    ∃ g₁ n₁, NodeWrite rt gate now (t.spec rt) records g g₁ ∧
      g₁.node ⟨(t.spec rt).kind, id⟩ = some n₁ ∧
      ∀ key ∈ (t.spec rt).fields.map Prod.fst ++ stamps, n' key = n₁ key := by
  obtain ⟨g₁, hwrite, hfollow⟩ := h
  have hsome : (g₁.node ⟨(t.spec rt).kind, id⟩).isSome := by
    have hkey : "" ∉ followUpProps := by decide
    have hmap := hfollow.props ⟨(t.spec rt).kind, id⟩ (t.fixes_kind rt) "" hkey
    rw [hn', Option.map_some, eq_comm, Option.map_eq_some_iff] at hmap
    obtain ⟨n₁, hn₁, _⟩ := hmap
    rw [hn₁]
    rfl
  obtain ⟨n₁, hn₁⟩ := Option.isSome_iff_exists.mp hsome
  refine ⟨g₁, n₁, hwrite, hn₁, fun key hkey => ?_⟩
  have hmap := hfollow.props ⟨(t.spec rt).kind, id⟩ (t.fixes_kind rt) key
    (t.not_mem_followUpProps rt key hkey)
  rw [hn', hn₁, Option.map_some, Option.map_some, Option.some.injEq] at hmap
  exact hmap

/-- A node whose id no record has keeps its mapped properties and its digest. -/
theorem unnamed (h : EntityWrite rt gate now t records g g') {id : String}
    (hnone : lastOf rt (t.spec rt).idKey records id = none) {key : String}
    (hkey : key ∈ (t.spec rt).fields.map Prod.fst ++ stamps) :
    (g'.node ⟨(t.spec rt).kind, id⟩).map (· key) = (g.node ⟨(t.spec rt).kind, id⟩).map (· key) := by
  obtain ⟨g₁, hwrite, hfollow⟩ := h
  rw [hfollow.props _ (t.fixes_kind rt) key (t.not_mem_followUpProps rt key hkey),
    hwrite.frame _ fun _ => hnone]

end EntityWrite

end Brainzgraphinator
