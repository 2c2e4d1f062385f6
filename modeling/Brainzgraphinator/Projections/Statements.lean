-- SUMMARY: The shared catalog graph and the Cypher statements the projections run on it.
import Mathlib.Data.List.Dedup
import Mathlib.Logic.Function.Basic
import Brainzgraphinator.Base.PropertyGraph
import Brainzgraphinator.Projections.Rows

/-!
# Statements on the catalog graph

Every node is keyed by its label and by the property the schema makes unique
for it (`id`, or `name` for a media family); that property is not repeated among
the node's properties. An absent property reads as null.

A statement is evaluated clause by clause: what a MATCH or a WHERE reads is read
for all rows before the next clause writes, and MERGE works row by row.
-/

namespace Brainzgraphinator

/-! ## The graph -/

inductive NodeLabel where
  | artist | label | master | release | medium | mediaFamily
  | other (name : String)
  deriving DecidableEq

structure NodeKey where
  label : NodeLabel
  id : String
  deriving DecidableEq

inductive RelType where
  | issuedOn | inFamily
  | memberOf | collaboratedWith | taught | tributeTo | founded | supported | subgroupOf | renamedTo
  | other (name : String)
  deriving DecidableEq

abbrev Props := String → Json

abbrev Edge := PropertyGraph.Rel NodeKey RelType Props

abbrev Graph := PropertyGraph.Graph NodeKey RelType Props Props

def artistKey (id : String) : NodeKey := ⟨.artist, id⟩
def releaseKey (id : String) : NodeKey := ⟨.release, id⟩
def mediumKey (id : String) : NodeKey := ⟨.medium, id⟩
def familyKey (name : String) : NodeKey := ⟨.mediaFamily, name⟩

@[simp] theorem artistKey_inj {a b : String} : artistKey a = artistKey b ↔ a = b := by
  simp [artistKey]
@[simp] theorem releaseKey_inj {a b : String} : releaseKey a = releaseKey b ↔ a = b := by
  simp [releaseKey]
@[simp] theorem mediumKey_inj {a b : String} : mediumKey a = mediumKey b ↔ a = b := by
  simp [mediumKey]
@[simp] theorem familyKey_inj {a b : String} : familyKey a = familyKey b ↔ a = b := by
  simp [familyKey]

def mbRelationshipMap : List (String × RelType) :=
  [("member of band", .memberOf), ("collaboration", .collaboratedWith), ("teacher", .taught),
    ("tribute", .tributeTo), ("founder", .founded), ("supporting musician", .supported),
    ("subgroup", .subgroupOf), ("artist rename", .renamedTo)]

def mediaSource : String := "musicbrainz"

def noProps : Props := fun _ => .null

/-- `SET n.key = true REMOVE n.key`: only the write lock is wanted. -/
def touch (key : String) (n : Props) : Props :=
  Function.update (Function.update n key (.bool true)) key .null

/-! ## The gated property SET -/

/-- One row of the gated statement. -/
structure EntityRow where
  idx : Nat
  discogsId : String
  row : Dict
  mbHash : Json

/-- What the gated statement returns for a matched row. -/
structure GatedResult where
  idx : Nat
  changed : Bool
  relationsHash : Json

/-- The stored digest is missing or differs; always so with the gate off. -/
def changed (gate : Bool) (n : Props) (mbHash : Json) : Bool :=
  !gate || (n "mb_hash" = .null || n "mb_hash" ≠ mbHash)

def setFields (fields : Fields) (row : Dict) (n : Props) : Props :=
  fields.foldl (fun n field => Function.update n field.1 (row.get field.2)) n

def writeRow (fields : Fields) (now : Json) (row : EntityRow) (n : Props) : Props :=
  Function.update (Function.update (setFields fields row.row n) "mb_hash" row.mbHash)
    "mb_updated_at" now

/-- The gated statement for one label, over one row (per message) or many (batch). -/
def gatedCypher (rt : Runtime) (gate : Bool) (kind : NodeLabel) (fields : Fields) (now : Json)
    (rows : List EntityRow) (g : Graph) : Except Failure (Graph × List GatedResult) :=
  let matched := rows.filterMap fun row =>
    (g.node ⟨kind, row.discogsId⟩).map fun n => (row, n)
  let written := matched.filter fun m => changed gate m.2 m.1.mbHash
  if written.all fun m => fields.all fun field => rt.storable (m.1.row.get field.2) then
    .ok (written.foldl
        (fun g m => g.update ⟨kind, m.1.discogsId⟩ (writeRow fields now m.1)) g,
      matched.map fun m => ⟨m.1.idx, changed gate m.2 m.1.mbHash, m.2 "mb_relations_hash"⟩)
  else .error .clientError

/-! ## Media locks -/

/-- A release of the write with its summary and the media its new block lists. -/
structure SummaryRow where
  discogsId : String
  families : List String
  mediumCount : Nat
  mediumIds : List String

/-- A medium row of one release of the write. -/
structure ReleaseItem extends MediaRow where
  discogsId : String

structure LockItem where
  medium : String
  family : String
  label : String

structure MediaLockArgs where
  items : List LockItem
  itemIds : List String
  families : List String

/-- Sorted, deduplicated media vocabulary a write needs locked. The first row of
a medium decides its family and label. -/
def mediaLockArgs (edgeRows : List MediaRow) : MediaLockArgs :=
  let items := edgeRows.foldl (fun items row =>
    OrderedDict.setDefault row.medium (LockItem.mk row.medium row.family row.label) items) []
  let ordered := ((items.map Prod.fst).insertionSort (· ≤ ·)).filterMap fun key => items.lookup key
  { items := ordered
    itemIds := ordered.map LockItem.medium
    families := (ordered.map LockItem.family).dedup.insertionSort (· ≤ ·) }

/-- An ISSUED_ON edge this service wrote, from the release `id` to a medium. -/
def issuedBy (id : String) (e : Edge) : Bool :=
  e.type = .issuedOn ∧ e.src = releaseKey id ∧ e.dst.label = .medium ∧
    e.props "source" = .str mediaSource

/-- Such an edge to a medium the new block does not list. -/
def isStale (row : SummaryRow) (e : Edge) : Bool :=
  issuedBy row.discogsId e && e.dst.id ∉ row.mediumIds

/-- The families of the media this service attached to the release `id`. -/
def staleFamilies (g : Graph) (id : String) : List String :=
  (g.rels.filter (issuedBy id)).flatMap fun stale =>
    (g.rels.filter fun e => e.type = .inFamily ∧ e.src = stale.dst ∧ e.dst.label = .mediaFamily).map
      (·.dst.id)

def lockFamily (g : Graph) (name : String) : Graph :=
  (g.mergeNode (familyKey name) noProps).update (familyKey name) (touch "_lock")

/-- The families the write locks, in order. -/
def lockNames (rows : List SummaryRow) (families : List String) (g : Graph) : List String :=
  let staleNames := (rows.flatMap fun row => staleFamilies g row.discogsId).dedup
  (families ++ staleNames).dedup.insertionSort (· ≤ ·)

/-- `LOCK_MEDIA_FAMILIES_CYPHER`. -/
def lockMediaFamiliesCypher (rows : List SummaryRow) (families : List String) (g : Graph) : Graph :=
  (lockNames rows families g).foldl lockFamily g

def mediumProps (family label : String) : Props :=
  Function.update (Function.update noProps "family" (.str family)) "label" (.str label)

/-- Lock a medium to attach (created if it is new), or one to detach. -/
def lockMedium (g : Graph) : String × Option LockItem → Graph
  | (id, some item) =>
    (g.mergeNode (mediumKey id) (mediumProps item.family item.label)).update (mediumKey id)
      (touch "_lock")
  | (id, none) => g.update (mediumKey id) (touch "_lock")

/-- The media the write detaches. -/
def staleIds (rows : List SummaryRow) (g : Graph) : List String :=
  (rows.flatMap fun row => (g.rels.filter (isStale row)).map (·.dst.id)).dedup

/-- The media the write locks, in order, with what it creates an attached one from. -/
def lockTargets (rows : List SummaryRow) (args : MediaLockArgs) (g : Graph) :
    List (String × Option LockItem) :=
  let targets := args.items.map (fun item => (item.medium, some item)) ++
    ((staleIds rows g).filter (· ∉ args.itemIds)).map (fun id => (id, none))
  targets.insertionSort fun a b => a.1 ≤ b.1

/-- `LOCK_MEDIA_MEDIUMS_CYPHER`. -/
def lockMediaMediumsCypher (rows : List SummaryRow) (args : MediaLockArgs) (g : Graph) : Graph :=
  (lockTargets rows args g).foldl lockMedium g

/-! ## Media summary, stale sweep and prune -/

/-- Nothing but its own outgoing IN_FAMILY edges touches the medium. -/
def isOrphan (g : Graph) (m : String) : Bool :=
  !(g.rels.any fun e => e.type = .issuedOn ∧ e.dst = mediumKey m) &&
    (g.rels.filter fun e =>
      e.Touches (mediumKey m) ∧ (e.type ≠ .inFamily ∨ e.src ≠ mediumKey m)).length = 0

/-- `PRUNE_ORPHAN_MEDIUM`, for the media the stale sweep just detached. -/
def pruneOrphanMedium (media : List String) (g : Graph) : Except Failure Graph :=
  let g := media.foldl (fun g m => g.update (mediumKey m) (touch "_prune_lock")) g
  let orphans := media.filter (isOrphan g)
  let g := g.deleteRels fun e => e.type = .inFamily ∧ e.src ∈ orphans.map mediumKey
  match g.deleteNodes (orphans.map mediumKey) with
  | some g => .ok g
  | none => .error .clientError

def setSummary (row : SummaryRow) (n : Props) : Props :=
  Function.update (Function.update n "mb_media_families" (strings row.families))
    "mb_medium_count" (.int row.mediumCount)

/-- `RELEASE_MEDIA_SUMMARY_BATCH_CYPHER`. -/
def releaseMediaSummaryBatchCypher (rows : List SummaryRow) (g : Graph) : Except Failure Graph :=
  let g := rows.foldl (fun g row => g.update (releaseKey row.discogsId) (setSummary row)) g
  let stale := g.rels.filter fun e => rows.any (isStale · e)
  let media := ((stale.map (·.dst.id)).insertionSort (· ≤ ·)).dedup
  pruneOrphanMedium media (g.deleteRels fun e => rows.any (isStale · e))

/-- `RELEASE_MEDIA_SUMMARY_CYPHER`: the same statement for one release. -/
def releaseMediaSummaryCypher (row : SummaryRow) (g : Graph) : Except Failure Graph :=
  releaseMediaSummaryBatchCypher [row] g

/-! ## Media edges -/

def sameInFamily (medium family : String) (e : Edge) : Bool :=
  e.type = .inFamily ∧ e.src = mediumKey medium ∧ e.dst = familyKey family

def sameIssuedOn (id medium : String) (e : Edge) : Bool :=
  e.type = .issuedOn ∧ e.src = releaseKey id ∧ e.dst = mediumKey medium ∧
    e.props "source" = .str mediaSource

/-- One row of the edge statement. -/
def mergeItem (g : Graph) (item : ReleaseItem) : Graph :=
  if (g.node (releaseKey item.discogsId)).isSome then
    let g := g.mergeNode (mediumKey item.medium) (mediumProps item.family item.label)
    let g := g.mergeNode (familyKey item.family) noProps
    let g := g.mergeRel (sameInFamily item.medium item.family)
      ⟨.inFamily, mediumKey item.medium, familyKey item.family, noProps⟩ id
    g.mergeRel (sameIssuedOn item.discogsId item.medium)
      ⟨.issuedOn, releaseKey item.discogsId, mediumKey item.medium,
        Function.update noProps "source" (.str mediaSource)⟩
      (fun p => Function.update p "qty" (.int item.qty))
  else g

/-- `RELEASE_MEDIA_EDGES_BATCH_CYPHER`. -/
def releaseMediaEdgesBatchCypher (items : List ReleaseItem) (g : Graph) : Graph :=
  items.foldl mergeItem g

/-- `RELEASE_MEDIA_EDGES_CYPHER`: the same statement for one release. -/
def releaseMediaEdgesCypher (id : String) (rows : List MediaRow) (g : Graph) : Graph :=
  releaseMediaEdgesBatchCypher (rows.map fun row => ⟨row, id⟩) g

/-! ## Relationship MERGE -/

structure RelationRow where
  owner : String
  sourceId : String
  targetId : String

def sameRelation (type : RelType) (row : RelationRow) (e : Edge) : Bool :=
  e.type = type ∧ e.src = artistKey row.sourceId ∧ e.dst = artistKey row.targetId

/-- Both artists of the row are in the graph. -/
def bothSides (g : Graph) (row : RelationRow) : Bool :=
  (g.node (artistKey row.sourceId)).isSome && (g.node (artistKey row.targetId)).isSome

/-- `MATCH (a) MATCH (b) MERGE (a)-[r:type]->(b) SET r.source = 'musicbrainz'`. -/
def mergeRelation (type : RelType) (g : Graph) (row : RelationRow) : Graph :=
  if bothSides g row then
    g.mergeRel (sameRelation type row)
      ⟨type, artistKey row.sourceId, artistKey row.targetId, noProps⟩
      (fun p => Function.update p "source" (.str mediaSource))
  else g

/-- The result rows of the merge: one for every relationship it matched or created. -/
def matchedRows (type : RelType) (g : Graph) (row : RelationRow) : Nat :=
  if bothSides g row then max 1 (g.rels.filter (sameRelation type row)).length else 0

/-- The relationships the merge creates. -/
def createdRels (type : RelType) (g : Graph) (row : RelationRow) : Nat :=
  if bothSides g row ∧ g.rels.filter (sameRelation type row) = [] then 1 else 0

/-- Graph, `count(*)` for each owner, and relationships created so far. -/
structure RelationBatch where
  graph : Graph
  matched : List (String × Nat) := []
  created : Nat := 0

def RelationBatch.add (type : RelType) (b : RelationBatch) (row : RelationRow) : RelationBatch where
  graph := mergeRelation type b.graph row
  matched :=
    if bothSides b.graph row then
      OrderedDict.bump row.owner (matchedRows type b.graph row) b.matched
    else b.matched
  created := b.created + createdRels type b.graph row

/-- The relationship UNWIND for one edge type. -/
def relationBatchCypher (type : RelType) (rows : List RelationRow) (g : Graph) : RelationBatch :=
  rows.foldl (RelationBatch.add type) { graph := g }

/-- The closing statement of an artist batch: store the relations digest of the
artists whose relations are all projected. -/
def storeRelationsHashCypher (rows : List (String × Json)) (g : Graph) : Graph :=
  rows.foldl (fun g row =>
    g.update (artistKey row.1) (fun n => Function.update n "mb_relations_hash" row.2)) g

end Brainzgraphinator
