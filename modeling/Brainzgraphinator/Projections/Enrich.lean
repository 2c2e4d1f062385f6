-- SUMMARY: The projections: one record per transaction, and many records per transaction.
import Brainzgraphinator.Projections.Statements

/-!
# Projections

The per-message projections (`enrichArtist`, `enrichLabel`, `enrichRelease`,
`enrichReleaseGroup`) and the batch projections that write many records in one
transaction. A projection works on `Tx`, the graph as the transaction sees it
and the counters it fills; an exception aborts the transaction.

`gate` is `REPLAY_GATE`, `now` the time stamp of the write.
-/

namespace Brainzgraphinator

structure Stats where
  entitiesEnriched : Int := 0
  entitiesSkippedNoDiscogsMatch : Int := 0
  relationshipsCreated : Int := 0
  relationshipsUpdated : Int := 0
  relationshipsSkippedMissingSide : Int := 0
  replaysSkippedUnchanged : Int := 0

structure Tx where
  graph : Graph
  stats : Stats

/-- What tells one entity kind from another. -/
structure EntitySpec where
  kind : NodeLabel
  fields : Fields
  idKey : String
  buildRow : Dict → Except Failure Dict
  extraHash : Dict → Json

/-- `record.get("relations") or []`. -/
def recordRelations (record : Dict) : Json := (record.get "relations").or (.arr [])

def artistSpec : EntitySpec :=
  ⟨.artist, artistFields, "discogs_artist_id", artistRow, recordRelations⟩

def labelSpec : EntitySpec :=
  ⟨.label, labelFields, "discogs_label_id", labelRow, fun _ => .null⟩

def releaseGroupSpec : EntitySpec :=
  ⟨.master, releaseGroupFields, "discogs_master_id", releaseGroupRow, fun _ => .null⟩

def releaseSpec (rt : Runtime) : EntitySpec :=
  ⟨.release, releaseFields, "discogs_release_id", releaseRow rt, mediaDigest rt⟩

variable (rt : Runtime) (gate : Bool) (now : Json)

/-! ## Media -/

def lockMediaInOrder (rows : List SummaryRow) (edgeRows : List MediaRow) (g : Graph) : Graph :=
  let args := mediaLockArgs edgeRows
  lockMediaMediumsCypher rows args (lockMediaFamiliesCypher rows args.families g)

/-- The summary of one release's block. -/
def summaryRow (id : String) (media : MediaBlock) : SummaryRow where
  discogsId := id
  families := rt.familiesOf media
  mediumCount := mediumCount media
  mediumIds := (mediaEdgeRows rt media).map MediaRow.medium

def reconcileReleaseMedia (id : String) (record : Dict) (g : Graph) : Except Failure Graph :=
  match releaseMediaBlock rt record with
  | none => .ok g
  | some media => do
    let rows := mediaEdgeRows rt media
    let summary := summaryRow rt id media
    let g ← releaseMediaSummaryCypher summary (lockMediaInOrder [summary] rows g)
    return if rows ≠ [] then releaseMediaEdgesCypher id rows g else g

/-! ## Relationships -/

/-- `MB_RELATIONSHIP_MAP.get(relation.get("type", ""))`. -/
def edgeType (relation : Dict) : Except Failure (Option RelType) :=
  match (relation.get? "type").getD (.str "") with
  | .str type => .ok (mbRelationshipMap.lookup type)
  | .arr _ | .obj _ => .error .typeError
  | _ => .ok none

/-- The edge type of a supported relation, with its endpoints in canonical
direction unless it names no target. -/
def relationRow (owner : String) (relation : Json) :
    Except Failure (Option (RelType × Option RelationRow)) := do
  let relation ← relation.asDict
  match ← edgeType relation with
  | none => return none
  | some type =>
    match relation.get "target_discogs_artist_id" with
    | .null => return some (type, none)
    | target =>
      let target := target.toStr rt
      if relation.get "direction" = .str "backward" then
        return some (type, some ⟨owner, target, owner⟩)
      else return some (type, some ⟨owner, owner, target⟩)

def Stats.skipRelation (s : Stats) : Stats :=
  { s with relationshipsSkippedMissingSide := s.relationshipsSkippedMissingSide + 1 }

/-- One relation of the per-message path. -/
def createRelationshipEdge (owner : String) (tx : Tx) (relation : Json) : Except Failure Tx := do
  match ← relationRow rt owner relation with
  | none => return tx
  | some (_, none) => return { tx with stats := tx.stats.skipRelation }
  | some (type, some row) =>
    let stats :=
      if 0 < createdRels type tx.graph row then
        { tx.stats with relationshipsCreated := tx.stats.relationshipsCreated + 1 }
      else if 0 < matchedRows type tx.graph row then
        { tx.stats with relationshipsUpdated := tx.stats.relationshipsUpdated + 1 }
      else tx.stats.skipRelation
    return ⟨mergeRelation type tx.graph row, stats⟩

def createRelationshipEdges (owner : String) (relations : List Json) (tx : Tx) :
    Except Failure Tx :=
  relations.foldlM (createRelationshipEdge rt owner) tx

/-- The relations of a batch, counted by owner and grouped by edge type. -/
structure RelationPlan where
  expected : List (String × Nat) := []
  byType : List (RelType × List RelationRow) := []
  skipped : Nat := 0

def RelationPlan.add (p : RelationPlan) (relation : String × Json) :
    Except Failure RelationPlan := do
  match ← relationRow rt relation.1 relation.2 with
  | none => return p
  | some (type, row) =>
    let p := { p with expected := OrderedDict.bump relation.1 1 p.expected }
    match row with
    | none => return { p with skipped := p.skipped + 1 }
    | some row =>
      let rows := (p.byType.lookup type).getD [] ++ [row]
      return { p with byType := OrderedDict.set type rows p.byType }

/-- The transaction and the relations projected for each owner so far. -/
structure RelationProgress where
  tx : Tx
  projected : List (String × Nat) := []

def RelationProgress.addType (p : RelationProgress) (group : RelType × List RelationRow) :
    RelationProgress :=
  let b := relationBatchCypher group.1 group.2 p.tx.graph
  let matched : Int := (b.matched.map Prod.snd).sum
  let s := p.tx.stats
  { tx :=
      { graph := b.graph
        stats :=
          { s with
            relationshipsCreated := s.relationshipsCreated + b.created
            relationshipsUpdated := s.relationshipsUpdated + max (matched - b.created) 0
            relationshipsSkippedMissingSide :=
              s.relationshipsSkippedMissingSide + (group.2.length - matched) } }
    projected := b.matched.foldl (fun d m => OrderedDict.bump m.1 m.2 d) p.projected }

/-- One UNWIND per edge type. Returns, per owner, whether every supported
relation was projected. -/
def createRelationshipEdgesBatch (relations : List (String × Json)) (tx : Tx) :
    Except Failure (Tx × List (String × Bool)) := do
  let plan ← relations.foldlM (RelationPlan.add rt) {}
  let stats := { tx.stats with
    relationshipsSkippedMissingSide := tx.stats.relationshipsSkippedMissingSide + plan.skipped }
  let done := plan.byType.foldl RelationProgress.addType { tx := { tx with stats := stats } }
  return (done.tx, plan.expected.map fun e =>
    (e.1, decide (e.2 ≤ (done.projected.lookup e.1).getD 0)))

/-! ## One record per transaction -/

/-- Count a single-record result; the answer is whether the node was written. -/
def recordOutcome (matched : Option GatedResult) (s : Stats) : Bool × Stats :=
  match matched with
  | none => (false, { s with entitiesSkippedNoDiscogsMatch := s.entitiesSkippedNoDiscogsMatch + 1 })
  | some m =>
    let s := { s with entitiesEnriched := s.entitiesEnriched + 1 }
    if m.changed then (true, s)
    else (false, { s with replaysSkippedUnchanged := s.replaysSkippedUnchanged + 1 })

/-- The part every per-message projection shares: the gated SET and its
counters. The answer names the matched node and whether it was written. -/
def enrichNode (spec : EntitySpec) (record : Dict) (tx : Tx) :
    Except Failure (Tx × Option (String × Bool)) :=
  match discogsId rt spec.idKey record with
  | none => .ok ({ tx with stats := (recordOutcome none tx.stats).2 }, none)
  | some id => do
    let row ← spec.buildRow record
    let mbHash := payloadHash rt [.obj row, spec.extraHash record]
    let (g, results) ← gatedCypher rt gate spec.kind spec.fields now [⟨0, id, row, mbHash⟩] tx.graph
    let (written, stats) := recordOutcome results.head? tx.stats
    return (⟨g, stats⟩, results.head?.map fun _ => (id, written))

def enrichArtist (record : Dict) (tx : Tx) : Except Failure Tx := do
  let (tx, matched) ← enrichNode rt gate now artistSpec record tx
  let relations := recordRelations record
  match matched with
  | none => return tx
  | some (id, _) =>
    if relations.truthy then createRelationshipEdges rt id (← relations.iter) tx else return tx

def enrichLabel (record : Dict) (tx : Tx) : Except Failure Tx := do
  let (tx, _) ← enrichNode rt gate now labelSpec record tx
  return tx

def enrichRelease (record : Dict) (tx : Tx) : Except Failure Tx := do
  let (tx, matched) ← enrichNode rt gate now (releaseSpec rt) record tx
  match matched with
  | some (id, true) => return { tx with graph := ← reconcileReleaseMedia rt id record tx.graph }
  | _ => return tx

def enrichReleaseGroup (record : Dict) (tx : Tx) : Except Failure Tx := do
  let (tx, _) ← enrichNode rt gate now releaseGroupSpec record tx
  return tx

/-! ## Many records per transaction -/

/-- What one record of a batch did to its node. -/
structure Outcome where
  matched : Bool
  changed : Bool
  storedRelationsHash : Json

/-- The index of the last record of every Discogs id. -/
def lastIndex (idKey : String) (records : List Dict) : List (String × Nat) :=
  OrderedDict.collect (fun r : Dict × Nat => discogsId rt idKey r.1) Prod.snd records.zipIdx

/-- The row of the record at `index`. -/
def entityRow (spec : EntitySpec) (records : List Dict) (index : Nat) :
    Except Failure EntityRow := do
  let record := records.getD index []
  let row ← spec.buildRow record
  return ⟨index, (record.get spec.idKey).toStr rt, row,
    payloadHash rt [.obj row, spec.extraHash record]⟩

/-- The rows of the gated UNWIND, one for the last record of every Discogs id. -/
def entityRows (spec : EntitySpec) (records : List Dict) : Except Failure (List EntityRow) :=
  (((lastIndex rt spec.idKey records).map Prod.snd).insertionSort (· ≤ ·)).mapM
    (entityRow rt spec records)

/-- The outcome of the record at `index`, read off the rows the statement returned. -/
def outcomeOf (idKey : String) (records : List Dict) (relations : Bool)
    (results : List GatedResult) (r : Dict × Nat) : Outcome :=
  let representative := (discogsId rt idKey r.1).bind fun id =>
    (lastIndex rt idKey records).lookup id
  match representative.bind fun i => results.find? (·.idx = i) with
  | none => ⟨false, false, .null⟩
  | some res =>
    ⟨true, res.changed && representative = some r.2,
      if relations then res.relationsHash else .null⟩

def countOutcomes (outcomes : List Outcome) (results : List GatedResult) (s : Stats) : Stats :=
  let matched := outcomes.countP (·.matched)
  { s with
    entitiesEnriched := s.entitiesEnriched + matched
    entitiesSkippedNoDiscogsMatch :=
      s.entitiesSkippedNoDiscogsMatch + (outcomes.length - matched)
    replaysSkippedUnchanged :=
      s.replaysSkippedUnchanged + results.countP (fun res => !res.changed) }

/-- Write the changed records with one UNWIND and report each record's outcome. -/
def runEntityBatch (spec : EntitySpec) (relations : Bool) (records : List Dict) (tx : Tx) :
    Except Failure (Tx × List Outcome) := do
  let rows ← entityRows rt spec records
  let (g, results) ← gatedCypher rt gate spec.kind spec.fields now rows tx.graph
  let outcomes := records.zipIdx.map (outcomeOf rt spec.idKey records relations results)
  return (⟨g, countOutcomes outcomes results tx.stats⟩, outcomes)

/-- A later record of the batch has the same `str` of its Discogs artist id. -/
def superseded (index : Nat) (records : List Dict) : Bool :=
  let idText (record : Dict) := (record.get "discogs_artist_id").toStr rt
  (records.drop (index + 1)).any fun later => idText later = idText (records.getD index [])

/-- The relations of the batch that are not gated out, and their digests by owner. -/
structure RelationWork where
  relations : List (String × Json) := []
  digests : List (String × Json) := []

def RelationWork.add (records : List Dict) (w : RelationWork) (r : (Dict × Outcome) × Nat) :
    Except Failure RelationWork := do
  let ((record, outcome), index) := r
  if !outcome.matched || superseded rt index records then return w
  else
    let relations := recordRelations record
    let digest := payloadHash rt [relations]
    if gate && outcome.storedRelationsHash = digest then return w
    else
      let owner := (record.get "discogs_artist_id").toStr rt
      return {
        digests := OrderedDict.set owner digest w.digests
        relations := w.relations ++ (← relations.iter).map fun relation => (owner, relation) }

/-- Project the relations of the batch and store the digests that are complete. -/
def projectRelations (w : RelationWork) (tx : Tx) : Except Failure Tx := do
  if w.digests = [] then return tx
  else
    let (tx, complete) ← createRelationshipEdgesBatch rt w.relations tx
    let done := w.digests.filter fun d => (complete.lookup d.1).getD true
    return { tx with graph := storeRelationsHashCypher done tx.graph }

def enrichArtistsBatch (records : List Dict) (tx : Tx) : Except Failure (Tx × List Bool) := do
  let (tx, outcomes) ← runEntityBatch rt gate now artistSpec true records tx
  let work ← (records.zip outcomes).zipIdx.foldlM (RelationWork.add rt gate records) {}
  let tx ← projectRelations rt work tx
  return (tx, outcomes.map Outcome.matched)

def enrichLabelsBatch (records : List Dict) (tx : Tx) : Except Failure (Tx × List Bool) := do
  let (tx, outcomes) ← runEntityBatch rt gate now labelSpec false records tx
  return (tx, outcomes.map Outcome.matched)

def enrichReleaseGroupsBatch (records : List Dict) (tx : Tx) :
    Except Failure (Tx × List Bool) := do
  let (tx, outcomes) ← runEntityBatch rt gate now releaseGroupSpec false records tx
  return (tx, outcomes.map Outcome.matched)

/-- The release a written record with a media block reconciles. -/
def reconciledId (r : Dict × Outcome) : Option String :=
  if r.2.changed && (releaseMediaBlock rt r.1).isSome then
    some ((r.1.get "discogs_release_id").toStr rt)
  else none

/-- The media blocks to reconcile, by release. A later record replaces an earlier one. -/
def reconciledMedia (rs : List (Dict × Outcome)) : List (String × Option MediaBlock) :=
  OrderedDict.collect (reconciledId rt) (fun r => releaseMediaBlock rt r.1) rs

def mediaSummaries (media : List (String × Option MediaBlock)) : List SummaryRow :=
  media.filterMap fun m => m.2.map (summaryRow rt m.1)

/-- All medium rows of the batch, sorted by medium and release. -/
def mediaItems (media : List (String × Option MediaBlock)) : List ReleaseItem :=
  (media.flatMap fun m => match m.2 with
    | none => []
    | some block => (mediaEdgeRows rt block).map fun row => (⟨row, m.1⟩ : ReleaseItem)).insertionSort
  fun a b => a.medium < b.medium ∨ a.medium = b.medium ∧ a.discogsId ≤ b.discogsId

/-- The media phase of a release batch. -/
def reconcileBatch (summaries : List SummaryRow) (items : List ReleaseItem) (g : Graph) :
    Except Failure Graph := do
  if summaries = [] then return g
  else
    let g ← releaseMediaSummaryBatchCypher summaries
      (lockMediaInOrder summaries (items.map ReleaseItem.toMediaRow) g)
    return if items ≠ [] then releaseMediaEdgesBatchCypher items g else g

def enrichReleasesBatch (records : List Dict) (tx : Tx) : Except Failure (Tx × List Bool) := do
  let (tx, outcomes) ← runEntityBatch rt gate now (releaseSpec rt) false records tx
  let media := reconciledMedia rt (records.zip outcomes)
  let g ← reconcileBatch (mediaSummaries rt media) (mediaItems rt media) tx.graph
  return ({ tx with graph := g }, outcomes.map Outcome.matched)

end Brainzgraphinator
