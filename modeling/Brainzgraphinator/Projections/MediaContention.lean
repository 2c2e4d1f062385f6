-- SUMMARY: Release writes beside one another, row by row under exclusive node locks: what each row writes and waits for.
import Brainzgraphinator.Base.Locks
import Brainzgraphinator.Projections.Enrich

/-!
# Release writes beside one another

The media phase of a release write, taken apart at the rows of its statements. A row
reads what is committed and what its own transaction wrote; before it writes a `Medium`
or `MediaFamily` node, or creates or deletes a relationship at one, its transaction takes
the node's lock, one node after the other, and keeps it until it ends. The locks of
`Release` nodes are left out: the writes are of different releases.

Between any two locks or rows the other transactions may go on.
-/

namespace Brainzgraphinator

/-- What the media phase of a write is about: the summaries of its releases and their medium rows. -/
structure MediaWrite where
  rows : List SummaryRow
  items : List ReleaseItem
  summarized : ∀ item ∈ items, ∃ row ∈ rows, row.discogsId = item.discogsId

namespace MediaWrite

/-- `_media_lock_args`. -/
def args (w : MediaWrite) : MediaLockArgs := mediaLockArgs (w.items.map ReleaseItem.toMediaRow)

/-- The media phase of `enrich_release`. -/
def ofRelease (rt : Runtime) (id : String) (media : MediaBlock) : MediaWrite where
  rows := [summaryRow rt id media]
  items := (mediaEdgeRows rt media).map fun row => ⟨row, id⟩
  summarized item hitem := by
    obtain ⟨row, _, rfl⟩ := List.mem_map.mp hitem
    exact ⟨_, List.mem_singleton_self _, rfl⟩

/-- The media phase of `enrich_releases_batch`. -/
def ofBatch (rt : Runtime) (media : List (String × Option MediaBlock)) : MediaWrite where
  rows := mediaSummaries rt media
  items := mediaItems rt media
  summarized item hitem := by
    obtain ⟨⟨id, block⟩, hm, hitem⟩ := List.mem_flatMap.mp ((List.mem_insertionSort _).mp hitem)
    cases block with
    | none => cases hitem
    | some block =>
      obtain ⟨row, _, rfl⟩ := List.mem_map.mp hitem
      exact ⟨summaryRow rt id block, List.mem_filterMap.mpr ⟨_, hm, rfl⟩, rfl⟩

/-- Every family of the rows is the one of the first row of some medium. -/
def FirstFamilies (w : MediaWrite) : Prop :=
  ∀ item ∈ w.items, ∃ first ∈ w.items, first.family = item.family ∧
    (w.items.find? fun row => row.medium = first.medium) = some first

end MediaWrite

namespace MediaContention

/-! ## The rows of a write -/

/-- Where a write is: the rows a statement has still to do, and what it has read so far. -/
inductive Pc where
  /-- `LOCK_MEDIA_FAMILIES_CYPHER`. -/
  | listingFamilies (rest : List SummaryRow) (found : List String)
  | lockingFamilies (rest : List String)
  /-- `LOCK_MEDIA_MEDIUMS_CYPHER`. -/
  | listingMedia (rest : List SummaryRow) (found : List String)
  | lockingMedia (rest : List (String × Option LockItem))
  /-- `RELEASE_MEDIA_SUMMARY_BATCH_CYPHER`, up to its sort. -/
  | summarizing (rest : List SummaryRow) (found : List String)
  /-- `DELETE stale`, the edges of one medium after those of the other. -/
  | sweeping (rest media : List String)
  /-- `SET m._prune_lock = true`. -/
  | pruneLocking (rest media : List String)
  /-- The orphan check and what it deletes. -/
  | pruning (rest : List String)
  /-- `RELEASE_MEDIA_EDGES_BATCH_CYPHER`. -/
  | attaching (rest : List ReleaseItem)
  | ended (committed : Bool)

structure Writer where
  pc : Pc
  /-- What the transaction wrote, done to a graph. -/
  own : Graph → Graph := id
  /-- What the lock statements listed. -/
  names : List String := []
  media : List String := []

/-- `name ORDER BY name`, of the families of the rows and the ones found. -/
def lockOrder (families found : List String) : List String :=
  (families ++ found.dedup).dedup.insertionSort (· ≤ ·)

theorem lockNames_eq (rows : List SummaryRow) (families : List String) (g : Graph) :
    lockNames rows families g = lockOrder families (rows.flatMap fun row => staleFamilies g row.discogsId) := rfl

/-- `item ORDER BY item.medium`, of the items and the stale media found. -/
def targetOrder (args : MediaLockArgs) (found : List String) : List (String × Option LockItem) :=
  (args.items.map (fun item : LockItem => (item.medium, some item)) ++
    (found.dedup.filter (· ∉ args.itemIds)).map (fun id => (id, none))).insertionSort fun a b => a.1 ≤ b.1

theorem lockTargets_eq (rows : List SummaryRow) (args : MediaLockArgs) (g : Graph) :
    lockTargets rows args g =
      targetOrder args (rows.flatMap fun row => (g.rels.filter (isStale row)).map (·.dst.id)) := rfl

/-- The medium's own IN_FAMILY edges. -/
def familyEdge (m : String) (e : Edge) : Bool := e.type = .inFamily ∧ e.src = mediumKey m

/-- `DELETE family_edge, m`. -/
def deleteMedium (m : String) (g : Graph) : Graph :=
  ((g.deleteRels (familyEdge m)).deleteNodes [mediumKey m]).getD g

/-- What the edge statement writes for one row: a MERGE that finds what it looks for writes nothing. -/
def mergeKeys (g : Graph) (item : ReleaseItem) : List NodeKey :=
  if (g.node (releaseKey item.discogsId)).isSome then
    let newFamily := !g.rels.any (sameInFamily item.medium item.family)
    (if (g.node (mediumKey item.medium)).isNone ∨ newFamily ∨
        !g.rels.any (sameIssuedOn item.discogsId item.medium) then [mediumKey item.medium] else []) ++
      if (g.node (familyKey item.family)).isNone ∨ newFamily then [familyKey item.family] else []
  else []

/-- The nodes of the vocabulary that the next row writes, in the order it locks them. -/
def needs (g : Graph) : Pc → List NodeKey
  | .lockingFamilies (name :: _) => [familyKey name]
  | .lockingMedia ((id, item) :: _) =>
    if item.isSome ∨ (g.node (mediumKey id)).isSome then [mediumKey id] else []
  | .sweeping (m :: _) _ | .pruneLocking (m :: _) _ => [mediumKey m]
  | .pruning (m :: _) =>
    if isOrphan g m then mediumKey m :: (g.rels.filter (familyEdge m)).map (·.dst) else []
  | .attaching (item :: _) => mergeKeys g item
  | _ => []

variable (w : MediaWrite)

/-- The next row, on what the transaction sees. -/
def perform (g : Graph) (tx : Writer) : Writer :=
  match tx.pc with
  | .listingFamilies (row :: rest) found =>
    { tx with pc := .listingFamilies rest (found ++ staleFamilies g row.discogsId) }
  | .listingFamilies [] found =>
    let names := lockOrder w.args.families found
    { tx with pc := .lockingFamilies names, names := names }
  | .lockingFamilies (name :: rest) =>
    { tx with pc := .lockingFamilies rest, own := fun g => lockFamily (tx.own g) name }
  | .lockingFamilies [] => { tx with pc := .listingMedia w.rows [] }
  | .listingMedia (row :: rest) found =>
    { tx with pc := .listingMedia rest (found ++ (g.rels.filter (isStale row)).map (·.dst.id)) }
  | .listingMedia [] found =>
    let targets := targetOrder w.args found
    { tx with pc := .lockingMedia targets, media := targets.map Prod.fst }
  | .lockingMedia (target :: rest) =>
    { tx with pc := .lockingMedia rest, own := fun g => lockMedium (tx.own g) target }
  | .lockingMedia [] => { tx with pc := .summarizing w.rows [] }
  | .summarizing (row :: rest) found =>
    { tx with
      pc := .summarizing rest (found ++ (g.rels.filter (isStale row)).map (·.dst.id))
      own := fun g => (tx.own g).update (releaseKey row.discogsId) (setSummary row) }
  | .summarizing [] found =>
    let media := (found.insertionSort (· ≤ ·)).dedup
    { tx with pc := .sweeping media media }
  | .sweeping (m :: rest) media =>
    { tx with
      pc := .sweeping rest media
      own := fun g => (tx.own g).deleteRels fun e => w.rows.any (isStale · e) && decide (e.dst = mediumKey m) }
  | .sweeping [] media => { tx with pc := .pruneLocking media media }
  | .pruneLocking (m :: rest) media =>
    { tx with
      pc := .pruneLocking rest media
      own := fun g => (tx.own g).update (mediumKey m) (touch "_prune_lock") }
  | .pruneLocking [] media => { tx with pc := .pruning media }
  | .pruning (m :: rest) =>
    { tx with
      pc := .pruning rest
      own := fun g' => if isOrphan g m then deleteMedium m (tx.own g') else tx.own g' }
  | .pruning [] => { tx with pc := .attaching w.items }
  | .attaching (item :: rest) =>
    { tx with pc := .attaching rest, own := fun g => mergeItem (tx.own g) item }
  | .attaching [] | .ended _ => tx

/-! ## Runs -/

structure Contention (τ : Type) where
  committed : Graph
  locks : Locks.Table NodeKey τ
  tx : τ → Writer

inductive Event (τ : Type) where
  /-- The transaction takes a lock that is free, or does its next row. -/
  | advances (t : τ)
  | commits (t : τ)
  /-- The transaction fails, as the victim of a deadlock does. -/
  | aborts (t : τ)

namespace Contention

variable {τ : Type} [DecidableEq τ]

/-- What a transaction sees. -/
def view (s : Contention τ) (t : τ) : Graph := (s.tx t).own s.committed

/-- The first node that the next row writes and the transaction does not hold. -/
def wants (s : Contention τ) (t : τ) : Option NodeKey :=
  (needs (s.view t) (s.tx t).pc).find? fun k => s.locks k ≠ some t

variable (writes : τ → MediaWrite)

def step (s : Contention τ) : Event τ → Option (Contention τ)
  | .advances t =>
    match s.wants t with
    | some k => (Locks.take t k s.locks).map fun locks => { s with locks := locks }
    | none => some { s with tx := Function.update s.tx t (perform (writes t) (s.view t) (s.tx t)) }
  | .commits t =>
    match (s.tx t).pc with
    | .attaching [] =>
      some { s with
        committed := s.view t, locks := Locks.release t s.locks
        tx := Function.update s.tx t { s.tx t with pc := .ended true, own := id } }
    | _ => none
  | .aborts t =>
    match (s.tx t).pc with
    | .ended _ => none
    | _ =>
      some { s with
        locks := Locks.release t s.locks
        tx := Function.update s.tx t { s.tx t with pc := .ended false, own := id } }

/-- All writes are about to start. -/
def initial (g : Graph) : Contention τ where
  committed := g
  locks := fun _ => none
  tx t := { pc := .listingFamilies (writes t).rows [] }

/-- The states any interleaving can lead to. -/
def Reachable (g : Graph) (s : Contention τ) : Prop :=
  Relation.ReflTransGen (fun s s' => ∃ e, step writes s e = some s') (initial writes g) s

end Contention

end MediaContention

end Brainzgraphinator
