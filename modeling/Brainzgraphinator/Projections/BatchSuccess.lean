-- SUMMARY: Records that go through one by one go through as a batch.
import Brainzgraphinator.Projections.EntityTypes

/-!
# Batches that go through

A batch looks at the last record of every id only, so it may go through where one of
its records raises alone. The converse holds: whatever goes through one record at a
time goes through as a batch (`OneByOne.exists_batch`), and however the records are cut
into batches. What a record asks of the graph is told by the stored digests, and
`stamp` is what its write makes of them.
-/

namespace Brainzgraphinator

variable {rt : Runtime} {gate : Bool} {now : Json} {t : EntityType} {record : Dict} {records : List Dict}
  {g g' : Graph}

/-- The per-message projections of the records go through, one after another. -/
inductive OneByOne (rt : Runtime) (gate : Bool) (t : EntityType) : List Dict → Graph → Prop
  | nil (g : Graph) : OneByOne rt gate t [] g
  | cons {now : Json} {record : Dict} {records : List Dict} {tx tx' : Tx} :
      processors rt gate now t record tx = .ok tx' → OneByOne rt gate t records tx'.graph →
      OneByOne rt gate t (record :: records) tx.graph

/-- A loop over the per-message projections, `clock` giving the time of each write. -/
theorem OneByOne.of_foldlM {clock : Nat → Json} {rs : List (Dict × Nat)} {tx tx' : Tx}
    (h : rs.foldlM (fun tx r => processors rt gate (clock r.2) t r.1 tx) tx = .ok tx') :
    OneByOne rt gate t (rs.map Prod.fst) tx.graph := by
  induction rs generalizing tx with
  | nil => exact .nil _
  | cons r rs ih =>
    rw [List.foldlM_cons] at h
    obtain ⟨tx₁, hrun, h⟩ := Except.bind_eq_ok.mp h
    exact .cons hrun (ih h)

/-! ## What a record asks of the write -/

/-- Every mapped value of the row may be a property. -/
def Storable (rt : Runtime) (fields : Fields) (row : Dict) : Prop :=
  ∀ field ∈ fields, rt.storable (row.get field.2) = true

/-- The relations can be looped over and each can be read. -/
def WellFormedRelations (rt : Runtime) (record : Dict) : Prop :=
  (recordRelations record).iter = .ok (recordRelations record).elems ∧
    ∀ relation ∈ (recordRelations record).elems,
      ∃ r, relationRow rt (ownerText rt record) relation = .ok r

/-- What a matched record is read for beyond its row. -/
def EntityType.Readable (rt : Runtime) (t : EntityType) (record : Dict) : Prop :=
  t = .artists → WellFormedRelations rt record

/-- The stored digests of the nodes of a kind. -/
def storedDigests (kind : NodeLabel) (g : Graph) (id : String) : Option Json :=
  (g.node ⟨kind, id⟩).map (· "mb_hash")

/-- The record can be written where the nodes have these digests. -/
def Writable (rt : Runtime) (gate : Bool) (t : EntityType) (record : Dict)
    (digests : String → Option Json) : Prop :=
  ∀ id, discogsId rt (t.spec rt).idKey record = some id →
    ∃ row : EntityRow, (t.spec rt).Projects rt record row ∧ ∀ digest, digests id = some digest →
      t.Readable rt record ∧
        (changed gate (fun _ => digest) row.mbHash = true → Storable rt (t.spec rt).fields row.row)

/-- The statement raises only for a value it would store. -/
theorem exists_gatedCypher_iff {kind : NodeLabel} {fields : Fields} {rows : List EntityRow} :
    (∃ r, gatedCypher rt gate kind fields now rows g = .ok r) ↔
      ∀ row ∈ rows, ∀ n, g.node ⟨kind, row.discogsId⟩ = some n → changed gate n row.mbHash = true →
        Storable rt fields row.row := by
  unfold gatedCypher
  dsimp only
  split
  · rename_i hall
    refine iff_of_true ⟨_, rfl⟩ fun row hrow n hn hchanged field hfield => ?_
    rw [List.all_eq_true] at hall
    have hwritten := hall (row, n) (List.mem_filter.mpr
      ⟨List.mem_filterMap.mpr ⟨row, hrow, by rw [hn]; rfl⟩, hchanged⟩)
    exact List.all_eq_true.mp hwritten field hfield
  · rename_i hall
    refine iff_of_false (by rintro ⟨_, ⟨⟩⟩) fun hrows => hall ?_
    rw [List.all_eq_true]
    rintro ⟨row, n⟩ hm
    obtain ⟨hmatched, hchanged⟩ := List.mem_filter.mp hm
    obtain ⟨row', hrow, hm⟩ := List.mem_filterMap.mp hmatched
    obtain ⟨n', hn, heq⟩ := Option.map_eq_some_iff.mp hm
    cases heq
    exact List.all_eq_true.mpr (hrows row hrow n hn hchanged)

/-- The write of one record asks for its row. -/
theorem enrichNode_asks {spec : EntitySpec} {tx tx' : Tx} {matched : Option (String × Bool)}
    (h : enrichNode rt gate now spec record tx = .ok (tx', matched)) {id : String}
    (hid : discogsId rt spec.idKey record = some id) :
    ∃ row : EntityRow, spec.Projects rt record row ∧ ∀ n, tx.graph.node ⟨spec.kind, id⟩ = some n →
      changed gate n row.mbHash = true → Storable rt spec.fields row.row := by
  unfold enrichNode at h
  rw [hid] at h
  obtain ⟨row, hrow, h⟩ := Except.bind_eq_ok.mp h
  obtain ⟨r, hg, _⟩ := Except.bind_eq_ok.mp h
  exact ⟨_, ⟨hrow, rfl⟩, exists_gatedCypher_iff.mp ⟨r, hg⟩ _ (List.mem_singleton_self _)⟩

/-- The four projections of one record start alike. -/
theorem exists_enrichNode {tx tx' : Tx} (h : processors rt gate now t record tx = .ok tx') :
    ∃ r, enrichNode rt gate now (t.spec rt) record tx = .ok r := by
  cases t <;> obtain ⟨r, hnode, _⟩ := Except.bind_eq_ok.mp h <;> exact ⟨r, hnode⟩

/-- Relations merged one by one have all been read. -/
theorem createRelationshipEdges_read {owner : String} {relations : List Json} {tx tx' : Tx}
    (h : createRelationshipEdges rt owner relations tx = .ok tx') :
    ∀ relation ∈ relations, ∃ r, relationRow rt owner relation = .ok r := by
  unfold createRelationshipEdges at h
  induction relations generalizing tx with
  | nil => exact nofun
  | cons relation relations ih =>
    rw [List.foldlM_cons] at h
    obtain ⟨tx₁, hedge, h⟩ := Except.bind_eq_ok.mp h
    obtain ⟨r, hr, _⟩ := Except.bind_eq_ok.mp hedge
    intro relation' hrel
    rcases List.mem_cons.mp hrel with rfl | hrel
    · exact ⟨r, hr⟩
    · exact ih h relation' hrel

theorem recordRelations_of_not_truthy (h : ¬ (recordRelations record).truthy = true) :
    recordRelations record = .arr [] := by
  rw [recordRelations, Json.or] at h ⊢
  split
  · rename_i htruthy
    rw [if_pos htruthy] at h
    exact absurd htruthy h
  · rfl

/-- An artist write that went through has read the relations of its record. -/
theorem enrichArtist_wellFormed {tx tx' : Tx} (h : enrichArtist rt gate now record tx = .ok tx')
    (hartist : matchesNode rt .artists tx.graph record = true) : WellFormedRelations rt record := by
  obtain ⟨⟨tx₁, matched⟩, hnode, h⟩ := Except.bind_eq_ok.mp h
  obtain ⟨id, hid⟩ := matchesNode_iff.mp hartist
  obtain ⟨b, rfl⟩ := (enrichNode_matched_iff hnode).mpr hid
  have howner : ownerText rt record = id := (discogsId_eq_some.mp hid.1).2
  dsimp only at h
  split at h
  · obtain ⟨xs, hiter, h⟩ := Except.bind_eq_ok.mp h
    have helems := Json.elems_of_iter hiter
    refine ⟨by rw [helems, hiter], ?_⟩
    rw [helems, howner]
    exact createRelationshipEdges_read h
  · rename_i hfalsy
    have harr := recordRelations_of_not_truthy hfalsy
    rw [WellFormedRelations, harr]
    exact ⟨rfl, nofun⟩

/-- A record that goes through alone can be written. -/
theorem writable_of_processors {tx tx' : Tx} (h : processors rt gate now t record tx = .ok tx') :
    Writable rt gate t record (storedDigests (t.spec rt).kind tx.graph) := by
  intro id hid
  obtain ⟨⟨tx₁, matched⟩, hnode⟩ := exists_enrichNode h
  obtain ⟨row, hproj, hstorable⟩ := enrichNode_asks hnode hid
  refine ⟨row, hproj, fun digest hdigest => ?_⟩
  obtain ⟨n, hn, rfl⟩ := Option.map_eq_some_iff.mp hdigest
  refine ⟨?_, fun hchanged => hstorable n hn hchanged⟩
  rintro rfl
  exact enrichArtist_wellFormed h (matchesNode_iff.mpr ⟨id, hid, Option.isSome_iff_exists.mpr ⟨n, hn⟩⟩)

/-! ## What a write makes of the digests -/

/-- The digest of what the record projects. -/
def recordDigest (rt : Runtime) (spec : EntitySpec) (record : Dict) : Json :=
  match spec.buildRow record with
  | .ok row => payloadHash rt [.obj row, spec.extraHash record]
  | .error _ => .null

theorem recordDigest_eq {spec : EntitySpec} {row : EntityRow} (h : spec.Projects rt record row) :
    recordDigest rt spec record = row.mbHash := by
  rw [recordDigest, h.1, h.2]

/-- The digests after the record: a node it names has its digest. -/
def stamp (rt : Runtime) (spec : EntitySpec) (digests : String → Option Json) (record : Dict) :
    String → Option Json := fun id =>
  if discogsId rt spec.idKey record = some id then (digests id).map fun _ => recordDigest rt spec record
  else digests id

theorem foldl_stamp (spec : EntitySpec) (records : List Dict) (digests : String → Option Json) (id : String) :
    records.foldl (stamp rt spec) digests id = match lastOf rt spec.idKey records id with
      | none => digests id
      | some record => (digests id).map fun _ => recordDigest rt spec record := by
  induction records using List.reverseRecOn with
  | nil => rfl
  | append_singleton records record ih =>
    rw [List.foldl_append, List.foldl_cons, List.foldl_nil, stamp, lastOf_append, lastOf_singleton]
    split
    · rw [Option.some_or, ih]
      cases lastOf rt spec.idKey records id with
      | none => rfl
      | some last => exact Option.map_map _ _ _
    · rw [Option.none_or, ih]

theorem eq_hash_of_not_changed {n : Props} {hash : Json} (h : ¬ changed gate n hash = true) :
    n "mb_hash" = hash := by
  simp only [changed, Bool.or_eq_true, decide_eq_true_eq, not_or, not_not] at h
  exact h.2.2

/-- The gated write leaves the digest of its row, written or skipped. -/
theorem gatedWrite_hash (fields : Fields) (row : EntityRow) (n : Props) :
    gatedWrite gate fields now row n "mb_hash" = row.mbHash := by
  rw [gatedWrite]
  split
  · exact writeRow_hash now row n fields
  · rename_i hc
    exact eq_hash_of_not_changed hc

/-- Alone or in a batch, the last record of an id leaves its digest. -/
theorem EntityWrite.digests (h : EntityWrite rt gate now t records g g') :
    storedDigests (t.spec rt).kind g' =
      records.foldl (stamp rt (t.spec rt)) (storedDigests (t.spec rt).kind g) := by
  funext id
  obtain ⟨g₁, hwrite, hfollow⟩ := h
  have hkept := hfollow.props ⟨(t.spec rt).kind, id⟩ (t.fixes_kind rt) "mb_hash"
    (t.not_mem_followUpProps rt "mb_hash" (List.mem_append_right _ (by decide)))
  rw [foldl_stamp, storedDigests, hkept]
  cases hlast : lastOf rt (t.spec rt).idKey records id with
  | none => rw [hwrite.frame _ fun _ => hlast]; rfl
  | some record =>
    obtain ⟨row, hproj, hnode⟩ := hwrite.written id record hlast
    dsimp only
    rw [hnode, storedDigests, Option.map_map, Option.map_map, recordDigest_eq hproj]
    exact congrArg (Option.map · _) (funext (gatedWrite_hash (t.spec rt).fields row))

/-! ## One record after another -/

/-- Each of the records can be written where those before it have been. -/
def WritableInOrder (rt : Runtime) (gate : Bool) (t : EntityType) :
    List Dict → (String → Option Json) → Prop
  | [], _ => True
  | record :: records, digests => Writable rt gate t record digests ∧
      WritableInOrder rt gate t records (stamp rt (t.spec rt) digests record)

theorem OneByOne.writable (h : OneByOne rt gate t records g) :
    WritableInOrder rt gate t records (storedDigests (t.spec rt).kind g) := by
  induction h with
  | nil g => trivial
  | cons hrun _ ih =>
    refine ⟨writable_of_processors hrun, ?_⟩
    rwa [(processors_entityWrite hrun).digests] at ih

theorem WritableInOrder.append {records' : List Dict} {digests : String → Option Json}
    (h : WritableInOrder rt gate t (records ++ records') digests) :
    WritableInOrder rt gate t records digests ∧
      WritableInOrder rt gate t records' (records.foldl (stamp rt (t.spec rt)) digests) := by
  induction records generalizing digests with
  | nil => exact ⟨trivial, h⟩
  | cons record records ih => exact ⟨⟨h.1, (ih h.2).1⟩, (ih h.2).2⟩

/-- Each of the records can be written at once: where an earlier record has left the digest of
a later one, it has left its values too. -/
theorem WritableInOrder.writable_of_mem (hinj : Function.Injective rt.hexdigest)
    {digests : String → Option Json} (h : WritableInOrder rt gate t records digests)
    (hmem : record ∈ records) : Writable rt gate t record digests := by
  induction records generalizing digests with
  | nil => cases hmem
  | cons first records ih =>
    rcases List.mem_cons.mp hmem with rfl | hmem
    · exact h.1
    · intro id hid
      obtain ⟨row, hproj, hlater⟩ := ih h.2 hmem id hid
      refine ⟨row, hproj, fun digest hdigest => ?_⟩
      by_cases hfirst : discogsId rt (t.spec rt).idKey first = some id
      · obtain ⟨row', hproj', hfirst'⟩ := h.1 id hfirst
        obtain ⟨hreadable, hstorable⟩ := hlater row'.mbHash
          (by rw [stamp, if_pos hfirst, hdigest, Option.map_some, recordDigest_eq hproj'])
        refine ⟨hreadable, fun hchanged => ?_⟩
        by_cases hsame : row'.mbHash = row.mbHash
        · have hrows : row'.row = row.row := by
            rw [hproj'.2, hproj.2, payloadHash_inj hinj, List.cons.injEq, Json.obj.injEq] at hsame
            exact hsame.1
          rw [← hrows]
          exact (hfirst' digest hdigest).2 (by rw [hsame]; exact hchanged)
        · refine hstorable ?_
          simp only [changed, ne_eq, hsame, not_false_eq_true, decide_true, Bool.or_true]
      · exact hlater digest (by rw [stamp, if_neg hfirst, hdigest])

/-! ## The batch -/

section Batch

variable {tx : Tx}

theorem exists_entityRows {spec : EntitySpec}
    (h : ∀ record ∈ records, ∀ id, discogsId rt spec.idKey record = some id → ∃ row, spec.buildRow record = .ok row) :
    ∃ rows, entityRows rt spec records = .ok rows := by
  refine Except.exists_mapM_eq_ok fun i hi => ?_
  rw [List.mem_insertionSort] at hi
  obtain ⟨⟨id, _⟩, hmem, rfl⟩ := List.mem_map.mp hi
  obtain ⟨record, hlast⟩ := mem_lastIndex.mp hmem
  obtain ⟨hrecord, hid⟩ := lastRecord_mem hlast
  obtain ⟨row, hrow⟩ := h record (List.fst_mem_of_mem_zipIdx hrecord) id hid
  refine ⟨_, Except.bind_eq_ok.mpr ⟨row, ?_, rfl⟩⟩
  rw [getD_of_mem_zipIdx hrecord]
  exact hrow

variable (now) in
theorem exists_runEntityBatch (relations : Bool)
    (h : ∀ record ∈ records, Writable rt gate t record (storedDigests (t.spec rt).kind tx.graph)) :
    ∃ r, runEntityBatch rt gate now (t.spec rt) relations records tx = .ok r := by
  obtain ⟨rows, hrows⟩ : ∃ rows, entityRows rt (t.spec rt) records = .ok rows := by
    refine exists_entityRows fun record hmem id hid => ?_
    obtain ⟨row, hproj, _⟩ := h record hmem id hid
    exact ⟨row.row, hproj.1⟩
  have hasks : ∀ row ∈ rows, ∀ n, tx.graph.node ⟨(t.spec rt).kind, row.discogsId⟩ = some n →
      changed gate n row.mbHash = true → Storable rt (t.spec rt).fields row.row := by
    intro row hrow n hn hchanged
    obtain ⟨record, hlast, hproj⟩ := exists_lastRecord_of_mem_entityRows hrows hrow
    obtain ⟨hmem, hid⟩ := lastRecord_mem hlast
    obtain ⟨row', hproj', hdigests⟩ :=
      h record (List.fst_mem_of_mem_zipIdx hmem) row.discogsId hid
    obtain ⟨hrow', hhash⟩ := hproj.unique hproj'
    rw [hrow']
    exact (hdigests (n "mb_hash") (by rw [storedDigests, hn]; rfl)).2 (hhash ▸ hchanged)
  obtain ⟨r, hg⟩ := exists_gatedCypher_iff.mpr hasks
  exact ⟨_, Except.bind_eq_ok.mpr ⟨rows, hrows, Except.bind_eq_ok.mpr ⟨r, hg, rfl⟩⟩⟩

/-- Collected work whose relations can be read is projected. -/
theorem exists_projectRelations {sel : List (Dict × Nat)} {w : RelationWork} (hw : WorkSpec rt sel w)
    (hwf : ∀ r ∈ sel, WellFormedRelations rt r.1) (tx : Tx) :
    ∃ tx', projectRelations rt w tx = .ok tx' := by
  unfold projectRelations
  split
  · exact ⟨tx, rfl⟩
  · have hread : ∀ x ∈ w.relations, ∃ r, relationRow rt x.1 x.2 = .ok r := by
      intro x hx
      rw [hw.relations, List.mem_flatMap] at hx
      obtain ⟨r, hr, hx⟩ := hx
      obtain ⟨relation, hrel, rfl⟩ := List.mem_map.mp hx
      exact (hwf r hr).2 relation hrel
    obtain ⟨done, hbatch⟩ := exists_createRelationshipEdgesBatch hread tx
    exact ⟨_, Except.bind_eq_ok.mpr ⟨done, hbatch, rfl⟩⟩

/-- A batch whose nodes are written goes through when the relations it selects can
be read. -/
theorem exists_enrichArtistsBatch {tx₁ : Tx} {outcomes : List Outcome}
    (hrun : runEntityBatch rt gate now artistSpec true records tx = .ok (tx₁, outcomes))
    (hwf : ∀ r, Selects rt gate records tx.graph r → WellFormedRelations rt r.1) :
    ∃ tx', enrichArtistsBatch rt gate now records tx = .ok (tx', outcomes.map Outcome.matched) := by
  obtain ⟨outcome, rfl, hspec⟩ := runEntityBatch_outcomes hrun
  have hadd : ∀ x ∈ records.zipIdx.map (fun r => ((r.1, outcome r), r.2)), ∀ w,
      ∃ w', RelationWork.add rt gate records w x = .ok w' := by
    intro x hx w
    obtain ⟨r, hr, rfl⟩ := List.mem_map.mp hx
    unfold RelationWork.add
    dsimp only
    split
    · exact ⟨w, rfl⟩
    · rename_i hskip
      split
      · exact ⟨w, rfl⟩
      · rename_i hgate
        simp only [Bool.or_eq_true, Bool.not_eq_true', not_or, Bool.not_eq_false,
          Bool.not_eq_true] at hskip
        have hselected : selected rt gate records r (outcome r) = true := by
          rw [Bool.not_eq_true] at hgate
          simp only [selected, relationsDigest, hskip.1, hskip.2, Bool.not_false, Bool.and_self]
          exact congrArg (fun b => true && !b) hgate
        obtain ⟨hiter, _⟩ := hwf r ((selected_iff hr (hspec r hr)).mp hselected)
        rw [hiter]
        exact ⟨_, rfl⟩
  obtain ⟨w, hwork⟩ := Except.exists_foldlM_eq_ok hadd {}
  have hw := workSpec hwork
  obtain ⟨tx', hproject⟩ := exists_projectRelations hw (fun r hr => by
    obtain ⟨hmem, hsel⟩ := List.mem_filter.mp hr
    exact hwf r ((selected_iff hmem (hspec r hmem)).mp hsel)) tx₁
  rw [← zipIdx_zip_zipIdx] at hwork
  exact ⟨tx', Except.bind_eq_ok.mpr ⟨_, hrun, Except.bind_eq_ok.mpr ⟨w, hwork,
    Except.bind_eq_ok.mpr ⟨tx', hproject, rfl⟩⟩⟩⟩

/-- The media phase of a batch always goes through. -/
theorem exists_reconcileBatch (summaries : List SummaryRow) (items : List ReleaseItem) (g : Graph) :
    ∃ g', reconcileBatch summaries items g = .ok g' := by
  unfold reconcileBatch
  split
  · exact ⟨g, rfl⟩
  · obtain ⟨g₁, hg₁⟩ := exists_pruneOrphanMedium _ _
    exact ⟨_, Except.bind_eq_ok.mpr ⟨g₁, hg₁, rfl⟩⟩

variable (now) in
/-- A batch goes through where each of its records can be written. -/
theorem exists_batchProjections
    (h : ∀ record ∈ records, Writable rt gate t record (storedDigests (t.spec rt).kind tx.graph)) :
    ∃ r, batchProjections rt gate now t records tx = .ok r := by
  cases t with
  | artists =>
    obtain ⟨⟨tx₁, outcomes⟩, hrun⟩ := exists_runEntityBatch now true h
    obtain ⟨tx', hbatch⟩ := exists_enrichArtistsBatch hrun fun r hr => by
      obtain ⟨hmem, _, id, n, hid, hn, _⟩ := hr
      obtain ⟨row, _, hdigests⟩ := h r.1 (List.fst_mem_of_mem_zipIdx hmem) id hid
      exact (hdigests (n "mb_hash") (congrArg (Option.map _) hn)).1 rfl
    exact ⟨_, hbatch⟩
  | labels =>
    obtain ⟨r, hrun⟩ := exists_runEntityBatch now false h
    exact ⟨_, Except.bind_eq_ok.mpr ⟨r, hrun, rfl⟩⟩
  | releaseGroups =>
    obtain ⟨r, hrun⟩ := exists_runEntityBatch now false h
    exact ⟨_, Except.bind_eq_ok.mpr ⟨r, hrun, rfl⟩⟩
  | releases =>
    obtain ⟨⟨tx₁, outcomes⟩, hrun⟩ := exists_runEntityBatch now false h
    obtain ⟨g', hmedia⟩ := exists_reconcileBatch (mediaSummaries rt (reconciledMedia rt (records.zip outcomes)))
      (mediaItems rt (reconciledMedia rt (records.zip outcomes))) tx₁.graph
    exact ⟨_, Except.bind_eq_ok.mpr ⟨_, hrun, Except.bind_eq_ok.mpr ⟨g', hmedia, rfl⟩⟩⟩

variable (now) in
/-- What goes through one by one goes through as a batch. -/
theorem OneByOne.exists_batch (hinj : Function.Injective rt.hexdigest) (h : OneByOne rt gate t records tx.graph) :
    ∃ r, batchProjections rt gate now t records tx = .ok r :=
  exists_batchProjections now fun _ hmem => h.writable.writable_of_mem hinj hmem

end Batch

end Brainzgraphinator
