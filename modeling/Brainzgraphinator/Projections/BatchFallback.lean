-- SUMMARY: A batch write with its fallback, record by record, and what every record of it comes to.
import Brainzgraphinator.Projections.EntityWrites

/-!
# A batch and its fallback

A batch transaction that fails is replayed record by record, each in a transaction of
its own; a batch of one has only its own error to report. `Resolves` compares what a
record's submit is given with the record's own write.
-/

namespace Brainzgraphinator

variable {rt : Runtime} {gate : Bool} {t : EntityType}

section Write

variable (rt : Runtime) (gate : Bool) (t : EntityType)

/-- What the record's own single-record write on this graph says. -/
def ownWrite (now : Json) (record : Dict) (g : Graph) : Except Failure Bool :=
  (writeOne rt gate now t record g).map Prod.snd

/-- `for item in batch: await self._replay(item)`; `clock` is the time of each write. -/
def replayAll (clock : Nat → Json) : List (Dict × Nat) → Graph → Graph × List (Except Failure Bool)
  | [], g => (g, [])
  | r :: rs, g =>
    match writeOne rt gate (clock r.2) t r.1 g with
    | .error error =>
      let (g, answers) := replayAll clock rs g
      (g, .error error :: answers)
    | .ok (tx, matched) =>
      let (g, answers) := replayAll clock rs tx.graph
      (g, .ok matched :: answers)

/-- `_write`: the graph it leaves, and what each submit is given. -/
def writeBatch (now : Json) (clock : Nat → Json) (records : List Dict) (g : Graph) :
    Graph × List (Except Failure Bool) :=
  match batchProjections rt gate now t records ⟨g, {}⟩ with
  | .ok (tx, flags) => (tx.graph, flags.map .ok)
  | .error error =>
    if records.length = 1 then (g, records.map fun _ => .error error)
    else replayAll rt gate t clock records.zipIdx g

end Write

/-! ## A batch of one fails like its record -/

variable {now : Json} {record : Dict} {g : Graph} {tx : Tx} {e e' : Failure}

theorem entityRows_singleton (spec : EntitySpec) (record : Dict) :
    entityRows rt spec [record] = match discogsId rt spec.idKey record with
      | none => .ok []
      | some id => do
        let row ← spec.buildRow record
        return [⟨0, id, row, payloadHash rt [.obj row, spec.extraHash record]⟩] := by
  cases hid : discogsId rt spec.idKey record with
  | none => simp [entityRows, lastIndex, OrderedDict.collect, hid, pure, Except.pure]
  | some id =>
    have htext := (discogsId_eq_some.mp hid).2
    simp only [entityRows, lastIndex, OrderedDict.collect, List.zipIdx_singleton, List.foldl_cons, List.foldl_nil, hid,
      OrderedDict.set, List.map_cons, List.map_nil, List.insertionSort_cons, List.insertionSort_nil,
      List.orderedInsert_nil, List.mapM_cons, List.mapM_nil, entityRow, List.getD_cons_zero, htext]
    cases spec.buildRow record <;> rfl

/-- The shared part fails alike on both paths. -/
theorem runEntityBatch_singleton_error {spec : EntitySpec} {relations : Bool} :
    runEntityBatch rt gate now spec relations [record] tx = .error e ↔
      enrichNode rt gate now spec record tx = .error e := by
  rw [runEntityBatch, entityRows_singleton, enrichNode]
  cases discogsId rt spec.idKey record with
  | none => simp [gatedCypher, bind, Except.bind, pure, Except.pure]
  | some id =>
    cases spec.buildRow record with
    | error e' => simp [bind, Except.bind]
    | ok row =>
      simp only [bind, Except.bind, pure, Except.pure]
      cases gatedCypher rt gate spec.kind spec.fields now
        [⟨0, id, row, payloadHash rt [.obj row, spec.extraHash record]⟩] tx.graph <;> simp

/-- The error of the relation, if it has one. -/
def relationError (rt : Runtime) (owner : String) (relation : Json) : Option Failure :=
  match relationRow rt owner relation with
  | .error error => some error
  | .ok _ => none

theorem relationError_eq_some {owner : String} {relation : Json} :
    relationError rt owner relation = some e ↔ relationRow rt owner relation = .error e := by
  unfold relationError
  cases relationRow rt owner relation <;> simp

theorem createRelationshipEdges_error {owner : String} {relations : List Json} :
    createRelationshipEdges rt owner relations tx = .error e ↔
      relations.findSome? (relationError rt owner) = some e := by
  refine Except.foldlM_eq_error fun tx relation e => ?_
  rw [relationError_eq_some, createRelationshipEdge, Except.bind_eq_error]
  refine ⟨fun h => h.resolve_right ?_, .inl⟩
  rintro ⟨r, _, h⟩
  rcases r with _ | ⟨type, _ | row⟩
  · cases h
  · cases h
  · cases h

theorem relationPlan_error {owner : String} {relations : List Json} {p : RelationPlan} :
    (relations.map fun relation => (owner, relation)).foldlM (RelationPlan.add rt) p = .error e ↔
      relations.findSome? (relationError rt owner) = some e := by
  have hadd : ∀ (p : RelationPlan) (r : String × Json) (e : Failure),
      p.add rt r = .error e ↔ relationError rt r.1 r.2 = some e := by
    intro p r e
    rw [relationError_eq_some, RelationPlan.add, Except.bind_eq_error]
    refine ⟨fun h => h.resolve_right ?_, .inl⟩
    rintro ⟨r, _, h⟩
    rcases r with _ | ⟨type, _ | row⟩
    · cases h
    · cases h
    · cases h
  rw [Except.foldlM_eq_error hadd, List.findSome?_map]
  rfl

/-- Pruning is the only part of the media phase that fails. -/
theorem releaseMediaSummaryBatchCypher_error {rows : List SummaryRow}
    (h : releaseMediaSummaryBatchCypher rows g = .error e) : e = .clientError := by
  unfold releaseMediaSummaryBatchCypher pruneOrphanMedium at h
  dsimp only at h
  split at h
  · cases h
  · cases h
    rfl

/-- The relation work of a batch of one: none at all, or the relations of its record. -/
theorem relationWork_singleton {id : String} (hid : discogsId rt "discogs_artist_id" record = some id)
    (outcomes : List Outcome) :
    ([record].zip outcomes).zipIdx.foldlM (RelationWork.add rt gate [record]) {} = .ok {} ∨
      ∃ digests, ([record].zip outcomes).zipIdx.foldlM (RelationWork.add rt gate [record]) {} =
        (recordRelations record).iter.map fun xs => ⟨xs.map fun relation => (id, relation), digests⟩ := by
  have howner : (record.get "discogs_artist_id").toStr rt = id := (discogsId_eq_some.mp hid).2
  cases outcomes with
  | nil => exact .inl rfl
  | cons outcome _ =>
    rw [List.zip_cons_cons, List.zip_nil_left, List.zipIdx_singleton, List.foldlM_cons]
    simp only [RelationWork.add, howner, List.foldlM_nil, List.nil_append]
    split
    · exact .inl rfl
    · split
      · exact .inl rfl
      · refine .inr ⟨OrderedDict.set id (payloadHash rt [recordRelations record]) [], ?_⟩
        cases (recordRelations record).iter <;> rfl

/-- The error of an artist's relations is the same on both paths. -/
theorem artistRelations_error {tx₁ tx₂ : Tx} {outcomes : List Outcome} {id : String}
    (hid : discogsId rt "discogs_artist_id" record = some id)
    (hsingle : ((recordRelations record).iter >>= fun xs => createRelationshipEdges rt id xs tx₁) = .error e')
    (hbatch : (([record].zip outcomes).zipIdx.foldlM (RelationWork.add rt gate [record]) {} >>=
      fun w => projectRelations rt w tx₂) = .error e) : e = e' := by
  rcases relationWork_singleton hid outcomes with hwork | ⟨digests, hwork⟩
  · rw [hwork] at hbatch
    cases hbatch
  · rw [hwork] at hbatch
    cases hiter : (recordRelations record).iter with
    | error error =>
      rw [hiter] at hsingle hbatch
      cases hsingle
      cases hbatch
      rfl
    | ok xs =>
      rw [hiter] at hsingle hbatch
      change createRelationshipEdges rt id xs tx₁ = .error e' at hsingle
      change projectRelations rt ⟨xs.map fun relation => (id, relation), digests⟩ tx₂ = .error e at hbatch
      unfold projectRelations at hbatch
      split at hbatch
      · cases hbatch
      · rcases Except.bind_eq_error.mp hbatch with hbatch | ⟨_, _, hpure⟩
        · rcases Except.bind_eq_error.mp hbatch with hplan | ⟨_, _, hpure⟩
          · rw [createRelationshipEdges_error, relationPlan_error.mp hplan] at hsingle
            exact Option.some.inj hsingle
          · cases hpure
        · cases hpure

theorem reconcileReleaseMedia_error {id : String} (h : reconcileReleaseMedia rt id record g = .error e) :
    e = .clientError := by
  unfold reconcileReleaseMedia at h
  split at h
  · cases h
  · rcases Except.bind_eq_error.mp h with h | ⟨_, _, hpure⟩
    · exact releaseMediaSummaryBatchCypher_error h
    · split at hpure <;> cases hpure

theorem reconcileBatch_error {summaries : List SummaryRow} {items : List ReleaseItem}
    (h : reconcileBatch summaries items g = .error e) : e = .clientError := by
  unfold reconcileBatch at h
  split at h
  · cases h
  · rcases Except.bind_eq_error.mp h with h | ⟨_, _, hpure⟩
    · exact releaseMediaSummaryBatchCypher_error h
    · split at hpure <;> cases hpure

/-- A batch of one reports the error of its record's own write. -/
theorem batchProjections_singleton_error (hbatch : batchProjections rt gate now t [record] tx = .error e)
    (hsingle : processors rt gate now t record tx = .error e') : e = e' := by
  -- The shared part fails on both paths or on neither.
  have hshared : ∀ {relations : Bool} {outcome}, runEntityBatch rt gate now (t.spec rt) relations [record] tx = .error e →
      enrichNode rt gate now (t.spec rt) record tx = .ok outcome → False := by
    intro relations outcome hrun hnode
    rw [runEntityBatch_singleton_error.mp hrun] at hnode
    cases hnode
  have hsame : ∀ {relations : Bool}, runEntityBatch rt gate now (t.spec rt) relations [record] tx = .error e →
      enrichNode rt gate now (t.spec rt) record tx = .error e' → e = e' := by
    intro relations hrun hnode
    rw [runEntityBatch_singleton_error.mp hrun] at hnode
    exact Except.error.inj hnode
  have hother : ∀ {relations : Bool} {outcome}, runEntityBatch rt gate now (t.spec rt) relations [record] tx = .ok outcome →
      enrichNode rt gate now (t.spec rt) record tx = .error e' → False := by
    intro relations outcome hrun hnode
    rw [runEntityBatch_singleton_error.mpr hnode] at hrun
    cases hrun
  cases t with
  | artists =>
    rcases Except.bind_eq_error.mp hsingle with hnode | ⟨⟨tx₁, matched⟩, hnode, hsingle⟩
    · rcases Except.bind_eq_error.mp hbatch with hrun | ⟨_, hrun, _⟩
      · exact hsame hrun hnode
      · exact (hother hrun hnode).elim
    · rcases Except.bind_eq_error.mp hbatch with hrun | ⟨⟨tx₂, outcomes⟩, hrun, hbatch⟩
      · exact (hshared hrun hnode).elim
      · dsimp only at hsingle
        split at hsingle
        · cases hsingle
        · rename_i id written
          have hid := ((enrichNode_matched hnode).mp rfl).1
          split at hsingle
          · have hrelations : (([record].zip outcomes).zipIdx.foldlM (RelationWork.add rt gate [record]) {} >>=
                fun w => projectRelations rt w tx₂) = .error e := by
              rcases Except.bind_eq_error.mp hbatch with hwork | ⟨w, hwork, hbatch⟩
              · exact Except.bind_eq_error.mpr (.inl hwork)
              · rcases Except.bind_eq_error.mp hbatch with hproject | ⟨_, _, hpure⟩
                · exact Except.bind_eq_error.mpr (.inr ⟨w, hwork, hproject⟩)
                · cases hpure
            exact artistRelations_error hid hsingle hrelations
          · cases hsingle
  | labels =>
    rcases Except.bind_eq_error.mp hsingle with hnode | ⟨_, _, hpure⟩
    · rcases Except.bind_eq_error.mp hbatch with hrun | ⟨_, _, hpure⟩
      · exact hsame hrun hnode
      · cases hpure
    · cases hpure
  | releaseGroups =>
    rcases Except.bind_eq_error.mp hsingle with hnode | ⟨_, _, hpure⟩
    · rcases Except.bind_eq_error.mp hbatch with hrun | ⟨_, _, hpure⟩
      · exact hsame hrun hnode
      · cases hpure
    · cases hpure
  | releases =>
    rcases Except.bind_eq_error.mp hsingle with hnode | ⟨⟨tx₁, matched⟩, hnode, hsingle⟩
    · rcases Except.bind_eq_error.mp hbatch with hrun | ⟨_, hrun, _⟩
      · exact hsame hrun hnode
      · exact (hother hrun hnode).elim
    · rcases Except.bind_eq_error.mp hbatch with hrun | ⟨_, _, hbatch⟩
      · exact (hshared hrun hnode).elim
      · have hclient : e = .clientError := by
          rcases Except.bind_eq_error.mp hbatch with hbatch | ⟨_, _, hpure⟩
          · exact reconcileBatch_error hbatch
          · cases hpure
        dsimp only at hsingle
        split at hsingle
        · rcases Except.bind_eq_error.mp hsingle with hsingle | ⟨_, _, hpure⟩
          · rw [hclient, reconcileReleaseMedia_error hsingle]
          · cases hpure
        · cases hsingle

/-! ## Replays -/

/-- The graph after some of the records' own writes, in any order and at any time. -/
def Replayed (rt : Runtime) (gate : Bool) (t : EntityType) (records : List Dict) : Graph → Graph → Prop :=
  Relation.ReflTransGen fun g g' => ∃ record ∈ records, ∃ now tx matched,
    writeOne rt gate now t record g = .ok (tx, matched) ∧ tx.graph = g'

/-- A later record of the batch has the same id. -/
def Superseded (rt : Runtime) (t : EntityType) (records : List Dict) (k : Nat) (record : Dict) : Prop :=
  ∃ later ∈ records.drop (k + 1), ∃ id,
    discogsId rt (t.spec rt).idKey record = some id ∧ discogsId rt (t.spec rt).idKey later = some id

/-- The record has a row in the batch statement. -/
def Carried (rt : Runtime) (t : EntityType) (records : List Dict) (record : Dict) : Prop :=
  ∃ id, lastOf rt (t.spec rt).idKey records id = some record

variable {records : List Dict} {g' : Graph} {k : Nat} {clock : Nat → Json}

theorem ownWrite_of_writeOne {tx : Tx} {matched : Bool} (h : writeOne rt gate now t record g = .ok (tx, matched)) :
    ownWrite rt gate t now record g = .ok matched := by
  rw [ownWrite, h]
  rfl

theorem ownWrite_eq_error : ownWrite rt gate t now record g = .error e ↔
    processors rt gate now t record ⟨g, {}⟩ = .error e := by
  rw [ownWrite, writeOne]
  cases processors rt gate now t record ⟨g, {}⟩ <;> simp [Except.map, bind, Except.bind, pure, Except.pure]

theorem exists_writeOne {matched : Bool} (h : ownWrite rt gate t now record g = .ok matched) :
    ∃ tx, writeOne rt gate now t record g = .ok (tx, matched) := by
  rw [ownWrite] at h
  cases hwrite : writeOne rt gate now t record g with
  | error e => rw [hwrite] at h; cases h
  | ok r =>
    rw [hwrite] at h
    cases h
    exact ⟨r.1, rfl⟩

/-- An own write that succeeds tells whether the record's node exists. -/
theorem ownWrite_matched {matched : Bool} (h : ownWrite rt gate t now record g = .ok matched) :
    matched = matchesNode rt t g record := by
  obtain ⟨tx, hwrite⟩ := exists_writeOne h
  exact (writeOne_spec hwrite).2.1

theorem Replayed.matchesNode (h : Replayed rt gate t records g g') (record : Dict) :
    matchesNode rt t g' record = matchesNode rt t g record := by
  induction h with
  | refl => rfl
  | tail _ hstep ih =>
    obtain ⟨other, _, now, tx, matched, hwrite, rfl⟩ := hstep
    rw [← ih]
    unfold Brainzgraphinator.matchesNode
    split
    · rfl
    · exact (writeOne_spec hwrite).1.isSome_node (t.fixes_kind rt)

variable (gate records) in
/-- Each record of a replay is given what its own write says on the graph it finds. The
records that are written form a run of entity writes. -/
theorem replayAll_spec (hinj : Function.Injective rt.hexdigest) (clock : Nat → Json) {rs : List (Dict × Nat)}
    (hsub : ∀ r ∈ rs, r.1 ∈ records) (htruthful : TruthfulNodes rt t g) :
    ∃ written, written.Sublist (rs.map Prod.fst) ∧
      EntityRun rt t written g (replayAll rt gate t clock rs g).1 ∧
      ∀ j r, rs[j]? = some r → ∃ before, Replayed rt gate t records g before ∧
        (replayAll rt gate t clock rs g).2[j]? = some (ownWrite rt gate t (clock r.2) r.1 before) ∧
        ∀ matched id, ownWrite rt gate t (clock r.2) r.1 before = .ok matched →
          discogsId rt (t.spec rt).idKey r.1 = some id →
          (∀ later ∈ rs.drop (j + 1), discogsId rt (t.spec rt).idKey later.1 ≠ some id) →
          lastOf rt (t.spec rt).idKey written id = some r.1 := by
  induction rs generalizing g with
  | nil => exact ⟨[], .slnil, .nil g, fun j r hr => by simp at hr⟩
  | cons r rs ih =>
    have hsub' : ∀ r ∈ rs, r.1 ∈ records := fun r hr => hsub r (List.mem_cons_of_mem _ hr)
    cases hwrite : writeOne rt gate (clock r.2) t r.1 g with
    | error error =>
      obtain ⟨written, hwritten, hrun, hall⟩ := ih hsub' htruthful
      refine ⟨written, hwritten.cons _, ?_, fun j r' hr' => ?_⟩
      · simp only [replayAll, hwrite]
        exact hrun
      · simp only [replayAll, hwrite]
        have hown : ownWrite rt gate t (clock r.2) r.1 g = .error error := by
          rw [ownWrite, hwrite]
          rfl
        cases j with
        | zero =>
          cases hr'
          exact ⟨g, .refl, by rw [hown]; rfl, fun matched id hok => by rw [hown] at hok; cases hok⟩
        | succ j => exact hall j r' hr'
    | ok result =>
      obtain ⟨tx, matched⟩ := result
      have hspec := (writeOne_spec hwrite).1.run hinj htruthful
      obtain ⟨written, hwritten, hrun, hall⟩ := ih hsub' (hspec.truthful htruthful)
      refine ⟨r.1 :: written, hwritten.cons_cons _, ?_, fun j r' hr' => ?_⟩
      · simp only [replayAll, hwrite]
        exact hspec.trans hrun
      · simp only [replayAll, hwrite]
        have hlast : ∀ id, lastOf rt (t.spec rt).idKey (r.1 :: written) id =
            (lastOf rt (t.spec rt).idKey written id).or (lastOf rt (t.spec rt).idKey [r.1] id) :=
          lastOf_append (t.spec rt).idKey [r.1] written
        cases j with
        | zero =>
          cases hr'
          refine ⟨g, .refl, by rw [ownWrite_of_writeOne hwrite]; rfl, fun _ id _ hid hlater => ?_⟩
          have hnone : lastOf rt (t.spec rt).idKey written id = none := by
            rw [lastOf, List.find?_eq_none]
            intro later hmem
            obtain ⟨r', hr', rfl⟩ := List.mem_map.mp (hwritten.subset (List.mem_reverse.mp hmem))
            simpa using hlater r' hr'
          rw [hlast, hnone, Option.none_or, lastOf_singleton, if_pos hid]
        | succ j =>
          obtain ⟨before, hbefore, hanswer, hwrites⟩ := hall j r' hr'
          refine ⟨before, .head ⟨r.1, hsub r List.mem_cons_self, _, tx, matched, hwrite, rfl⟩ hbefore, hanswer,
            fun m id hok hid hlater => ?_⟩
          rw [hlast, hwrites m id hok hid hlater, Option.some_or]

/-! ## What every record comes to -/

/-- What a submit is given is what the record's own write says, and a record that is
written is on its node. -/
structure Resolves (rt : Runtime) (gate : Bool) (t : EntityType) (records : List Dict) (g g' : Graph)
    (record : Dict) (answer : Except Failure Bool) : Prop where
  own : ∃ before now, Replayed rt gate t records g before ∧ answer = ownWrite rt gate t now record before
  matched : ∀ m, answer = .ok m → m = matchesNode rt t g record
  carries : ∀ m id n', answer = .ok m → discogsId rt (t.spec rt).idKey record = some id →
    g'.node ⟨(t.spec rt).kind, id⟩ = some n' → Carries rt (t.spec rt) record n'

theorem Resolves.of_own {before : Graph} {answer : Except Failure Bool}
    (hbefore : Replayed rt gate t records g before) (hanswer : answer = ownWrite rt gate t now record before)
    (hcarries : ∀ m id n', answer = .ok m → discogsId rt (t.spec rt).idKey record = some id →
      g'.node ⟨(t.spec rt).kind, id⟩ = some n' → Carries rt (t.spec rt) record n') :
    Resolves rt gate t records g g' record answer := by
  refine ⟨⟨before, now, hbefore, hanswer⟩, fun m hm => ?_, hcarries⟩
  rw [← hbefore.matchesNode record]
  exact ownWrite_matched (hanswer.symm.trans hm)

/-- The last record of its id has a row. -/
theorem lastOf_of_not_superseded {id : String} (hk : records[k]? = some record)
    (hnot : ¬Superseded rt t records k record) (hid : discogsId rt (t.spec rt).idKey record = some id) :
    lastOf rt (t.spec rt).idKey records id = some record := by
  obtain ⟨hlt, hget⟩ := List.getElem?_eq_some_iff.mp hk
  have hsplit : records = records.take k ++ [record] ++ records.drop (k + 1) := by
    rw [List.append_assoc, List.singleton_append, ← hget, List.getElem_cons_drop, List.take_append_drop]
  have hnone : lastOf rt (t.spec rt).idKey (records.drop (k + 1)) id = none := by
    rw [lastOf, List.find?_eq_none]
    intro later hmem
    have hlater : discogsId rt (t.spec rt).idKey later ≠ some id :=
      fun h => hnot ⟨later, List.mem_reverse.mp hmem, id, hid, h⟩
    simpa using hlater
  rw [hsplit, lastOf_append, hnone, Option.none_or, lastOf_append, lastOf_singleton, if_pos hid, Option.some_or]

theorem ownWrite_unidentified (hid : discogsId rt (t.spec rt).idKey record = none) :
    ownWrite rt gate t now record g = .ok false := by
  have hnode : enrichNode rt gate now (t.spec rt) record ⟨g, {}⟩ = .ok (⟨g, (recordOutcome none {}).2⟩, none) := by
    rw [enrichNode, hid]
  rw [ownWrite, writeOne]
  cases t with
  | artists =>
    simp only [processors, enrichArtist, show enrichNode rt gate now artistSpec record ⟨g, {}⟩ = _ from hnode]
    rfl
  | labels =>
    simp only [processors, enrichLabel, show enrichNode rt gate now labelSpec record ⟨g, {}⟩ = _ from hnode]
    rfl
  | releaseGroups =>
    simp only [processors, enrichReleaseGroup, show enrichNode rt gate now releaseGroupSpec record ⟨g, {}⟩ = _ from hnode]
    rfl
  | releases =>
    simp only [processors, enrichRelease, show enrichNode rt gate now (releaseSpec rt) record ⟨g, {}⟩ = _ from hnode]
    rfl

variable (clock) in
/-- A batch gives every record that is not superseded what its own write says, whether
it commits or is replayed, if it fails exactly when a row it carries does. -/
theorem writeBatch_resolves (hinj : Function.Injective rt.hexdigest) (htruthful : TruthfulNodes rt t g)
    (hfails : (∃ e, batchProjections rt gate now t records ⟨g, {}⟩ = .error e) ↔
      ∃ record, Carried rt t records record ∧ ∃ e, ownWrite rt gate t now record g = .error e)
    (hk : records[k]? = some record) (hnot : ¬Superseded rt t records k record) :
    ∃ answer, (writeBatch rt gate t now clock records g).2[k]? = some answer ∧
      Resolves rt gate t records g (writeBatch rt gate t now clock records g).1 record answer := by
  unfold writeBatch
  split
  · rename_i tx flags hbatch
    obtain ⟨rfl, _⟩ := batchProjections_counted hbatch
    have hrun := (batchProjections_entityWrite hbatch).run hinj htruthful
    have hown : ownWrite rt gate t now record g = .ok (matchesNode rt t g record) := by
      cases hid : discogsId rt (t.spec rt).idKey record with
      | none =>
        have hfalse : ownWrite rt gate t now record g = .ok false := ownWrite_unidentified hid
        rw [hfalse, ← ownWrite_matched hfalse]
      | some id =>
        cases hown : ownWrite rt gate t now record g with
        | ok matched => rw [ownWrite_matched hown]
        | error e =>
          obtain ⟨e', herror⟩ := hfails.mpr ⟨record, ⟨id, lastOf_of_not_superseded hk hnot hid⟩, e, hown⟩
          rw [hbatch] at herror
          cases herror
    refine ⟨.ok (matchesNode rt t g record), by simp [hk], .of_own .refl hown.symm fun m id n' _ hid hn' => ?_⟩
    exact hrun.carries id record n' (lastOf_of_not_superseded hk hnot hid) hn'
  · rename_i error hbatch
    split
    · rename_i hlength
      obtain ⟨only, rfl⟩ := List.length_eq_one_iff.mp hlength
      have hk' := hk
      rw [List.getElem?_singleton, Option.ite_none_right_eq_some] at hk'
      obtain ⟨rfl, honly⟩ := hk'
      cases honly
      obtain ⟨other, ⟨id, hother⟩, e, hown⟩ := hfails.mp ⟨error, hbatch⟩
      rw [lastOf_singleton, Option.ite_none_right_eq_some] at hother
      cases hother.2
      have herror : error = e := batchProjections_singleton_error hbatch (ownWrite_eq_error.mp hown)
      rw [← herror] at hown
      exact ⟨.error error, rfl, .of_own .refl hown.symm fun m id n' hok => nomatch hok⟩
    · obtain ⟨written, hwritten, hrun, hall⟩ := replayAll_spec gate records hinj clock
        (fun r hr => List.fst_mem_of_mem_zipIdx hr) htruthful
      have hr : records.zipIdx[k]? = some (record, k) := by
        rw [List.getElem?_zipIdx, hk, Option.map_some, Nat.zero_add]
      obtain ⟨before, hbefore, hanswer, hlast⟩ := hall k (record, k) hr
      refine ⟨_, hanswer, .of_own hbefore rfl fun m id n' hok hid hn' => ?_⟩
      refine hrun.carries id record n' (hlast m id hok hid fun later hlater hsame => hnot ?_) hn'
      have hmem : later.1 ∈ records.drop (k + 1) := by
        rw [← List.zipIdx_map_fst 0 records, ← List.map_drop]
        exact List.mem_map_of_mem hlater
      exact ⟨later.1, hmem, id, hid, hsame⟩

end Brainzgraphinator
