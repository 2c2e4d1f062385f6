-- SUMMARY: Which record of a batch represents an entity, and what the gated SET leaves on its node.
import Mathlib.Data.List.Enum
import Brainzgraphinator.Projections.Enrich

/-!
# The gated batch write

A batch writes at most one record per Discogs id, the last one that has it.
`lastRecord` names that record, and the lemmas below say that the rows of the
gated UNWIND, the nodes it leaves and the outcomes it reports are all about it.
-/

namespace Brainzgraphinator

variable {rt : Runtime} {gate : Bool} {now : Json}

/-! ## The last record of an id -/

theorem discogsId_eq_some {key : String} {record : Dict} {id : String} :
    discogsId rt key record = some id ↔
      record.get key ≠ .null ∧ (record.get key).toStr rt = id := by
  cases h : record.get key <;> simp [discogsId, h]

variable (rt) in
/-- The last record with the Discogs id `id`, and its index. -/
def lastRecord (key : String) (records : List Dict) (id : String) : Option (Dict × Nat) :=
  records.zipIdx.reverse.find? fun r => discogsId rt key r.1 = some id

theorem lookup_lastIndex (key : String) (records : List Dict) (id : String) :
    (lastIndex rt key records).lookup id = (lastRecord rt key records id).map Prod.snd :=
  OrderedDict.lookup_collect _ _ _ _

variable (rt) in
/-- The last record with the Discogs id `id`. -/
def lastOf (key : String) (records : List Dict) (id : String) : Option Dict :=
  records.reverse.find? fun r => discogsId rt key r = some id

theorem lastRecord_map_fst (key : String) (records : List Dict) (id : String) :
    (lastRecord rt key records id).map Prod.fst = lastOf rt key records id :=
  OrderedDict.find?_reverse_zipIdx (fun r => decide (discogsId rt key r = some id)) records

theorem lastOf_singleton (key : String) (record : Dict) (id : String) :
    lastOf rt key [record] id =
      if discogsId rt key record = some id then some record else none := by
  by_cases h : discogsId rt key record = some id <;> simp [lastOf, h]

theorem lastOf_append (key : String) (xs ys : List Dict) (id : String) :
    lastOf rt key (xs ++ ys) id = (lastOf rt key ys id).or (lastOf rt key xs id) := by
  rw [lastOf, List.reverse_append, List.find?_append]
  rfl

theorem exists_lastOf {key : String} {records : List Dict} {record : Dict} {id : String}
    (hmem : record ∈ records) (hid : discogsId rt key record = some id) :
    ∃ last ∈ records, lastOf rt key records id = some last ∧ discogsId rt key last = some id := by
  have hsome : (lastOf rt key records id).isSome := by
    rw [lastOf, List.find?_isSome]
    exact ⟨record, List.mem_reverse.mpr hmem, by simpa using hid⟩
  obtain ⟨last, hlast⟩ := Option.isSome_iff_exists.mp hsome
  exact ⟨last, List.mem_reverse.mp (List.mem_of_find?_eq_some hlast), hlast,
    by simpa using List.find?_some hlast⟩

theorem eq_of_nodup_filterMap {α β : Type*} {f : α → Option β} {xs : List α}
    (h : (xs.filterMap f).Nodup) {x y : α} (hx : x ∈ xs) (hy : y ∈ xs) {b : β} (hfx : f x = some b)
    (hfy : f y = some b) : x = y := by
  induction xs with
  | nil => cases hx
  | cons z zs ih =>
    have hnot : ∀ w ∈ zs, f z = some b → f w ≠ some b := by
      intro w hw hz hwb
      rw [List.filterMap_cons_some hz, List.nodup_cons] at h
      exact h.1 (List.mem_filterMap.mpr ⟨w, hw, hwb⟩)
    have hzs : (zs.filterMap f).Nodup := h.sublist ((List.sublist_cons_self z zs).filterMap f)
    rcases List.mem_cons.mp hx with rfl | hx'
    · rcases List.mem_cons.mp hy with rfl | hy'
      · rfl
      · exact absurd hfy (hnot y hy' hfx)
    · rcases List.mem_cons.mp hy with rfl | hy'
      · exact absurd hfx (hnot x hx' hfy)
      · exact ih hzs hx' hy'

/-- A record whose id no other record has is the last one of its id. -/
theorem lastOf_of_nodup {key : String} {records : List Dict} {record : Dict} {id : String}
    (hnd : (records.filterMap (discogsId rt key)).Nodup) (hmem : record ∈ records)
    (hid : discogsId rt key record = some id) : lastOf rt key records id = some record := by
  obtain ⟨last, hmem', hlast, hid'⟩ := exists_lastOf hmem hid
  rw [hlast, eq_of_nodup_filterMap hnd hmem' hmem hid' hid]

theorem lastRecord_mem {key : String} {records : List Dict} {id : String} {r : Dict × Nat}
    (h : lastRecord rt key records id = some r) :
    r ∈ records.zipIdx ∧ discogsId rt key r.1 = some id := by
  refine ⟨List.mem_reverse.mp (List.mem_of_find?_eq_some h), ?_⟩
  simpa using List.find?_some h

/-- Every record with an id has a last record of that id. -/
theorem exists_lastRecord {key : String} {records : List Dict} {id : String} {r : Dict × Nat}
    (hr : r ∈ records.zipIdx) (hid : discogsId rt key r.1 = some id) :
    ∃ last, lastRecord rt key records id = some last := by
  rw [← Option.isSome_iff_exists, lastRecord, List.find?_isSome]
  exact ⟨r, List.mem_reverse.mpr hr, by simpa using hid⟩

theorem getD_of_mem_zipIdx {records : List Dict} {r : Dict × Nat} (h : r ∈ records.zipIdx) :
    records.getD r.2 [] = r.1 := by
  rw [List.getD_eq_getElem?_getD, List.mk_mem_zipIdx_iff_getElem?.mp h, Option.getD_some]

/-- No record after the last one has the id. -/
theorem not_mem_drop_lastRecord {key : String} {records : List Dict} {id : String} {r : Dict × Nat}
    (h : lastRecord rt key records id = some r) {later : Dict} (hl : later ∈ records.drop (r.2 + 1)) :
    discogsId rt key later ≠ some id := by
  obtain ⟨_, as, bs, happend, hnot⟩ := List.find?_eq_some_iff_append.mp h
  have hsplit : records.zipIdx = bs.reverse ++ r :: as.reverse := by
    have hrev := congrArg List.reverse happend
    simpa using hrev
  have hindex : r.2 = bs.reverse.length := by
    have hget : records.zipIdx[bs.reverse.length]? = some r := by
      rw [hsplit, List.getElem?_append_right le_rfl, Nat.sub_self, List.getElem?_cons_zero]
    rw [List.getElem?_zipIdx, Option.map_eq_some_iff] at hget
    obtain ⟨_, _, rfl⟩ := hget
    exact Nat.zero_add _
  have hrecords : records = bs.reverse.map Prod.fst ++ r.1 :: as.reverse.map Prod.fst := by
    rw [← List.zipIdx_map_fst 0 records, hsplit]
    simp
  have hdrop : records.drop (r.2 + 1) = as.reverse.map Prod.fst := by
    rw [hrecords, hindex, ← List.length_map (f := Prod.fst), List.drop_append]
    simp
  rw [hdrop] at hl
  obtain ⟨r', hr', rfl⟩ := List.mem_map.mp hl
  have hfalse := hnot r' (List.mem_reverse.mp hr')
  simpa using hfalse

/-- The plan lists the index of the last record of every id, and no other. -/
theorem mem_lastIndex {key : String} {records : List Dict} {id : String} {i : Nat} :
    (id, i) ∈ lastIndex rt key records ↔
      ∃ record, lastRecord rt key records id = some (record, i) := by
  have hkeys := OrderedDict.nodup_keys_collect
    (fun r : Dict × Nat => discogsId rt key r.1) Prod.snd records.zipIdx
  have hlookup : (lastIndex rt key records).lookup id = some i ↔ (id, i) ∈ lastIndex rt key records :=
    OrderedDict.lookup_eq_some_iff hkeys
  rw [← hlookup, lookup_lastIndex, Option.map_eq_some_iff]
  constructor
  · rintro ⟨⟨record, j⟩, h, rfl⟩
    exact ⟨record, h⟩
  · rintro ⟨record, h⟩
    exact ⟨_, h, rfl⟩

/-- An index represents one id only. -/
theorem lastRecord_index_inj {key : String} {records : List Dict} {id id' : String}
    {r r' : Dict × Nat} (h : lastRecord rt key records id = some r)
    (h' : lastRecord rt key records id' = some r') (hi : r.2 = r'.2) : id = id' := by
  obtain ⟨hmem, hid⟩ := lastRecord_mem h
  obtain ⟨hmem', hid'⟩ := lastRecord_mem h'
  have hrec : r.1 = r'.1 := by
    rw [← getD_of_mem_zipIdx hmem, ← getD_of_mem_zipIdx hmem', hi]
  rw [hrec, hid'] at hid
  exact (Option.some.inj hid).symm

theorem nodup_lastIndex_snd (key : String) (records : List Dict) :
    ((lastIndex rt key records).map Prod.snd).Nodup := by
  have hkeys : ((lastIndex rt key records).map Prod.fst).Nodup :=
    OrderedDict.nodup_keys_collect _ _ _
  refine List.Nodup.map_on ?_ (List.Nodup.of_map _ hkeys)
  rintro ⟨id, i⟩ hmem ⟨id', i'⟩ hmem' (rfl : i = i')
  obtain ⟨record, h⟩ := mem_lastIndex.mp hmem
  obtain ⟨record', h'⟩ := mem_lastIndex.mp hmem'
  rw [lastRecord_index_inj h h' rfl]

/-! ## Rows of the UNWIND -/

variable (rt) in
/-- The row carries what the record projects onto its node. -/
def EntitySpec.Projects (spec : EntitySpec) (record : Dict) (row : EntityRow) : Prop :=
  spec.buildRow record = .ok row.row ∧
    row.mbHash = payloadHash rt [.obj row.row, spec.extraHash record]

/-- Two rows a record projects carry the same values. -/
theorem EntitySpec.Projects.unique {spec : EntitySpec} {record : Dict} {row row' : EntityRow}
    (h : spec.Projects rt record row) (h' : spec.Projects rt record row') :
    row.row = row'.row ∧ row.mbHash = row'.mbHash := by
  have hrow : row.row = row'.row := Except.ok.inj (h.1.symm.trans h'.1)
  exact ⟨hrow, by rw [h.2, h'.2, hrow]⟩

theorem entityRow_of_lastRecord {spec : EntitySpec} {records : List Dict} {id : String} {i : Nat}
    {record : Dict} {row : EntityRow}
    (hlast : lastRecord rt spec.idKey records id = some (record, i))
    (h : entityRow rt spec records i = .ok row) :
    row.idx = i ∧ row.discogsId = id ∧ spec.Projects rt record row := by
  obtain ⟨hmem, hid⟩ := lastRecord_mem hlast
  simp only [entityRow, getD_of_mem_zipIdx hmem] at h
  obtain ⟨built, hb, h⟩ := Except.bind_eq_ok.mp h
  rw [Except.pure_eq_ok] at h
  subst h
  exact ⟨rfl, (discogsId_eq_some.mp hid).2, hb, rfl⟩

section Rows

variable {spec : EntitySpec} {records : List Dict} {rows : List EntityRow}

theorem exists_lastRecord_of_mem_entityRows (h : entityRows rt spec records = .ok rows)
    {row : EntityRow} (hrow : row ∈ rows) :
    ∃ record, lastRecord rt spec.idKey records row.discogsId = some (record, row.idx) ∧
      spec.Projects rt record row := by
  obtain ⟨i, hi, hok⟩ := Except.exists_of_mem_mapM h hrow
  rw [List.mem_insertionSort] at hi
  obtain ⟨⟨id, _⟩, hmem, rfl⟩ := List.mem_map.mp hi
  obtain ⟨record, hlast⟩ := mem_lastIndex.mp hmem
  obtain ⟨hidx, hid, hproj⟩ := entityRow_of_lastRecord hlast hok
  exact ⟨record, by rw [hid, hidx]; exact hlast, hproj⟩

theorem exists_mem_entityRows (h : entityRows rt spec records = .ok rows) {id : String}
    {record : Dict} {i : Nat} (hlast : lastRecord rt spec.idKey records id = some (record, i)) :
    ∃ row ∈ rows, row.discogsId = id ∧ row.idx = i ∧ spec.Projects rt record row := by
  have hi : i ∈ ((lastIndex rt spec.idKey records).map Prod.snd).insertionSort (· ≤ ·) :=
    (List.mem_insertionSort _).mpr (List.mem_map.mpr ⟨_, mem_lastIndex.mpr ⟨_, hlast⟩, rfl⟩)
  obtain ⟨row, hrow, hok⟩ := Except.exists_mem_of_mapM h hi
  obtain ⟨hidx, hid, hproj⟩ := entityRow_of_lastRecord hlast hok
  exact ⟨row, hrow, hid, hidx, hproj⟩

theorem entityRows_map_idx (h : entityRows rt spec records = .ok rows) :
    rows.map EntityRow.idx =
      ((lastIndex rt spec.idKey records).map Prod.snd).insertionSort (· ≤ ·) := by
  have hidx : ∀ i row, entityRow rt spec records i = .ok row → row.idx = i := by
    intro i row hok
    obtain ⟨_, _, hok⟩ := Except.bind_eq_ok.mp hok
    rw [Except.pure_eq_ok] at hok
    rw [← hok]
  rw [Except.map_of_mapM h hidx, List.map_id']

theorem nodup_entityRows_idx (h : entityRows rt spec records = .ok rows) :
    (rows.map EntityRow.idx).Nodup := by
  rw [entityRows_map_idx h, (List.perm_insertionSort _ _).nodup_iff]
  exact nodup_lastIndex_snd _ _

/-- The rows have distinct Discogs ids. -/
theorem nodup_entityRows_discogsId (h : entityRows rt spec records = .ok rows) :
    (rows.map EntityRow.discogsId).Nodup := by
  have hidx := nodup_entityRows_idx h
  refine List.Nodup.map_on ?_ (List.Nodup.of_map _ hidx)
  intro row hrow row' hrow' hid
  obtain ⟨record, hlast, _⟩ := exists_lastRecord_of_mem_entityRows h hrow
  obtain ⟨record', hlast', _⟩ := exists_lastRecord_of_mem_entityRows h hrow'
  rw [hid, hlast'] at hlast
  have heq : row'.idx = row.idx := (Prod.mk.inj (Option.some.inj hlast)).2
  exact List.inj_on_of_nodup_map hidx hrow hrow' heq.symm

end Rows

/-! ## The gated SET -/

/-- What the gated SET leaves on a matched node. -/
def gatedWrite (gate : Bool) (fields : Fields) (now : Json) (row : EntityRow) (n : Props) : Props :=
  if changed gate n row.mbHash then writeRow fields now row n else n

/-- The result row of a matched node. -/
def gatedResult (gate : Bool) (row : EntityRow) (n : Props) : GatedResult :=
  ⟨row.idx, changed gate n row.mbHash, n "mb_relations_hash"⟩

section Gated

variable {kind : NodeLabel} {fields : Fields} {rows : List EntityRow} {g g' : Graph}
  {results : List GatedResult}

/-- The statement returns one row for every matched node. -/
theorem gatedCypher_results (h : gatedCypher rt gate kind fields now rows g = .ok (g', results)) :
    results = rows.filterMap fun row =>
      (g.node ⟨kind, row.discogsId⟩).map (gatedResult gate row) := by
  unfold gatedCypher at h
  dsimp only at h
  split at h
  · cases h
    rw [List.map_filterMap]
    simp only [Option.map_map]
    rfl
  · cases h

theorem mem_gatedResults (h : gatedCypher rt gate kind fields now rows g = .ok (g', results))
    {res : GatedResult} :
    res ∈ results ↔
      ∃ row ∈ rows, ∃ n, g.node ⟨kind, row.discogsId⟩ = some n ∧ gatedResult gate row n = res := by
  simp [gatedCypher_results h]

/-- The statement updates the changed nodes among those it matched. -/
theorem gatedCypher_eq_ok (h : gatedCypher rt gate kind fields now rows g = .ok (g', results)) :
    ∃ written : List (EntityRow × Props),
      (∀ m, m ∈ written ↔ m.1 ∈ rows ∧ g.node ⟨kind, m.1.discogsId⟩ = some m.2 ∧
        changed gate m.2 m.1.mbHash) ∧
      (rows.Nodup → written.Nodup) ∧
      g' = written.foldl (fun g m => g.update ⟨kind, m.1.discogsId⟩ (writeRow fields now m.1)) g := by
  unfold gatedCypher at h
  dsimp only at h
  split at h
  · cases h
    refine ⟨_, ?_, ?_, rfl⟩
    · rintro ⟨row, n⟩
      simp only [List.mem_filter, List.mem_filterMap, Option.map_eq_some_iff, Prod.mk.injEq]
      constructor
      · rintro ⟨⟨_, hrow, _, hn, rfl, rfl⟩, hc⟩
        exact ⟨hrow, hn, hc⟩
      · rintro ⟨hrow, hn, hc⟩
        exact ⟨⟨row, hrow, n, hn, rfl, rfl⟩, hc⟩
    · refine fun hnd => List.Nodup.filter _ (List.Nodup.filterMap ?_ hnd)
      intro row row' m hm hm'
      simp only [Option.mem_def, Option.map_eq_some_iff] at hm hm'
      obtain ⟨_, _, rfl⟩ := hm
      obtain ⟨_, _, heq⟩ := hm'
      exact (Prod.mk.inj heq).1.symm
  · cases h

@[simp] theorem gatedCypher_rels (h : gatedCypher rt gate kind fields now rows g = .ok (g', results)) :
    g'.rels = g.rels := by
  obtain ⟨written, _, _, rfl⟩ := gatedCypher_eq_ok h
  rw [PropertyGraph.Graph.rels_foldl_update]

/-- A node that no row names is left alone. -/
theorem gatedCypher_node_frame
    (h : gatedCypher rt gate kind fields now rows g = .ok (g', results)) {k : NodeKey}
    (hk : ∀ row ∈ rows, (⟨kind, row.discogsId⟩ : NodeKey) ≠ k) : g'.node k = g.node k := by
  obtain ⟨written, hmem, _, rfl⟩ := gatedCypher_eq_ok h
  exact PropertyGraph.Graph.node_foldl_update_of_forall_ne
    (fun m hm => hk m.1 ((hmem m).mp hm).1) g

/-- The node a row names is written exactly when the row changes it. -/
theorem gatedCypher_node (h : gatedCypher rt gate kind fields now rows g = .ok (g', results))
    (hnd : (rows.map EntityRow.discogsId).Nodup) {row : EntityRow} (hrow : row ∈ rows) :
    g'.node ⟨kind, row.discogsId⟩ =
      (g.node ⟨kind, row.discogsId⟩).map (gatedWrite gate fields now row) := by
  obtain ⟨written, hmem, hnodup, rfl⟩ := gatedCypher_eq_ok h
  have hinj : ∀ m ∈ written, ∀ m' ∈ written,
      (⟨kind, m.1.discogsId⟩ : NodeKey) = ⟨kind, m'.1.discogsId⟩ → m = m' := by
    intro m hm m' hm' heq
    obtain ⟨hr, hn, _⟩ := (hmem m).mp hm
    obtain ⟨hr', hn', _⟩ := (hmem m').mp hm'
    rw [heq, hn'] at hn
    have hrow := List.inj_on_of_nodup_map hnd hr hr' (by simpa using heq)
    exact Prod.ext hrow (Option.some.inj hn).symm
  by_cases hw : ∃ n, (row, n) ∈ written
  · obtain ⟨n, hn⟩ := hw
    obtain ⟨_, hnode, hc⟩ := (hmem (row, n)).mp hn
    have hkeys := List.Nodup.map_on hinj (hnodup (List.Nodup.of_map _ hnd))
    rw [PropertyGraph.Graph.node_foldl_update_of_mem hkeys hn, hnode]
    simp only [Option.map_some, gatedWrite]
    rw [if_pos hc]
  · have hframe : ∀ m ∈ written, (⟨kind, m.1.discogsId⟩ : NodeKey) ≠ ⟨kind, row.discogsId⟩ := by
      intro m hm heq
      obtain ⟨hr, _, _⟩ := (hmem m).mp hm
      have hrow := List.inj_on_of_nodup_map hnd hr hrow (by simpa using heq)
      exact hw ⟨m.2, hrow ▸ hm⟩
    rw [PropertyGraph.Graph.node_foldl_update_of_forall_ne hframe]
    cases hnode : g.node ⟨kind, row.discogsId⟩ with
    | none => rfl
    | some n =>
      have hc : ¬ changed gate n row.mbHash := fun hc => hw ⟨n, (hmem _).mpr ⟨hrow, hnode, hc⟩⟩
      simp only [Option.map_some, gatedWrite]
      rw [if_neg hc]

end Gated

/-! ## What a write does to the nodes of its kind -/

/-- The effect of a gated write of `records`: the last record of every id is on
its node, everything else is as before. -/
structure NodeWrite (rt : Runtime) (gate : Bool) (now : Json) (spec : EntitySpec)
    (records : List Dict) (g g' : Graph) : Prop where
  rels : g'.rels = g.rels
  frame : ∀ k : NodeKey, (k.label = spec.kind → lastOf rt spec.idKey records k.id = none) →
    g'.node k = g.node k
  written : ∀ id record, lastOf rt spec.idKey records id = some record →
    ∃ row, spec.Projects rt record row ∧
      g'.node ⟨spec.kind, id⟩ = (g.node ⟨spec.kind, id⟩).map (gatedWrite gate spec.fields now row)

variable {spec : EntitySpec} {tx tx' : Tx}

/-- One record per transaction writes its own node. -/
theorem enrichNode_nodeWrite {record : Dict} {matched : Option (String × Bool)}
    (h : enrichNode rt gate now spec record tx = .ok (tx', matched)) :
    NodeWrite rt gate now spec [record] tx.graph tx'.graph := by
  unfold enrichNode at h
  split at h
  · rename_i hid
    cases h
    exact ⟨rfl, fun _ _ => rfl, fun id r hr => by simp [lastOf_singleton, hid] at hr⟩
  · rename_i id hid
    obtain ⟨row, hrow, h⟩ := Except.bind_eq_ok.mp h
    obtain ⟨⟨g, results⟩, hg, h⟩ := Except.bind_eq_ok.mp h
    rw [Except.pure_eq_ok] at h
    cases h
    refine ⟨gatedCypher_rels hg, ?_, ?_⟩
    · intro k hk
      refine gatedCypher_node_frame hg ?_
      rintro _ hmem rfl
      rw [List.mem_singleton.mp hmem] at hk
      simp [lastOf_singleton, hid] at hk
    · intro id' r hr
      simp only [lastOf_singleton, hid, Option.some.injEq, Option.ite_none_right_eq_some] at hr
      obtain ⟨rfl, rfl⟩ := hr
      exact ⟨_, ⟨hrow, rfl⟩, gatedCypher_node hg (by simp) (List.mem_singleton.mpr rfl)⟩

/-- The answer names the node the record matched, and whether it was changed. -/
theorem enrichNode_matched {record : Dict} {matched : Option (String × Bool)}
    (h : enrichNode rt gate now spec record tx = .ok (tx', matched)) {id : String} {b : Bool} :
    matched = some (id, b) ↔ discogsId rt spec.idKey record = some id ∧ ∃ n row,
      tx.graph.node ⟨spec.kind, id⟩ = some n ∧ spec.Projects rt record row ∧
        changed gate n row.mbHash = b := by
  unfold enrichNode at h
  split at h
  · rename_i hid
    cases h
    simp [hid]
  · rename_i id' hid
    obtain ⟨row, hrow, h⟩ := Except.bind_eq_ok.mp h
    obtain ⟨⟨g, results⟩, hg, h⟩ := Except.bind_eq_ok.mp h
    rw [Except.pure_eq_ok] at h
    cases h
    have hproj : spec.Projects rt record
        ⟨0, id', row, payloadHash rt [.obj row, spec.extraHash record]⟩ := ⟨hrow, rfl⟩
    rw [gatedCypher_results hg]
    cases hnode : tx.graph.node ⟨spec.kind, id'⟩ with
    | none =>
      simp only [List.filterMap_cons, hnode, Option.map_none, List.filterMap_nil, List.head?_nil,
        reduceCtorEq, hid, Option.some.injEq, false_iff]
      rintro ⟨rfl, n, _, hn, _⟩
      rw [hnode] at hn
      cases hn
    | some n =>
      simp only [List.filterMap_cons, hnode, Option.map_some, List.filterMap_nil, List.head?_cons,
        recordOutcome, gatedResult, hid, Option.some.injEq, Prod.mk.injEq]
      constructor
      · rintro ⟨rfl, rfl⟩
        exact ⟨rfl, n, _, hnode, hproj, by split <;> simp_all⟩
      · rintro ⟨rfl, n', row', hn', hproj', rfl⟩
        cases hnode.symm.trans hn'
        rw [← (hproj.unique hproj').2]
        exact ⟨rfl, by split <;> simp_all⟩

/-- A batch writes the last record of every id. -/
theorem runEntityBatch_nodeWrite {relations : Bool} {records : List Dict} {outcomes : List Outcome}
    (h : runEntityBatch rt gate now spec relations records tx = .ok (tx', outcomes)) :
    NodeWrite rt gate now spec records tx.graph tx'.graph := by
  obtain ⟨rows, hrows, h⟩ := Except.bind_eq_ok.mp h
  obtain ⟨⟨g, results⟩, hg, h⟩ := Except.bind_eq_ok.mp h
  rw [Except.pure_eq_ok] at h
  cases h
  refine ⟨gatedCypher_rels hg, ?_, ?_⟩
  · intro k hk
    refine gatedCypher_node_frame hg ?_
    rintro row hrow rfl
    obtain ⟨record, hlast, _⟩ := exists_lastRecord_of_mem_entityRows hrows hrow
    have hnone := hk rfl
    rw [← lastRecord_map_fst, hlast] at hnone
    cases hnone
  · intro id record hlast
    rw [← lastRecord_map_fst] at hlast
    obtain ⟨⟨record', i⟩, hrec, rfl⟩ := Option.map_eq_some_iff.mp hlast
    obtain ⟨row, hrow, rfl, _, hproj⟩ := exists_mem_entityRows hrows hrec
    exact ⟨row, hproj, gatedCypher_node hg (nodup_entityRows_discogsId hrows) hrow⟩

namespace NodeWrite

variable {records : List Dict} {g g' : Graph}

/-- A write neither adds nor removes nodes. -/
theorem isSome_node (h : NodeWrite rt gate now spec records g g') (k : NodeKey) :
    (g'.node k).isSome = (g.node k).isSome := by
  by_cases hk : k.label = spec.kind
  · cases hlast : lastOf rt spec.idKey records k.id with
    | none => rw [h.frame k fun _ => hlast]
    | some record =>
      obtain ⟨row, _, hnode⟩ := h.written k.id record hlast
      rw [← hk] at hnode
      rw [hnode, Option.isSome_map]
  · rw [h.frame k fun hk' => absurd hk' hk]

end NodeWrite

/-! ## What a batch reports -/

/-- What the outcome `o` of the record `r` says about the graph `g` before the
batch. -/
structure OutcomeSpec (rt : Runtime) (gate : Bool) (spec : EntitySpec) (records : List Dict)
    (relations : Bool) (g : Graph) (r : Dict × Nat) (o : Outcome) : Prop where
  matched : o.matched = true ↔
    ∃ id, discogsId rt spec.idKey r.1 = some id ∧ (g.node ⟨spec.kind, id⟩).isSome
  changed : o.changed = true ↔
    ∃ id n row, lastRecord rt spec.idKey records id = some r ∧ g.node ⟨spec.kind, id⟩ = some n ∧
      spec.Projects rt r.1 row ∧ changed gate n row.mbHash
  stored : ∀ id n, discogsId rt spec.idKey r.1 = some id → g.node ⟨spec.kind, id⟩ = some n →
    relations → o.storedRelationsHash = n "mb_relations_hash"

/-- The result at the index of an id's last record is the one of that id's row. -/
theorem find?_results {records : List Dict} {rows : List EntityRow} {g g' : Graph}
    {results : List GatedResult} {id : String} {record : Dict} {i : Nat}
    (hrows : entityRows rt spec records = .ok rows)
    (hg : gatedCypher rt gate spec.kind spec.fields now rows g = .ok (g', results))
    (hlast : lastRecord rt spec.idKey records id = some (record, i)) :
    ∃ row, spec.Projects rt record row ∧ results.find? (·.idx = i) =
      (g.node ⟨spec.kind, id⟩).map fun n => ⟨i, changed gate n row.mbHash, n "mb_relations_hash"⟩ := by
  obtain ⟨row, hrow, rfl, hidx, hproj⟩ := exists_mem_entityRows hrows hlast
  refine ⟨row, hproj, ?_⟩
  have hres : ∀ res ∈ results, res.idx = i →
      ∃ n, g.node ⟨spec.kind, row.discogsId⟩ = some n ∧ gatedResult gate row n = res := by
    intro res hres hi
    obtain ⟨row', hrow', n, hn, rfl⟩ := (mem_gatedResults hg).mp hres
    have heq := List.inj_on_of_nodup_map (nodup_entityRows_idx hrows) hrow' hrow
      (hi.trans hidx.symm)
    subst heq
    exact ⟨n, hn, rfl⟩
  cases hnode : g.node ⟨spec.kind, row.discogsId⟩ with
  | none =>
    rw [Option.map_none, List.find?_eq_none]
    intro res hmem hi
    obtain ⟨n, hn, _⟩ := hres res hmem (by simpa using hi)
    rw [hnode] at hn
    cases hn
  | some n =>
    have hmem := (mem_gatedResults hg).mpr ⟨row, hrow, n, hnode, rfl⟩
    obtain ⟨res, hfind, hres'⟩ := OrderedDict.exists_find?_key GatedResult.idx hmem
    have hidx' : (gatedResult gate row n).idx = i := hidx
    rw [hidx'] at hfind hres'
    obtain ⟨n', hn', rfl⟩ := hres res (List.mem_of_find?_eq_some hfind) hres'
    rw [hnode] at hn'
    cases hn'
    rw [hfind, Option.map_some, gatedResult, hidx]

/-- The batch reports one outcome per record, and each is right. -/
theorem runEntityBatch_outcomes {relations : Bool} {records : List Dict} {outcomes : List Outcome}
    (h : runEntityBatch rt gate now spec relations records tx = .ok (tx', outcomes)) :
    ∃ outcome : Dict × Nat → Outcome, outcomes = records.zipIdx.map outcome ∧
      ∀ r ∈ records.zipIdx, OutcomeSpec rt gate spec records relations tx.graph r (outcome r) := by
  obtain ⟨rows, hrows, h⟩ := Except.bind_eq_ok.mp h
  obtain ⟨⟨g, results⟩, hg, h⟩ := Except.bind_eq_ok.mp h
  rw [Except.pure_eq_ok] at h
  cases h
  refine ⟨outcomeOf rt spec.idKey records relations results, rfl, fun r hr => ?_⟩
  cases hid : discogsId rt spec.idKey r.1 with
  | none =>
    have hnot : ∀ id, lastRecord rt spec.idKey records id ≠ some r := by
      intro id hlast
      have := (lastRecord_mem hlast).2
      rw [hid] at this
      cases this
    constructor <;> simp [outcomeOf, hid, hnot]
  | some id =>
    obtain ⟨⟨record, i⟩, hlast⟩ := exists_lastRecord hr hid
    obtain ⟨row, hproj, hfind⟩ := find?_results hrows hg hlast
    have hrep : (lastIndex rt spec.idKey records).lookup id = some i := by
      rw [lookup_lastIndex, hlast, Option.map_some]
    have hi : i = r.2 ↔ lastRecord rt spec.idKey records id = some r := by
      rw [hlast, Option.some.injEq]
      constructor
      · rintro rfl
        have hrec : record = r.1 :=
          (getD_of_mem_zipIdx (r := (record, r.2)) (lastRecord_mem hlast).1).symm.trans
            (getD_of_mem_zipIdx hr)
        rw [hrec]
      · rintro rfl; rfl
    have hchanged : ∀ id', lastRecord rt spec.idKey records id' = some r → id' = id := by
      intro id' hlast'
      have hid' := (lastRecord_mem hlast').2
      rw [hid, Option.some.injEq] at hid'
      exact hid'.symm
    cases hnode : tx.graph.node ⟨spec.kind, id⟩ with
    | none =>
      rw [hnode, Option.map_none] at hfind
      have ho : outcomeOf rt spec.idKey records relations results r = ⟨false, false, .null⟩ := by
        simp only [outcomeOf, hid, Option.bind_some, hrep, hfind]
      rw [ho]
      constructor
      · simp [hid, hnode]
      · simp only [Bool.false_eq_true, false_iff]
        rintro ⟨id', n, _, hlast', hn, _⟩
        rw [hchanged id' hlast', hnode] at hn
        cases hn
      · intro id' n hid' hn
        cases hid.symm.trans hid'
        rw [hnode] at hn
        cases hn
    | some n =>
      rw [hnode, Option.map_some] at hfind
      have ho : outcomeOf rt spec.idKey records relations results r =
          ⟨true, changed gate n row.mbHash && decide (i = r.2),
            if relations then n "mb_relations_hash" else .null⟩ := by
        simp only [outcomeOf, hid, Option.bind_some, hrep, hfind, Option.some.injEq]
      rw [ho]
      constructor
      · simp [hid, hnode]
      · simp only [Bool.and_eq_true, decide_eq_true_eq]
        constructor
        · rintro ⟨hc, heq⟩
          have hr' := hi.mp heq
          rw [hlast, Option.some.injEq] at hr'
          subst hr'
          exact ⟨id, n, row, hlast, hnode, hproj, hc⟩
        · rintro ⟨id', n', row', hlast', hn', hproj', hc⟩
          cases hchanged id' hlast'
          cases hnode.symm.trans hn'
          have heq := hi.mpr hlast'
          rw [hlast, Option.some.injEq] at hlast'
          subst hlast'
          exact ⟨by rw [(hproj.unique hproj').2]; exact hc, heq⟩
      · intro id' n' hid' hn' hrel
        cases hid.symm.trans hid'
        cases hnode.symm.trans hn'
        simp [hrel]

/-- Every record paired with its outcome, in order. -/
theorem zip_map_zipIdx {records : List Dict} (outcome : Dict × Nat → Outcome) :
    records.zip (records.zipIdx.map outcome) = records.zipIdx.map fun r => (r.1, outcome r) := by
  have hfst : records.zipIdx.map Prod.fst = records := List.zipIdx_map_fst 0 records
  calc records.zip (records.zipIdx.map outcome)
      = (records.zipIdx.map Prod.fst).zip (records.zipIdx.map outcome) := by rw [hfst]
    _ = records.zipIdx.map fun r => (r.1, outcome r) := List.zip_map'

/-- Numbering the pairs numbers the records. -/
theorem zipIdx_zip_zipIdx {records : List Dict} (outcome : Dict × Nat → Outcome) :
    (records.zip (records.zipIdx.map outcome)).zipIdx =
      records.zipIdx.map fun r => ((r.1, outcome r), r.2) := by
  rw [zip_map_zipIdx]
  suffices h : ∀ k, ((records.zipIdx k).map fun r => (r.1, outcome r)).zipIdx k =
      (records.zipIdx k).map fun r => ((r.1, outcome r), r.2) from h 0
  induction records with
  | nil => exact fun _ => rfl
  | cons record records ih =>
    intro k
    simp only [List.zipIdx_cons, List.map_cons, ih (k + 1)]

end Brainzgraphinator
