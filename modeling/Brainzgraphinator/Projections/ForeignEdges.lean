-- SUMMARY: What the artist projections do to the edges of other sources between artists.
import Brainzgraphinator.Projections.RelationsGate

/-!
# Edges of other sources

The relationship MERGE names no source, so it matches an edge another service
wrote between the same artists and stamps it as its own. `Merges` follows which
edges of other sources are left by a list of merges; none is lost exactly when no
merged relation has one of them as its parallel (`artistWrites_keepForeign_iff`).
-/

namespace Brainzgraphinator

variable {rt : Runtime}

/-- An edge between artists that this service did not write. -/
def isForeign (e : Edge) : Bool :=
  e.src.label = .artist ∧ e.dst.label = .artist ∧ e.props "source" ≠ .str mediaSource

/-- The edges of other sources are as before, and whatever was added or changed is
a musicbrainz edge. -/
structure KeepsForeign (g g' : Graph) : Prop where
  foreign : g'.rels.filter isForeign = g.rels.filter isForeign
  own : ∀ e ∈ g'.rels, e ∈ g.rels ∨ e.props "source" = .str mediaSource

/-- Some supported relation of the record has the type and the ends of the edge. -/
def Overlaps (rt : Runtime) (record : Dict) (e : Edge) : Prop :=
  ∃ relation ∈ (recordRelations record).elems, ∃ type row,
    supported rt (ownerText rt record) relation = some (type, some row) ∧
      sameRelation type row e = true

/-- The artist of the record is in the graph. -/
def HasArtist (rt : Runtime) (g : Graph) (record : Dict) : Prop :=
  ∃ id, discogsId rt "discogs_artist_id" record = some id ∧ (g.node (artistKey id)).isSome

/-- `enrich_artist` on the records one by one; `clock` is the time of each write. -/
def enrichArtistsInOrder (rt : Runtime) (gate : Bool) (clock : Nat → Json) (records : List Dict)
    (tx : Tx) : Except Failure Tx :=
  records.zipIdx.foldlM (fun tx r => enrichArtist rt gate (clock r.2) r.1 tx) tx

/-! ## Merging -/

/-- An edge of the type and the ends of one of the rows. -/
def parallelTo (merges : List (RelType × RelationRow)) (e : Edge) : Bool :=
  merges.any fun m => sameRelation m.1 m.2 e

/-- `g'` is `g` after the merges, as far as the edges of other sources go. -/
structure Merges (merges : List (RelType × RelationRow)) (g g' : Graph) : Prop where
  isSome_node : ∀ k, (g'.node k).isSome = (g.node k).isSome
  foreign : g'.rels.filter isForeign = (g.rels.filter isForeign).filter fun e => !parallelTo merges e
  own : ∀ e ∈ g'.rels, e ∈ g.rels ∨ e.props "source" = .str mediaSource

theorem Merges.of_rels_eq {g g' : Graph} (hnode : ∀ k, (g'.node k).isSome = (g.node k).isSome)
    (hrels : g'.rels = g.rels) : Merges [] g g' := by
  refine ⟨hnode, ?_, fun e he => .inl (hrels ▸ he)⟩
  rw [hrels]
  exact (List.filter_eq_self.mpr fun _ _ => rfl).symm

theorem Merges.trans {ms ms' : List (RelType × RelationRow)} {g g₁ g' : Graph}
    (h : Merges ms g g₁) (h' : Merges ms' g₁ g') : Merges (ms ++ ms') g g' := by
  refine ⟨fun k => (h'.isSome_node k).trans (h.isSome_node k), ?_, fun e he => ?_⟩
  · rw [h'.foreign, h.foreign, List.filter_filter]
    congr 1
    funext e
    rw [parallelTo, parallelTo, parallelTo, List.any_append, Bool.not_or, Bool.and_comm]
  · rcases h'.own e he with he | he
    · exact h.own e he
    · exact .inr he

/-- One merge claims every edge of its type between its two artists. -/
theorem merges_mergeRelation (type : RelType) (row : RelationRow) (g : Graph) :
    Merges [(type, row)] g (mergeRelation type g row) := by
  have hone : ∀ e, parallelTo [(type, row)] e = sameRelation type row e := by
    intro e
    simp [parallelTo]
  refine ⟨fun k => by rw [node_mergeRelation], ?_, ?_⟩
  · simp only [hone]
    by_cases hb : bothSides g row = true
    · rw [rels_mergeRelation hb]
      split
      · induction g.rels with
        | nil => rfl
        | cons e es ih =>
          by_cases hsame : sameRelation type row e = true
          · rw [List.map_cons, if_pos hsame, List.filter_cons_of_neg (by simp [isForeign]), ih]
            by_cases hf : isForeign e = true
            · rw [List.filter_cons_of_pos hf, List.filter_cons_of_neg (by simp [hsame])]
            · rw [List.filter_cons_of_neg hf]
          · rw [List.map_cons, if_neg hsame]
            by_cases hf : isForeign e = true
            · rw [List.filter_cons_of_pos hf, List.filter_cons_of_pos hf,
                List.filter_cons_of_pos (by simp [hsame]), ih]
            · rw [List.filter_cons_of_neg hf, List.filter_cons_of_neg hf, ih]
      · rename_i hany
        have hnone : ∀ e ∈ g.rels.filter isForeign, (!sameRelation type row e) = true := by
          intro e he
          rw [Bool.not_eq_true']
          exact Bool.eq_false_iff.mpr fun hsame =>
            hany (List.any_eq_true.mpr ⟨e, List.mem_of_mem_filter he, hsame⟩)
        rw [List.filter_append, List.filter_eq_self.mpr hnone]
        simp [isForeign]
    · -- An edge of the row would have both of its artists.
      rw [mergeRelation_of_not_bothSides hb]
      refine (List.filter_eq_self.mpr fun e he => ?_).symm
      rw [Bool.not_eq_true']
      refine Bool.eq_false_iff.mpr fun hsame => hb ?_
      obtain ⟨_, hsrc, hdst⟩ := sameRelation_iff.mp hsame
      obtain ⟨hs, hd⟩ := g.closed e (List.mem_of_mem_filter he)
      rw [bothSides, ← hsrc, ← hdst, hs, hd]
      rfl
  · intro e he
    by_cases hb : bothSides g row = true
    · rw [rels_mergeRelation hb] at he
      split at he
      · obtain ⟨e₀, he₀, rfl⟩ := List.mem_map.mp he
        split
        · exact .inr (by simp)
        · exact .inl he₀
      · rcases List.mem_append.mp he with he | he
        · exact .inl he
        · rw [List.mem_singleton.mp he]
          exact .inr (Function.update_self "source" (Json.str mediaSource) noProps)
    · rw [mergeRelation_of_not_bothSides hb] at he
      exact .inl he

theorem merges_mergeAll (merges : List (RelType × RelationRow)) (g : Graph) :
    Merges merges g (mergeAll merges g) := by
  induction merges generalizing g with
  | nil => exact .of_rels_eq (fun _ => rfl) rfl
  | cons m merges ih => exact (merges_mergeRelation m.1 m.2 g).trans (ih (mergeRelation m.1 g m.2))

/-- The edges of other sources stay exactly when none is parallel to a merge. -/
theorem Merges.keepsForeign_iff {merges : List (RelType × RelationRow)} {g g' : Graph}
    (h : Merges merges g g') :
    KeepsForeign g g' ↔ ∀ e ∈ g.rels, isForeign e = true →
      ∀ m ∈ merges, sameRelation m.1 m.2 e = false := by
  have hfilter : KeepsForeign g g' ↔
      (g.rels.filter isForeign).filter (fun e => !parallelTo merges e) =
        g.rels.filter isForeign :=
    ⟨fun hkeeps => h.foreign.symm.trans hkeeps.foreign, fun heq => ⟨h.foreign.trans heq, h.own⟩⟩
  rw [hfilter, List.filter_eq_self]
  simp only [List.mem_filter, and_imp, parallelTo, Bool.not_eq_true', List.any_eq_false,
    Bool.not_eq_true]

/-! ## The projections merge -/

variable {gate : Bool} {now : Json}

/-- The rows a record merges on the graph. -/
def MergedBy (rt : Runtime) (record : Dict) (m : RelType × RelationRow) : Prop :=
  ∃ relation ∈ (recordRelations record).elems,
    supported rt (ownerText rt record) relation = some (m.1, some m.2)

theorem enrichArtist_foreign {record : Dict} {tx tx' : Tx}
    (h : enrichArtist rt gate now record tx = .ok tx') :
    ∃ merges, Merges merges tx.graph tx'.graph ∧
      ∀ m, m ∈ merges ↔ HasArtist rt tx.graph record ∧ MergedBy rt record m := by
  obtain ⟨g₁, merges, hwrite, hgraph, hmerges⟩ := enrichArtist_merges h
  refine ⟨merges, ?_, hmerges⟩
  rw [hgraph]
  exact (Merges.of_rels_eq hwrite.isSome_node hwrite.rels).trans (merges_mergeAll merges g₁)

theorem enrichArtistsInOrder_foreign {clock : Nat → Json} {records : List Dict} {tx tx' : Tx}
    (h : enrichArtistsInOrder rt gate clock records tx = .ok tx') :
    ∃ merges, Merges merges tx.graph tx'.graph ∧
      ∀ m, m ∈ merges ↔ ∃ record ∈ records, HasArtist rt tx.graph record ∧ MergedBy rt record m := by
  unfold enrichArtistsInOrder at h
  induction records using List.reverseRecOn generalizing tx' with
  | nil =>
    cases Except.pure_eq_ok.mp h
    exact ⟨[], .of_rels_eq (fun _ => rfl) rfl, by simp⟩
  | append_singleton records record ih =>
    rw [List.zipIdx_append, List.foldlM_append] at h
    obtain ⟨tx₁, hprefix, h⟩ := Except.bind_eq_ok.mp h
    rw [List.zipIdx_singleton, List.foldlM_cons] at h
    obtain ⟨tx₂, hlast, h⟩ := Except.bind_eq_ok.mp h
    cases Except.pure_eq_ok.mp h
    obtain ⟨merges, hmerges, hmem⟩ := ih hprefix
    obtain ⟨merges', hmerges', hmem'⟩ := enrichArtist_foreign hlast
    refine ⟨merges ++ merges', hmerges.trans hmerges', fun m => ?_⟩
    simp only [List.mem_append, hmem, hmem', HasArtist, hmerges.isSome_node, List.mem_singleton,
      or_and_right, exists_or, exists_eq_left]

theorem enrichArtistsBatch_foreign {records : List Dict} {tx tx' : Tx} {flags : List Bool}
    (h : enrichArtistsBatch rt gate now records tx = .ok (tx', flags)) :
    ∃ merges, Merges merges tx.graph tx'.graph ∧
      ∀ m, m ∈ merges ↔ ∃ r, Selects rt gate records tx.graph r ∧ MergedBy rt r.1 m := by
  obtain ⟨tx₁, sel, w, hwrite, hsel, _, hinj, hw, hproject⟩ := enrichArtistsBatch_phases h
  obtain ⟨merges, hmem, hrels⟩ := projectRelations_merges hw hinj hproject
  obtain ⟨g₁, hwrite₁, hphase⟩ := enrichArtistsBatch_spec h
  have hmerges := (Merges.of_rels_eq hwrite.isSome_node hwrite.rels).trans
    (merges_mergeAll merges tx₁.graph)
  refine ⟨merges, ⟨fun k => ?_, ?_, ?_⟩, fun m => ?_⟩
  · rw [hphase.isSome_node, hwrite₁.isSome_node]
  · rw [hrels]
    exact hmerges.foreign
  · rw [hrels]
    exact hmerges.own
  · rw [hmem]
    simp only [hsel, MergedBy]

/-- Merged rows are parallel to an edge exactly when their record overlaps it. -/
theorem overlaps_iff {record : Dict} {e : Edge} :
    Overlaps rt record e ↔ ∃ m, MergedBy rt record m ∧ sameRelation m.1 m.2 e = true := by
  constructor
  · rintro ⟨relation, hrel, type, row, hs, hsame⟩
    exact ⟨(type, row), ⟨relation, hrel, hs⟩, hsame⟩
  · rintro ⟨m, ⟨relation, hrel, hs⟩, hsame⟩
    exact ⟨relation, hrel, m.1, m.2, hs, hsame⟩

/-! ## When an edge of another source survives -/

/-- Merges of the records `P` selects keep the edges of other sources exactly when
none of these records overlaps one. -/
theorem Merges.keepsForeign_iff_overlaps {ι : Type} {P : ι → Prop} {record : ι → Dict}
    {merges : List (RelType × RelationRow)} {g g' : Graph} (h : Merges merges g g')
    (hmem : ∀ m, m ∈ merges ↔ ∃ i, P i ∧ MergedBy rt (record i) m) :
    KeepsForeign g g' ↔ ∀ i, P i → ∀ e ∈ g.rels, isForeign e = true → ¬ Overlaps rt (record i) e := by
  rw [h.keepsForeign_iff]
  constructor
  · intro hkeeps i hi e he hf hover
    obtain ⟨m, hm, hsame⟩ := overlaps_iff.mp hover
    rw [hkeeps e he hf m ((hmem m).mpr ⟨i, hi, hm⟩)] at hsame
    cases hsame
  · intro hkeeps e he hf m hm
    obtain ⟨i, hi, hmerged⟩ := (hmem m).mp hm
    apply Bool.eq_false_iff.mpr
    intro hsame
    exact hkeeps i hi e he hf (overlaps_iff.mpr ⟨m, hmerged, hsame⟩)

/-- Artist writes keep the edges of other sources exactly when no record they
project overlaps one: a record whose artist exists (one by one), or a selected
record (in a batch). -/
theorem artistWrites_keepForeign_iff (rt : Runtime) (gate : Bool) (records : List Dict) (tx : Tx) :
    (∀ (clock : Nat → Json) (tx' : Tx), enrichArtistsInOrder rt gate clock records tx = .ok tx' →
      (KeepsForeign tx.graph tx'.graph ↔ ∀ record, record ∈ records ∧ HasArtist rt tx.graph record →
        ∀ e ∈ tx.graph.rels, isForeign e = true → ¬ Overlaps rt record e)) ∧
    ∀ (now : Json) (tx' : Tx) (flags : List Bool),
      enrichArtistsBatch rt gate now records tx = .ok (tx', flags) →
      (KeepsForeign tx.graph tx'.graph ↔ ∀ r, Selects rt gate records tx.graph r →
        ∀ e ∈ tx.graph.rels, isForeign e = true → ¬ Overlaps rt r.1 e) := by
  constructor
  · intro clock tx' h
    obtain ⟨merges, hmerges, hmem⟩ := enrichArtistsInOrder_foreign h
    have hmem' : ∀ m, m ∈ merges ↔
        ∃ record, (record ∈ records ∧ HasArtist rt tx.graph record) ∧ MergedBy rt (id record) m :=
      fun m => by simpa [and_assoc] using hmem m
    exact hmerges.keepsForeign_iff_overlaps hmem'
  · intro now tx' flags h
    obtain ⟨merges, hmerges, hmem⟩ := enrichArtistsBatch_foreign h
    exact hmerges.keepsForeign_iff_overlaps hmem

/-! ## A membership two sources assert -/

/-- `x` is a member of `y` according to another source. -/
def discogsMember : Graph where
  node k := if k = artistKey "x" ∨ k = artistKey "y" then some noProps else none
  rels := [⟨.memberOf, artistKey "x", artistKey "y",
    Function.update noProps "source" (.str "discogs")⟩]
  closed := by simp

theorem enrichArtistsInOrder_discogsMember : ∃ tx,
    enrichArtistsInOrder plainRuntime true (fun _ => .null) [memberRecord "x" ["y"]]
        ⟨discogsMember, {}⟩ = .ok tx ∧
      (tx.graph.rels.filter isForeign).length = 0 :=
  Except.exists_eq_ok (by decide +kernel)

theorem enrichArtistsBatch_discogsMember : ∃ r,
    enrichArtistsBatch plainRuntime true .null [memberRecord "x" ["y"]] ⟨discogsMember, {}⟩ = .ok r ∧
      (r.1.graph.rels.filter isForeign).length = 0 :=
  Except.exists_eq_ok (by decide +kernel)

/-- Both paths on a membership two sources assert. -/
theorem artistWrites_keepForeign_iff_discogsMember :
    (∃ tx, enrichArtistsInOrder plainRuntime true (fun _ => .null) [memberRecord "x" ["y"]]
        ⟨discogsMember, {}⟩ = .ok tx ∧
      (KeepsForeign discogsMember tx.graph ↔ ∀ record, record ∈ [memberRecord "x" ["y"]] ∧
        HasArtist plainRuntime discogsMember record →
        ∀ e ∈ discogsMember.rels, isForeign e = true → ¬ Overlaps plainRuntime record e)) ∧
    ∃ tx flags, enrichArtistsBatch plainRuntime true .null [memberRecord "x" ["y"]]
        ⟨discogsMember, {}⟩ = .ok (tx, flags) ∧
      (KeepsForeign discogsMember tx.graph ↔
        ∀ r, Selects plainRuntime true [memberRecord "x" ["y"]] discogsMember r →
        ∀ e ∈ discogsMember.rels, isForeign e = true → ¬ Overlaps plainRuntime r.1 e) := by
  obtain ⟨tx, hseq, _⟩ := enrichArtistsInOrder_discogsMember
  obtain ⟨⟨tx', flags⟩, hbatch, _⟩ := enrichArtistsBatch_discogsMember
  obtain ⟨hiff, hbatchIff⟩ :=
    artistWrites_keepForeign_iff plainRuntime true [memberRecord "x" ["y"]] ⟨discogsMember, {}⟩
  exact ⟨⟨tx, hseq, hiff _ _ hseq⟩, tx', flags, hbatch, hbatchIff _ _ _ hbatch⟩

/-- Either path takes over the edge another source wrote. -/
theorem artistWrites_overwrite_foreign :
    (¬ ∀ (rt : Runtime) (gate : Bool) (clock : Nat → Json) (records : List Dict) (tx tx' : Tx),
      enrichArtistsInOrder rt gate clock records tx = .ok tx' → KeepsForeign tx.graph tx'.graph) ∧
    ¬ ∀ (rt : Runtime) (gate : Bool) (now : Json) (records : List Dict) (tx tx' : Tx)
      (flags : List Bool), enrichArtistsBatch rt gate now records tx = .ok (tx', flags) →
      KeepsForeign tx.graph tx'.graph := by
  have hbefore : (discogsMember.rels.filter isForeign).length = 1 := by decide +kernel
  constructor
  · intro h
    obtain ⟨tx, hseq, hnone⟩ := enrichArtistsInOrder_discogsMember
    have hkeeps := congrArg List.length (h _ _ _ _ _ _ hseq).foreign
    rw [hnone, hbefore] at hkeeps
    cases hkeeps
  · intro h
    obtain ⟨⟨tx, flags⟩, hbatch, hnone⟩ := enrichArtistsBatch_discogsMember
    have hkeeps := congrArg List.length (h _ _ _ _ _ _ _ hbatch).foreign
    rw [hnone, hbefore] at hkeeps
    cases hkeeps

end Brainzgraphinator
