-- SUMMARY: Relations a merge would not change, and why a stored relations digest names only such relations.
import Brainzgraphinator.Projections.EntityWrites
import Brainzgraphinator.Projections.RelationsGate

/-!
# Settled relations

A relation is settled when its edge is there and every edge of its type between
its artists, in its direction, is a musicbrainz one: merging it again changes
nothing. Merging settles a relation for good, and in a graph only this service
writes to (`ServiceHistory`) the relations a stored digest stands for are settled
wherever both artists exist.
-/

namespace Brainzgraphinator

variable {rt : Runtime}

/-! ## Merging what is settled -/

def Settled (g : Graph) (type : RelType) (row : RelationRow) : Prop :=
  HasEdge g type row ∧
    ∀ e ∈ g.rels, sameRelation type row e = true → e.props "source" = .str mediaSource

section Merge

variable {type type' : RelType} {row row' : RelationRow} {g g' : Graph}

theorem sameRelation_congr (h : SameEnds row row') (e : Edge) :
    sameRelation type row e = sameRelation type row' e := by
  simp only [sameRelation, h.1, h.2]

theorem Settled.congr (h : SameEnds row row') (hs : Settled g type row) : Settled g type row' := by
  refine ⟨hs.1.congr h, fun e he hsame => hs.2 e he ?_⟩
  rw [sameRelation_congr h]
  exact hsame

theorem HasEdge.bothSides (h : HasEdge g type row) : bothSides g row = true := by
  obtain ⟨e, he, hsame, _⟩ := h
  obtain ⟨_, hsrc, hdst⟩ := sameRelation_iff.mp hsame
  obtain ⟨hs, hd⟩ := g.closed e he
  rw [Brainzgraphinator.bothSides, ← hsrc, ← hdst, hs, hd]
  rfl

/-- Whether a relation is settled depends on its own edges only. -/
theorem settled_congr (h : ∀ e, sameRelation type row e = true → (e ∈ g'.rels ↔ e ∈ g.rels)) :
    Settled g' type row ↔ Settled g type row := by
  constructor
  · rintro ⟨⟨e, he, hsame, hsource⟩, hall⟩
    exact ⟨⟨e, (h e hsame).mp he, hsame, hsource⟩, fun e he hs => hall e ((h e hs).mpr he) hs⟩
  · rintro ⟨⟨e, he, hsame, hsource⟩, hall⟩
    exact ⟨⟨e, (h e hsame).mpr he, hsame, hsource⟩, fun e he hs => hall e ((h e hs).mp he) hs⟩

/-- Merging a settled relation changes nothing. -/
theorem Settled.mergeRelation_eq (h : Settled g type row) : mergeRelation type g row = g := by
  apply PropertyGraph.Graph.ext
  · exact node_mergeRelation type g row
  · obtain ⟨e, he, hsame, _⟩ := h.1
    rw [rels_mergeRelation h.1.bothSides, if_pos (List.any_eq_true.mpr ⟨e, he, hsame⟩)]
    refine (List.map_congr_left fun e he => ?_).trans (List.map_id _)
    split
    · rename_i hmatch
      obtain ⟨etype, src, dst, props⟩ := e
      have hprops : props "source" = .str mediaSource := h.2 _ he hmatch
      simp only [PropertyGraph.Rel.setProps, id, ← hprops, Function.update_eq_self]
    · rfl

/-- Merging a relation between existing artists settles it. -/
theorem settled_mergeRelation_self (hb : bothSides g row = true) :
    Settled (mergeRelation type g row) type row := by
  refine ⟨hasEdge_mergeRelation_self hb, fun e he hsame => ?_⟩
  rw [rels_mergeRelation hb] at he
  split at he
  · obtain ⟨e₀, _, rfl⟩ := List.mem_map.mp he
    split at hsame
    · rename_i h₀
      rw [if_pos h₀]
      exact Function.update_self "source" (Json.str mediaSource) e₀.props
    · rename_i h₀
      exact absurd hsame h₀
  · rename_i hany
    rcases List.mem_append.mp he with he | he
    · exact absurd (List.any_eq_true.mpr ⟨e, he, hsame⟩) hany
    · rw [List.mem_singleton.mp he]
      exact Function.update_self "source" (Json.str mediaSource) noProps

/-- A merge touches the edges of its own type and ends only. -/
theorem mem_rels_mergeRelation_of_ne (hne : ¬ (type = type' ∧ SameEnds row row')) {e : Edge}
    (hsame : sameRelation type' row' e = true) :
    e ∈ (mergeRelation type g row).rels ↔ e ∈ g.rels := by
  have hother : sameRelation type row e ≠ true := fun h => hne (sameRelation_unique h hsame)
  by_cases hb : bothSides g row = true
  · rw [rels_mergeRelation hb]
    split
    · rw [List.mem_map]
      constructor
      · rintro ⟨e₀, he₀, rfl⟩
        split at hother
        · rename_i h₀
          exact absurd (by rwa [sameRelation_setProps]) hother
        · rename_i h₀
          rw [if_neg h₀]
          exact he₀
      · exact fun he => ⟨e, he, if_neg hother⟩
    · rw [List.mem_append, List.mem_singleton]
      refine ⟨fun h => h.resolve_right ?_, .inl⟩
      rintro rfl
      exact hother (sameRelation_iff.mpr ⟨rfl, rfl, rfl⟩)
  · rw [mergeRelation_of_not_bothSides hb]

theorem Settled.mergeRelation (h : Settled g type' row') :
    Settled (mergeRelation type g row) type' row' := by
  by_cases heq : type = type' ∧ SameEnds row row'
  · obtain ⟨rfl, hends⟩ := heq
    have hb : bothSides g row = true := by
      have hb' := h.1.bothSides
      rwa [Brainzgraphinator.bothSides, ← hends.1, ← hends.2] at hb'
    exact (settled_mergeRelation_self hb).congr hends
  · exact (settled_congr fun e => mem_rels_mergeRelation_of_ne heq).mpr h

/-! ## Merging many -/

variable {merges : List (RelType × RelationRow)}

theorem Settled.mergeAll (h : Settled g type row) : Settled (mergeAll merges g) type row := by
  unfold Brainzgraphinator.mergeAll
  induction merges generalizing g with
  | nil => exact h
  | cons m merges ih => exact ih h.mergeRelation

/-- What the merges leave settled: what was before, and their own relations. -/
theorem settled_mergeAll_iff : Settled (mergeAll merges g) type row ↔ Settled g type row ∨
    ∃ m ∈ merges, m.1 = type ∧ SameEnds m.2 row ∧ bothSides g m.2 = true := by
  induction merges generalizing g with
  | nil => simp [mergeAll]
  | cons m merges ih =>
    have hstep : mergeAll (m :: merges) g = mergeAll merges (mergeRelation m.1 g m.2) := rfl
    rw [hstep, ih]
    simp only [bothSides_mergeRelation, List.mem_cons, exists_eq_or_imp]
    constructor
    · rintro (h | h)
      · by_cases heq : m.1 = type ∧ SameEnds m.2 row
        · refine .inr (.inl ⟨heq.1, heq.2, ?_⟩)
          have hb := h.1.bothSides
          rw [bothSides_mergeRelation] at hb
          rwa [bothSides, heq.2.1, heq.2.2]
        · exact .inl ((settled_congr fun e => mem_rels_mergeRelation_of_ne heq).mp h)
      · exact .inr (.inr h)
    · rintro (h | ⟨rfl, hends, hb⟩ | h)
      · exact .inl h.mergeRelation
      · exact .inl ((settled_mergeRelation_self hb).congr hends)
      · exact .inr h

/-- Merging settled relations, and such without their artists, changes nothing. -/
theorem mergeAll_eq_self
    (h : ∀ m ∈ merges, bothSides g m.2 = true → Settled g m.1 m.2) : mergeAll merges g = g := by
  unfold mergeAll
  induction merges with
  | nil => rfl
  | cons m merges ih =>
    have hone : mergeRelation m.1 g m.2 = g := by
      by_cases hb : bothSides g m.2 = true
      · exact (h m List.mem_cons_self hb).mergeRelation_eq
      · exact mergeRelation_of_not_bothSides hb
    rw [List.foldl_cons, hone]
    exact ih fun m' hm' => h m' (List.mem_cons_of_mem _ hm')

end Merge

/-! ## Histories of this service -/

/-- A graph without MusicBrainz data. -/
structure NoServiceData (rt : Runtime) (g : Graph) : Prop where
  props : ∀ t id n, g.node ⟨(EntityType.spec rt t).kind, id⟩ = some n →
    ∀ key ∈ t.props rt, n key = .null
  edges : ∀ e ∈ g.rels, e.props "source" ≠ .str mediaSource

/-- The graphs committed writes of this service alone can lead to. -/
inductive ServiceHistory (rt : Runtime) : Graph → Prop
  | start {g : Graph} : NoServiceData rt g → ServiceHistory rt g
  | processor {gate : Bool} {now : Json} {t : EntityType} {record : Dict} {tx tx' : Tx} :
      ServiceHistory rt tx.graph → processors rt gate now t record tx = .ok tx' →
      ServiceHistory rt tx'.graph
  | batch {gate : Bool} {now : Json} {t : EntityType} {records : List Dict} {tx tx' : Tx}
      {flags : List Bool} : ServiceHistory rt tx.graph →
      batchProjections rt gate now t records tx = .ok (tx', flags) → ServiceHistory rt tx'.graph

/-- Every stored relations digest is that of relations that are settled wherever
both artists exist. -/
def DigestsSettled (rt : Runtime) (g : Graph) : Prop :=
  ∀ id n relations, g.node (artistKey id) = some n →
    n "mb_relations_hash" = payloadHash rt [relations] → ∀ relation ∈ relations.elems, ∀ type row,
      supported rt id relation = some (type, some row) → bothSides g row = true → Settled g type row

/-- A write keeps the artists and every settled relation. -/
structure KeepsSettled (g g' : Graph) : Prop where
  artists : ∀ id, (g'.node (artistKey id)).isSome = (g.node (artistKey id)).isSome
  settled : ∀ type ∈ mbRelationshipMap.map Prod.snd, ∀ row, Settled g type row → Settled g' type row

theorem KeepsSettled.bothSides {g g' : Graph} (h : KeepsSettled g g') (row : RelationRow) :
    bothSides g' row = bothSides g row := by
  simp only [Brainzgraphinator.bothSides, h.artists]

theorem supported_type {owner : String} {relation : Json} {type : RelType}
    {row : Option RelationRow} (h : supported rt owner relation = some (type, row)) :
    type ∈ mbRelationshipMap.map Prod.snd := by
  cases hr : relationRow rt owner relation with
  | error e => rw [supported, hr] at h; cases h
  | ok r =>
    rw [supported_of_eq_ok hr] at h
    subst h
    obtain ⟨fields, _, hr⟩ := Except.bind_eq_ok.mp hr
    obtain ⟨t, ht, hr⟩ := Except.bind_eq_ok.mp hr
    cases t with
    | none => cases Except.pure_eq_ok.mp hr
    | some t =>
      have hmem : t ∈ mbRelationshipMap.map Prod.snd := by
        unfold edgeType at ht
        split at ht
        · rename_i name _
          have hlookup : mbRelationshipMap.lookup name = some t := Except.ok.inj ht
          have hkeys : (mbRelationshipMap.map Prod.fst).Nodup := by decide
          exact List.mem_map.mpr ⟨_, (OrderedDict.lookup_eq_some_iff hkeys).mp hlookup, rfl⟩
        · cases ht
        · cases ht
        · cases ht
      dsimp only at hr
      split at hr
      · cases Except.pure_eq_ok.mp hr
        exact hmem
      · split at hr
        · cases Except.pure_eq_ok.mp hr
          exact hmem
        · cases Except.pure_eq_ok.mp hr
          exact hmem

section Steps

variable {gate : Bool} {now : Json} {t : EntityType} {records : List Dict} {g g₁ g' : Graph}

theorem EntityType.fixes_artist (t : EntityType) (id : String) : t.Fixes (artistKey id).label :=
  fun _ => ⟨by simp [artistKey], by simp [artistKey]⟩

theorem EntityWrite.artists (h : EntityWrite rt gate now t records g g') (id : String) :
    (g'.node (artistKey id)).isSome = (g.node (artistKey id)).isSome :=
  h.isSome_node (t.fixes_artist id)

/-- Only artist writes touch artists. -/
theorem EntityWrite.node_artist (h : EntityWrite rt gate now t records g g') (ht : t ≠ .artists)
    (id : String) : g'.node (artistKey id) = g.node (artistKey id) := by
  refine h.frame (t.fixes_artist id) ?_
  cases t with
  | artists => exact absurd rfl ht
  | labels => simp [artistKey, EntityType.spec, labelSpec]
  | releaseGroups => simp [artistKey, EntityType.spec, releaseGroupSpec]
  | releases => simp [artistKey, EntityType.spec, releaseSpec]

/-- Release writes leave the edges between artists alone. -/
theorem MediaEffect.keeps_settled {summaries : List SummaryRow} {items : List ReleaseItem}
    (h : MediaEffect summaries items g g') {type : RelType}
    (htype : type ∈ mbRelationshipMap.map Prod.snd) {row : RelationRow}
    (hs : Settled g type row) : Settled g' type row := by
  have hfamily : type ≠ .inFamily := by
    rintro rfl
    exact absurd htype (by decide)
  have hfilter := h.others (sameRelation type row) fun e hsame => by
    obtain ⟨rfl, hsrc, _⟩ := sameRelation_iff.mp hsame
    refine ⟨hfamily, fun id m => ?_⟩
    simp [mbIssued, hsrc, artistKey, releaseKey]
  refine (settled_congr fun e hsame => ?_).mpr hs
  have hmem : ∀ rels : List Edge, e ∈ rels ↔ e ∈ rels.filter (sameRelation type row) := by
    simp [List.mem_filter, hsame]
  rw [hmem, hfilter, ← hmem]

theorem keepsSettled_of_rels_eq (hartists : ∀ id, (g'.node (artistKey id)).isSome =
    (g.node (artistKey id)).isSome) (hrels : g'.rels = g.rels) : KeepsSettled g g' :=
  ⟨hartists, fun _ _ _ hs => (settled_congr fun _ _ => by rw [hrels]).mpr hs⟩

theorem keepsSettled_of_merges (hartists : ∀ id, (g'.node (artistKey id)).isSome =
    (g.node (artistKey id)).isSome) {merges : List (RelType × RelationRow)} (hrels : g₁.rels = g.rels)
    (hmerge : g'.rels = (mergeAll merges g₁).rels) : KeepsSettled g g' := by
  refine ⟨hartists, fun type _ row hs => ?_⟩
  have hs₁ : Settled g₁ type row := (settled_congr fun _ _ => by rw [hrels]).mpr hs
  exact (settled_congr fun _ _ => by rw [hmerge]).mpr hs₁.mergeAll

theorem ReleaseWrite.keepsSettled (h : ReleaseWrite rt gate now records g g')
    (hartists : ∀ id, (g'.node (artistKey id)).isSome = (g.node (artistKey id)).isSome) :
    KeepsSettled g g' := by
  obtain ⟨g₁, _, _, hwrite, _, heffect⟩ := h.effect
  refine ⟨hartists, fun type htype row hs => heffect.keeps_settled htype ?_⟩
  exact (settled_congr fun _ _ => by rw [hwrite.rels]).mpr hs

theorem processors_keepsSettled {record : Dict} {tx tx' : Tx}
    (h : processors rt gate now t record tx = .ok tx') : KeepsSettled tx.graph tx'.graph := by
  have hartists := (processors_entityWrite h).artists
  cases t with
  | artists =>
    obtain ⟨g₁, merges, hwrite, hgraph, _⟩ := enrichArtist_merges h
    exact keepsSettled_of_merges hartists hwrite.rels (congrArg _ hgraph)
  | labels =>
    obtain ⟨⟨tx₁, _⟩, hnode, h⟩ := Except.bind_eq_ok.mp h
    cases Except.pure_eq_ok.mp h
    exact keepsSettled_of_rels_eq hartists (enrichNode_nodeWrite hnode).rels
  | releaseGroups =>
    obtain ⟨⟨tx₁, _⟩, hnode, h⟩ := Except.bind_eq_ok.mp h
    cases Except.pure_eq_ok.mp h
    exact keepsSettled_of_rels_eq hartists (enrichNode_nodeWrite hnode).rels
  | releases => exact (enrichRelease_releaseWrite h).keepsSettled hartists

theorem batchProjections_keepsSettled {tx tx' : Tx} {flags : List Bool}
    (h : batchProjections rt gate now t records tx = .ok (tx', flags)) :
    KeepsSettled tx.graph tx'.graph := by
  have hartists := (batchProjections_entityWrite h).artists
  cases t with
  | artists =>
    obtain ⟨tx₁, _, _, hwrite, _, _, hinj, hw, hproject⟩ := enrichArtistsBatch_phases h
    obtain ⟨merges, _, hrels⟩ := projectRelations_merges hw hinj hproject
    exact keepsSettled_of_merges hartists hwrite.rels hrels
  | labels =>
    obtain ⟨⟨tx₁, _⟩, hrun, h⟩ := Except.bind_eq_ok.mp h
    cases Except.pure_eq_ok.mp h
    exact keepsSettled_of_rels_eq hartists (runEntityBatch_nodeWrite hrun).rels
  | releaseGroups =>
    obtain ⟨⟨tx₁, _⟩, hrun, h⟩ := Except.bind_eq_ok.mp h
    cases Except.pure_eq_ok.mp h
    exact keepsSettled_of_rels_eq hartists (runEntityBatch_nodeWrite hrun).rels
  | releases => exact (enrichReleasesBatch_releaseWrite h).keepsSettled hartists

/-- The relations of the records a batch selects are settled after it. -/
theorem enrichArtistsBatch_settled {tx tx' : Tx} {flags : List Bool}
    (h : enrichArtistsBatch rt gate now records tx = .ok (tx', flags)) {type : RelType}
    {row : RelationRow} : Settled tx'.graph type row ↔ Settled tx.graph type row ∨
      ∃ r, Selects rt gate records tx.graph r ∧ Projects rt tx.graph r.1 type row := by
  obtain ⟨tx₁, sel, w, hwrite, hsel, _, hinj, hw, hproject⟩ := enrichArtistsBatch_phases h
  obtain ⟨merges, hmem, hrels⟩ := projectRelations_merges hw hinj hproject
  have hmerged : Settled tx'.graph type row ↔ Settled (mergeAll merges tx₁.graph) type row :=
    settled_congr fun _ _ => by rw [hrels]
  have hbefore : Settled tx₁.graph type row ↔ Settled tx.graph type row :=
    settled_congr fun _ _ => by rw [hwrite.rels]
  rw [hmerged, settled_mergeAll_iff, hbefore]
  apply or_congr_right
  simp only [hmem, hsel, bothSides_congr hwrite.isSome_node]
  constructor
  · rintro ⟨m, ⟨r, hr, relation, hrel, hs⟩, rfl, hends, hb⟩
    exact ⟨r, hr, relation, hrel, m.2, hs, hends, hb⟩
  · rintro ⟨r, hr, relation, hrel, row₀, hs, hends, hb⟩
    exact ⟨(type, row₀), ⟨r, hr, relation, hrel, hs⟩, rfl, hends, hb⟩

/-- A write that keeps what is settled keeps the digests true, if those it stores
are of relations it has settled. -/
theorem DigestsSettled.step (h : DigestsSettled rt g) (hkeeps : KeepsSettled g g')
    (hhash : ∀ id n', g'.node (artistKey id) = some n' →
      (∃ n, g.node (artistKey id) = some n ∧ n' "mb_relations_hash" = n "mb_relations_hash") ∨
        ∀ relations, n' "mb_relations_hash" = payloadHash rt [relations] →
          ∀ relation ∈ relations.elems, ∀ type row,
            supported rt id relation = some (type, some row) → bothSides g row = true →
            Settled g' type row) : DigestsSettled rt g' := by
  intro id n' relations hn' hdigest relation hrel type row hs hb
  rw [hkeeps.bothSides] at hb
  rcases hhash id n' hn' with ⟨n, hn, heq⟩ | hnew
  · exact hkeeps.settled type (supported_type hs) row
      (h id n relations hn (heq.symm.trans hdigest) relation hrel type row hs hb)
  · exact hnew relations hdigest relation hrel type row hs hb

/-- A write of another type, or of one record, leaves the relations digests alone. -/
theorem DigestsSettled.of_hash_eq (h : DigestsSettled rt g) (hkeeps : KeepsSettled g g')
    (hhash : ∀ id, (g'.node (artistKey id)).map (· "mb_relations_hash") =
      (g.node (artistKey id)).map (· "mb_relations_hash")) : DigestsSettled rt g' := by
  refine h.step hkeeps fun id n' hn' => .inl ?_
  have heq := hhash id
  rw [hn', Option.map_some, eq_comm, Option.map_eq_some_iff] at heq
  obtain ⟨n, hn, heq⟩ := heq
  exact ⟨n, hn, heq.symm⟩

end Steps

/-- In a graph only this service writes to, stored digests are of settled relations. -/
theorem ServiceHistory.digestsSettled (hinj : Function.Injective rt.hexdigest) {g : Graph}
    (h : ServiceHistory rt g) : DigestsSettled rt g := by
  induction h with
  | start h =>
    intro id n relations hn hdigest
    rw [h.props .artists id n hn _ (List.mem_append_right _ List.mem_cons_self)] at hdigest
    exact absurd hdigest.symm (payloadHash_ne_null _)
  | @processor gate now t record tx tx' _ hrun ih =>
    refine ih.of_hash_eq (processors_keepsSettled hrun) fun id => ?_
    by_cases ht : t = .artists
    · subst ht
      obtain ⟨g₁, hwrite, hnode, _⟩ := enrichArtist_spec hrun
      rw [hnode]
      exact hwrite.eq_of_not_mem relationsHash_not_mem (artistKey id)
    · rw [(processors_entityWrite hrun).node_artist ht]
  | @batch gate now t records tx tx' flags _ hrun ih =>
    have hkeeps := batchProjections_keepsSettled hrun
    by_cases ht : t = .artists
    · subst ht
      refine ih.step hkeeps fun id n' hn' => ?_
      obtain ⟨g₁, hwrite, hphase⟩ := enrichArtistsBatch_spec hrun
      rcases relationsHash_of_batch hwrite hphase hn' with hold | ⟨r, hsel, _, rfl, heq⟩
      · exact .inl hold
      · refine .inr fun relations hdigest relation hrel type row hs hb => ?_
        rw [heq, relationsDigest, payloadHash_inj hinj, List.cons.injEq] at hdigest
        rw [← hdigest.1] at hrel
        exact (enrichArtistsBatch_settled hrun).mpr
          (.inr ⟨r, hsel, relation, hrel, row, hs, ⟨rfl, rfl⟩, hb⟩)
    · refine ih.of_hash_eq hkeeps fun id => ?_
      rw [(batchProjections_entityWrite hrun).node_artist ht]

end Brainzgraphinator
