-- SUMMARY: Over any history of release writes, a stored digest stands for a record the release holds.
import Brainzgraphinator.Projections.BatchEquivalence

/-!
# The replay gate over whole histories

`Reachable` collects the graphs that release writes with the gate on can lead to
from a graph without MusicBrainz data, other services writing in between. Every
such graph satisfies `GateInvariant`: stored digests stand for what the releases
hold, and no two musicbrainz edges join the same release and medium.
-/

namespace Brainzgraphinator

variable {rt : Runtime}

/-! ## Histories -/

/-- An ISSUED_ON edge that MusicBrainz projected. -/
def musicbrainzIssued (e : Edge) : Bool :=
  e.type = .issuedOn ∧ e.props "source" = .str mediaSource

structure NoMusicbrainzData (g : Graph) : Prop where
  props : ∀ id n, g.node (releaseKey id) = some n → ∀ key ∈ releaseProps, n key = .null
  edges : ∀ e ∈ g.rels, musicbrainzIssued e = false

/-- A write of another service: it may create and delete nodes and write its own
properties and edges, but it touches neither the properties of the release
projections nor the musicbrainz-sourced edges. -/
structure OtherService (g g' : Graph) : Prop where
  props : ∀ id n', g'.node (releaseKey id) = some n' → ∀ key ∈ releaseProps,
    n' key = ((g.node (releaseKey id)).map (· key)).getD .null
  edges : (g'.rels.filter musicbrainzIssued).Perm (g.rels.filter musicbrainzIssued)

/-- The graphs a history of committed release writes can lead to. -/
inductive Reachable (rt : Runtime) : Graph → Prop
  | start {g : Graph} : NoMusicbrainzData g → Reachable rt g
  | enrichRelease {tx tx' : Tx} {now : Json} {record : Dict} : Reachable rt tx.graph →
      enrichRelease rt true now record tx = .ok tx' → Reachable rt tx'.graph
  | enrichReleasesBatch {tx tx' : Tx} {now : Json} {records : List Dict} {flags : List Bool} :
      Reachable rt tx.graph → enrichReleasesBatch rt true now records tx = .ok (tx', flags) →
      Reachable rt tx'.graph
  | otherService {g g' : Graph} : Reachable rt g → OtherService g g' → Reachable rt g'

/-! ## The invariant -/

structure GateInvariant (rt : Runtime) (g : Graph) : Prop where
  stored : StoredDigests rt g
  single : ∀ id d, (issuedQtys g (releaseKey id) d).length ≤ 1
  media : ∀ id d, d.label ≠ .medium → issuedQtys g (releaseKey id) d = []

theorem issuedQtys_of_node_eq_none {g : Graph} {s : NodeKey} (h : g.node s = none) (d : NodeKey) :
    issuedQtys g s d = [] := by
  rw [issuedQtys, List.map_eq_nil_iff, List.filter_eq_nil_iff]
  intro e he hissued
  simp only [mbIssued, decide_eq_true_eq] at hissued
  have hsrc := (g.closed e he).1
  rw [hissued.2.1, h] at hsrc
  cases hsrc

theorem mbIssued_le_musicbrainzIssued (s d : NodeKey) (rels : List Edge) :
    rels.filter (mbIssued s d) = (rels.filter musicbrainzIssued).filter (mbIssued s d) := by
  rw [List.filter_filter]
  refine List.filter_congr fun e _ => ?_
  cases h : mbIssued s d e with
  | false => rfl
  | true =>
    simp only [mbIssued, decide_eq_true_eq] at h
    simp [musicbrainzIssued, h.1, h.2.2.2]

theorem GateInvariant.start {g : Graph} (h : NoMusicbrainzData g) : GateInvariant rt g := by
  have hnil : ∀ s d, issuedQtys g s d = [] := by
    intro s d
    have hnone : g.rels.filter musicbrainzIssued = [] := by
      simpa [List.filter_eq_nil_iff] using h.edges
    rw [issuedQtys, mbIssued_le_musicbrainzIssued, hnone]
    rfl
  refine ⟨fun id v hv => .inl ?_, fun id d => by simp [hnil], fun id d _ => hnil _ d⟩
  exact h.props id _ (releaseView_eq_some.mp hv).1 _ (by decide)

/-- Projecting a record never makes a second edge to a medium. -/
theorem length_media_project {gate : Bool} {now : Json} {record : Dict} {row : EntityRow}
    {v : ReleaseView} (h : ∀ m, (v.media m).length ≤ 1) (m : String) :
    ((v.project rt gate now record row).media m).length ≤ 1 := by
  unfold ReleaseView.project
  split
  · dsimp only
    split
    · exact h m
    · rename_i block _
      simp only [ReleaseView.reconcile]
      split
      · simp
      · rw [length_settle]
        exact max_le le_rfl (h m)
  · exact h m

theorem GateInvariant.releaseWrite (hinj : Function.Injective rt.hexdigest) {gate : Bool} {now : Json}
    {records : List Dict} {g g' : Graph} (hinv : GateInvariant rt g)
    (h : ReleaseWrite rt gate now records g g') : GateInvariant rt g' := by
  have hview := h.releaseView
  have hmedia : ∀ id d, d.label ≠ .medium → issuedQtys g' (releaseKey id) d = [] := by
    intro id d hd
    obtain ⟨g₁, _, _, hwrite, _, heffect⟩ := h.effect
    rw [heffect.kept _ _ fun _ _ _ => hd, issuedQtys_congr hwrite.rels, hinv.media id d hd]
  -- What a view of `g'` comes from.
  have hfrom : ∀ id v', releaseView g' id = some v' → ∃ v, releaseView g id = some v ∧
      (Stored rt v → Stored rt v') ∧
      ((∀ m, (v.media m).length ≤ 1) → ∀ m, (v'.media m).length ≤ 1) := by
    intro id v' hv'
    have hview := hview id
    split at hview
    · exact ⟨v', hview ▸ hv', fun hs => hs, fun hl => hl⟩
    · rename_i record _
      obtain ⟨row, hproj, hview⟩ := hview
      rw [hv'] at hview
      obtain ⟨v, hv, rfl⟩ := Option.map_eq_some_iff.mp hview.symm
      exact ⟨v, hv, fun hs => .inr ⟨record, (project_holds gate now hinj hs hproj).1⟩, length_media_project⟩
  refine ⟨?_, ?_, hmedia⟩
  · intro id v' hv'
    obtain ⟨v, hv, hstored, _⟩ := hfrom id v' hv'
    exact hstored (hinv.stored id v hv)
  · intro id d
    by_cases hd : d.label = .medium
    · obtain ⟨_, m⟩ := d
      cases hd
      cases hnode : g'.node (releaseKey id) with
      | none => rw [issuedQtys_of_node_eq_none hnode]; exact Nat.zero_le _
      | some n =>
        have hv' : releaseView g' id =
            some ⟨n, fun m => issuedQtys g' (releaseKey id) (mediumKey m)⟩ := by
          rw [releaseView, hnode, Option.map_some]
        obtain ⟨v, hv, _, hlength⟩ := hfrom id _ hv'
        refine hlength (fun m => ?_) m
        rw [← (releaseView_eq_some.mp hv).2 m]
        exact hinv.single id _
    · rw [hmedia id d hd]
      exact Nat.zero_le _

theorem OtherService.issuedQtys_perm {g g' : Graph} (h : OtherService g g') (s d : NodeKey) :
    (issuedQtys g' s d).Perm (issuedQtys g s d) := by
  rw [issuedQtys, issuedQtys, mbIssued_le_musicbrainzIssued, mbIssued_le_musicbrainzIssued s d g.rels]
  exact (h.edges.filter _).map _

/-- What a release holds is read off the properties and edges of the projections only. -/
theorem Holds.congr {record : Dict} {v v' : ReleaseView} (h : Holds rt record v)
    (hprops : ∀ key ∈ releaseProps, v'.props key = v.props key)
    (hmedia : ∀ m q, q ∈ v'.media m ↔ q ∈ v.media m) : Holds rt record v' := by
  obtain ⟨row, hproj, hhash, hfields⟩ := h.row
  refine ⟨⟨row, hproj, (hprops _ (by decide)).trans hhash, fun field hfield => ?_⟩, fun block hb => ?_⟩
  · have hmem : field.1 ∈ releaseProps :=
      List.mem_append_left _ (List.mem_append_left _ (List.mem_map_of_mem hfield))
    rw [hprops _ hmem, hfields field hfield]
  · refine (h.block block hb).of_sameMedia ⟨fun key hk => ?_, fun m q => (hmedia m q).symm⟩
    exact (hprops key (List.mem_append_right _ hk)).symm

theorem GateInvariant.otherService {g g' : Graph} (hinv : GateInvariant rt g)
    (h : OtherService g g') : GateInvariant rt g' := by
  refine ⟨?_, ?_, ?_⟩
  · intro id v' hv'
    obtain ⟨hnode', hmedia'⟩ := releaseView_eq_some.mp hv'
    have hprops := h.props id v'.props hnode'
    cases hnode : g.node (releaseKey id) with
    | none =>
      rw [hnode] at hprops
      exact .inl (hprops _ (by decide))
    | some n =>
      rw [hnode] at hprops
      have hv : releaseView g id = some ⟨n, fun m => issuedQtys g (releaseKey id) (mediumKey m)⟩ := by
        rw [releaseView, hnode, Option.map_some]
      rcases hinv.stored id _ hv with hnull | ⟨record, hholds⟩
      · exact .inl ((hprops _ (by decide)).trans hnull)
      · refine .inr ⟨record, hholds.congr hprops fun m q => ?_⟩
        rw [← hmedia' m]
        exact (h.issuedQtys_perm _ _).mem_iff
  · intro id d
    rw [(h.issuedQtys_perm _ _).length_eq]
    exact hinv.single id d
  · intro id d hd
    have hperm := h.issuedQtys_perm (releaseKey id) d
    rw [hinv.media id d hd] at hperm
    exact hperm.eq_nil

/-- Every step of a history keeps the invariant. -/
theorem Reachable.invariant (hinj : Function.Injective rt.hexdigest) {g : Graph}
    (h : Reachable rt g) : GateInvariant rt g := by
  induction h with
  | start h => exact .start h
  | enrichRelease _ hrun ih => exact ih.releaseWrite hinj (enrichRelease_releaseWrite hrun)
  | enrichReleasesBatch _ hrun ih => exact ih.releaseWrite hinj (enrichReleasesBatch_releaseWrite hrun)
  | otherService _ hother ih => exact ih.otherService hother

/-! ## What the gate trusts -/

/-- A list of at most one quantity is known by its members. -/
theorem eq_of_mem_iff {qtys : List Json} (hlen : qtys.length ≤ 1) {rows : List MediaRow} {m : String}
    (hnd : (rows.map MediaRow.medium).Nodup)
    (h : ∀ q, q ∈ qtys ↔ ∃ row ∈ rows, row.medium = m ∧ q = .int row.qty) :
    qtys = (rows.filter fun row => row.medium = m).map fun row => .int row.qty := by
  have hfilter : (rows.filter fun row => row.medium = m).length ≤ 1 := by
    have hsub : ((rows.filter fun row => row.medium = m).map MediaRow.medium).Nodup :=
      (List.filter_sublist.map _).nodup hnd
    match hr : rows.filter fun row => row.medium = m with
    | [] => simp [hr]
    | [_] => simp [hr]
    | a :: b :: _ =>
      have ha : a ∈ rows.filter fun row => row.medium = m := by rw [hr]; simp
      have hb : b ∈ rows.filter fun row => row.medium = m := by rw [hr]; simp
      simp only [List.mem_filter, decide_eq_true_eq] at ha hb
      rw [hr] at hsub
      simp [ha.2, hb.2] at hsub
  have hmem : ∀ q, q ∈ qtys ↔
      q ∈ (rows.filter fun row => row.medium = m).map fun row => Json.int row.qty := by
    intro q
    rw [h, List.mem_map]
    simp only [List.mem_filter, decide_eq_true_eq, and_assoc]
    exact exists_congr fun row => and_congr_right fun _ => and_congr_right fun _ => eq_comm
  match qtys, (rows.filter fun row => row.medium = m).map fun row => Json.int row.qty, hlen,
    (List.length_map _).trans_le hfilter, hmem with
  | [], [], _, _, _ => rfl
  | [], b :: _, _, _, hmem => exact absurd ((hmem b).mpr List.mem_cons_self) List.not_mem_nil
  | a :: _, [], _, _, hmem => exact absurd ((hmem a).mp List.mem_cons_self) List.not_mem_nil
  | [a], [b], _, _, hmem => rw [List.mem_singleton.mp ((hmem a).mp (List.mem_singleton_self a))]

theorem reachable_digest_holds (hinj : Function.Injective rt.hexdigest) {g : Graph}
    (hreach : Reachable rt g) {id : String} {n : Props} {record row : Dict} {block : MediaBlock}
    (hnode : g.node (releaseKey id) = some n) (hrow : releaseRow rt record = .ok row)
    (hblock : releaseMediaBlock rt record = some block)
    (hhash : n "mb_hash" = payloadHash rt [.obj row, mediaDigest rt record]) :
    (∀ field ∈ releaseFields, n field.1 = row.get field.2) ∧
      n "mb_media_families" = strings (rt.familiesOf block) ∧
      n "mb_medium_count" = .int (mediumCount block) ∧
      ∀ d, issuedQtys g (releaseKey id) d =
        ((mediaEdgeRows rt block).filter fun r => mediumKey r.medium = d).map fun r => .int r.qty := by
  have hinv := hreach.invariant hinj
  have hv : releaseView g id = some ⟨n, fun m => issuedQtys g (releaseKey id) (mediumKey m)⟩ := by
    rw [releaseView, hnode, Option.map_some]
  have hproj : (releaseSpec rt).Projects rt record ⟨0, id, row, payloadHash rt [.obj row, mediaDigest rt record]⟩ :=
    ⟨hrow, rfl⟩
  have hholds := (hinv.stored id _ hv).holds hinj hproj hhash
  obtain ⟨row', hproj', _, hfields⟩ := hholds.row
  have hshows := hholds.block block hblock
  refine ⟨fun field hf => ?_, hshows.families, hshows.count, fun d => ?_⟩
  · have hsame : row = row'.row := (hproj.unique hproj').1
    rw [hsame]
    exact hfields field hf
  · by_cases hd : d.label = .medium
    · obtain ⟨_, m⟩ := d
      cases hd
      have heq := eq_of_mem_iff (hinv.single id (mediumKey m)) (mediaEdgeRows_nodup rt block)
        (hshows.media m)
      simpa [mediumKey] using heq
    · rw [hinv.media id d hd]
      have hnone : ∀ r ∈ mediaEdgeRows rt block, ¬ mediumKey r.medium = d := by
        rintro r _ rfl
        exact hd rfl
      rw [List.filter_eq_nil_iff.mpr (by simpa using hnone)]
      rfl

/-- After the release with one medium is written once, the gate trusts its digest. -/
theorem reachable_digest_holds_mediaRecord : ∃ tx n,
    enrichRelease plainRuntime true .null mediaRecord ⟨bareRelease, {}⟩ = .ok tx ∧
      tx.graph.node (releaseKey "1") = some n ∧ n "mb_medium_count" = .int 1 ∧
      ∀ d, issuedQtys tx.graph (releaseKey "1") d =
        (if mediumKey "cd" = d then [.int 1] else []) := by
  obtain ⟨tx, hrun, hhash⟩ : ∃ tx,
      enrichRelease plainRuntime true .null mediaRecord ⟨bareRelease, {}⟩ = .ok tx ∧
        (tx.graph.node (releaseKey "1")).map (fun n => n "mb_hash") =
          some (payloadHash plainRuntime [.obj [("mbid", .null), ("mb_barcode", .null),
            ("mb_status", .null), ("release_group_mbid", .null), ("mb_country", .null),
            ("mb_release_events", .arr [])], mediaDigest plainRuntime mediaRecord]) :=
    Except.exists_eq_ok (by decide +kernel)
  obtain ⟨n, hnode, hhash⟩ := Option.map_eq_some_iff.mp hhash
  have hstart : NoMusicbrainzData bareRelease := by
    refine ⟨fun id n hn key _ => ?_, fun e he => by cases he⟩
    simp only [bareRelease, Option.ite_none_right_eq_some, Option.some.injEq] at hn
    rw [← hn.2]
    rfl
  have hblock : releaseMediaBlock plainRuntime mediaRecord =
      some ⟨[("items", .arr [.obj [("medium", .str "cd"), ("family", .str "optical")]])],
        [.obj [("medium", .str "cd"), ("family", .str "optical")]], rfl⟩ := rfl
  obtain ⟨_, _, hcount, hedges⟩ := reachable_digest_holds plainRuntime_injective
    (.enrichRelease (.start hstart) hrun) hnode rfl hblock hhash
  refine ⟨tx, n, hrun, hnode, hcount, fun d => ?_⟩
  rw [hedges d]
  by_cases hd : mediumKey "cd" = d
  · subst hd; rfl
  · rw [if_neg hd]
    have : mediaEdgeRows plainRuntime ⟨[("items", .arr [.obj [("medium", .str "cd"),
        ("family", .str "optical")]])], [.obj [("medium", .str "cd"), ("family", .str "optical")]], rfl⟩ =
        [⟨"cd", "optical", "cd", 1⟩] := by decide +kernel
    rw [this]
    simp [hd]

end Brainzgraphinator
