-- SUMMARY: What MusicBrainz says on one release, and the refinement of every release write to one step on it.
import Brainzgraphinator.Projections.MediaPhase

/-!
# The view of one release

`ReleaseView` is the part of the graph that the release projections are about:
the properties of one Release node and, for every medium, the quantities of its
musicbrainz-sourced edges. `ReleaseView.project` is what one record does to it.
Every release write, single or batch, is that step for the last record of each
release (`ReleaseWrite.releaseView`): the other releases of the write, their
stale sweeps and their prunes do not show.
-/

namespace Brainzgraphinator

structure ReleaseView where
  props : Props
  media : String → List Json

def releaseView (g : Graph) (id : String) : Option ReleaseView :=
  (g.node (releaseKey id)).map fun n =>
    ⟨n, fun m => issuedQtys g (releaseKey id) (mediumKey m)⟩

namespace ReleaseView

variable (rt : Runtime) (gate : Bool) (now : Json)

/-- Reconcile the media with a block. -/
def reconcile (block : MediaBlock) (v : ReleaseView) : ReleaseView where
  props := setSummary (summaryRow rt "" block) v.props
  media m :=
    match (mediaEdgeRows rt block).find? fun row => row.medium = m with
    | none => []
    | some row => settle row.qty (v.media m)

/-- Project a record: nothing when the gate finds its digest, else its row and,
when it carries a block, its media. -/
def project (record : Dict) (row : EntityRow) (v : ReleaseView) : ReleaseView :=
  if changed gate v.props row.mbHash then
    let written : ReleaseView := { v with props := writeRow releaseFields now row v.props }
    match releaseMediaBlock rt record with
    | none => written
    | some block => written.reconcile rt block
  else v

end ReleaseView

/-! ## Release writes refine the step -/

theorem releaseView_eq_some {g : Graph} {id : String} {v : ReleaseView} :
    releaseView g id = some v ↔ g.node (releaseKey id) = some v.props ∧
      ∀ m, issuedQtys g (releaseKey id) (mediumKey m) = v.media m := by
  obtain ⟨props, media⟩ := v
  simp only [releaseView, Option.map_eq_some_iff, ReleaseView.mk.injEq]
  constructor
  · rintro ⟨_, hn, rfl, rfl⟩
    exact ⟨hn, fun _ => rfl⟩
  · rintro ⟨hn, hm⟩
    exact ⟨_, hn, rfl, funext hm⟩

/-- The row of a medium in a block is the one found under it. -/
theorem find?_mediaEdgeRows {rt : Runtime} {block : MediaBlock} {m : String} {row : MediaRow} :
    ((mediaEdgeRows rt block).find? fun row => row.medium = m) = some row ↔
      row ∈ mediaEdgeRows rt block ∧ row.medium = m :=
  OrderedDict.find?_key_eq_some_iff (mediaEdgeRows_nodup rt block)

section Refinement

variable {rt : Runtime} {gate : Bool} {now : Json} {records : List Dict} {g g₁ g' : Graph}
  {summaries : List SummaryRow} {items : List ReleaseItem}

/-- A release that is not reconciled keeps its node and its edges in the media phase. -/
theorem MediaEffect.releaseView_of_not_reconciled (heffect : MediaEffect summaries items g₁ g')
    {id : String} (h : ∀ row ∈ summaries, row.discogsId ≠ id) :
    releaseView g' id = releaseView g₁ id := by
  have hnode : g'.node (releaseKey id) = g₁.node (releaseKey id) := by
    rw [heffect.node _ (by simp [releaseKey]) (by simp [releaseKey]),
      PropertyGraph.Graph.node_foldl_update_of_forall_ne]
    exact fun row hrow heq => h row hrow (releaseKey_inj.mp heq)
  have hqtys : ∀ m, issuedQtys g' (releaseKey id) (mediumKey m) =
      issuedQtys g₁ (releaseKey id) (mediumKey m) := fun m =>
    heffect.kept _ _ fun row hrow heq => absurd (releaseKey_inj.mp heq).symm (h row hrow)
  simp only [releaseView, hnode, hqtys]

/-- A reconciled release has its media reconciled with the block. -/
theorem MediaEffect.releaseView_of_reconciled (heffect : MediaEffect summaries items g₁ g')
    (hplan : MediaPlan rt gate records g summaries items) {id : String} {block : MediaBlock}
    (h : Reconciles rt gate records g id block) :
    releaseView g' id = (releaseView g₁ id).map (ReleaseView.reconcile rt block) := by
  have hrow := hplan.summary_mem h
  have hnode : g'.node (releaseKey id) =
      (g₁.node (releaseKey id)).map (setSummary (summaryRow rt id block)) := by
    rw [heffect.node _ (by simp [releaseKey]) (by simp [releaseKey])]
    exact PropertyGraph.Graph.node_foldl_update_of_mem (nodup_releaseKeys hplan.nodup_summaries)
      hrow g₁
  have hqtys : ∀ m, issuedQtys g' (releaseKey id) (mediumKey m) =
      match (mediaEdgeRows rt block).find? fun row => row.medium = m with
      | none => []
      | some row => settle row.qty (issuedQtys g₁ (releaseKey id) (mediumKey m)) := by
    intro m
    cases hfind : (mediaEdgeRows rt block).find? fun row => row.medium = m with
    | none =>
      refine heffect.stale _ hrow m ?_
      rw [summaryRow, List.mem_map]
      rintro ⟨row, hmem, rfl⟩
      have := List.find?_eq_none.mp hfind row hmem
      simp at this
    | some row =>
      obtain ⟨hmem, rfl⟩ := find?_mediaEdgeRows.mp hfind
      exact heffect.settled ⟨row, id⟩ ((hplan.mem_items _).mpr ⟨block, h, hmem⟩)
  simp only [releaseView, hnode, hqtys, Option.map_map]
  rfl

/-- Every release write is, on each release, the step of its last record. -/
theorem ReleaseWrite.releaseView (h : ReleaseWrite rt gate now records g g') (id : String) :
    match lastOf rt "discogs_release_id" records id with
    | none => releaseView g' id = releaseView g id
    | some record => ∃ row, (releaseSpec rt).Projects rt record row ∧
        releaseView g' id = (releaseView g id).map (ReleaseView.project rt gate now record row) := by
  obtain ⟨g₁, summaries, items, hwrite, hplan, heffect⟩ := h.effect
  have hqtys : ∀ m, issuedQtys g₁ (releaseKey id) (mediumKey m) =
      issuedQtys g (releaseKey id) (mediumKey m) :=
    fun m => issuedQtys_congr hwrite.rels _ _
  -- Only a reconciled release has a summary row.
  have hsummary : (∀ block, ¬ Reconciles rt gate records g id block) →
      ∀ row ∈ summaries, row.discogsId ≠ id := by
    rintro hnot row hrow rfl
    obtain ⟨id', block, hrec, rfl⟩ := (hplan.mem_summaries row).mp hrow
    exact hnot block hrec
  cases hlast : lastOf rt "discogs_release_id" records id with
  | none =>
    have hnode : g₁.node (releaseKey id) = g.node (releaseKey id) := hwrite.frame _ fun _ => hlast
    have hnot : ∀ block, ¬ Reconciles rt gate records g id block := by
      rintro block ⟨record, _, _, hlast', _⟩
      rw [hlast] at hlast'
      cases hlast'
    dsimp only
    rw [heffect.releaseView_of_not_reconciled (hsummary hnot)]
    simp only [Brainzgraphinator.releaseView, hnode, hqtys]
  | some record =>
    obtain ⟨row, hproj, hnode⟩ := hwrite.written id record hlast
    have hnode : g₁.node (releaseKey id) =
        (g.node (releaseKey id)).map (gatedWrite gate releaseFields now row) := hnode
    refine ⟨row, hproj, ?_⟩
    cases hn : g.node (releaseKey id) with
    | none =>
      have hnot : ∀ block, ¬ Reconciles rt gate records g id block := by
        rintro block ⟨_, n, _, _, hn', _⟩
        rw [hn] at hn'
        cases hn'
      rw [heffect.releaseView_of_not_reconciled (hsummary hnot)]
      simp only [Brainzgraphinator.releaseView, hnode, hn, Option.map_none]
    | some n =>
      have hrec : ∀ block, Reconciles rt gate records g id block ↔
          changed gate n row.mbHash ∧ releaseMediaBlock rt record = some block := by
        intro block
        constructor
        · rintro ⟨record', n', row', hlast', hn', hproj', hc, hblock⟩
          cases hlast.symm.trans hlast'
          cases hn.symm.trans hn'
          rw [(hproj.unique hproj').2]
          exact ⟨hc, hblock⟩
        · rintro ⟨hc, hblock⟩
          exact ⟨record, n, row, hlast, hn, hproj, hc, hblock⟩
      have hview : Brainzgraphinator.releaseView g id =
          some ⟨n, fun m => issuedQtys g (releaseKey id) (mediumKey m)⟩ := by
        rw [Brainzgraphinator.releaseView, hn, Option.map_some]
      have hview₁ : Brainzgraphinator.releaseView g₁ id =
          some ⟨gatedWrite gate releaseFields now row n,
            fun m => issuedQtys g (releaseKey id) (mediumKey m)⟩ := by
        rw [Brainzgraphinator.releaseView, hnode, hn, Option.map_some, Option.map_some]
        simp only [hqtys]
      rw [hview, Option.map_some, ReleaseView.project]
      by_cases hc : changed gate n row.mbHash
      · simp only [gatedWrite, if_pos hc] at hview₁ ⊢
        cases hblock : releaseMediaBlock rt record with
        | none =>
          have hnot : ∀ block, ¬ Reconciles rt gate records g id block := fun block h => by
            have := ((hrec block).mp h).2
            rw [hblock] at this
            cases this
          rw [heffect.releaseView_of_not_reconciled (hsummary hnot), hview₁]
        | some block =>
          rw [heffect.releaseView_of_reconciled hplan ((hrec block).mpr ⟨hc, hblock⟩), hview₁]
          rfl
      · have hnot : ∀ block, ¬ Reconciles rt gate records g id block :=
          fun block h => hc ((hrec block).mp h).1
        rw [heffect.releaseView_of_not_reconciled (hsummary hnot), hview₁, gatedWrite, if_neg hc]
        simp only [if_neg hc]

end Refinement

end Brainzgraphinator
