-- SUMMARY: A release write that runs alone, row by row under its locks, does the media phase of the projections.
import Mathlib.Data.List.Sort
import Brainzgraphinator.Projections.LockCoverage
import Brainzgraphinator.Projections.MediaContention

/-!
# A release write that runs alone

The interleaved writes take the statements of the media phase apart at their rows. A
write whose rows no other comes between ends with the graph the statements themselves
lead to, and with no lock left: the rows neither add to the statements nor leave
something out.
-/

namespace Brainzgraphinator

namespace MediaContention

/-! ## The rows of a statement, and the statement -/

section Statements

variable {rows : List SummaryRow} {g : Graph}

theorem foldl_deleteRels {α : Type} (p : α → Edge → Bool) (xs : List α) (g : Graph) :
    xs.foldl (fun g x => g.deleteRels (p x)) g = g.deleteRels fun e => xs.any (p · e) := by
  induction xs generalizing g with
  | nil =>
    refine PropertyGraph.Graph.ext rfl ?_
    simp
  | cons x xs ih =>
    rw [List.foldl_cons, ih]
    refine PropertyGraph.Graph.ext rfl ?_
    simp [List.filter_filter, Bool.and_comm]

theorem deleteRels_congr {p q : Edge → Bool} (h : ∀ e ∈ g.rels, p e = q e) : g.deleteRels p = g.deleteRels q := by
  refine PropertyGraph.Graph.ext rfl ?_
  exact List.filter_congr fun e he => by rw [h e he]

/-- The stale edges of one medium after the other are all stale edges. -/
theorem foldl_sweep {media : List String} (h : ∀ e ∈ g.rels, Stale rows e → ∃ m ∈ media, e.dst = mediumKey m) :
    media.foldl (fun g m => g.deleteRels fun e => rows.any (isStale · e) && decide (e.dst = mediumKey m)) g =
      g.deleteRels fun e => rows.any (isStale · e) := by
  rw [foldl_deleteRels]
  refine deleteRels_congr fun e he => ?_
  rw [Bool.eq_iff_iff, List.any_eq_true]
  constructor
  · rintro ⟨m, _, hboth⟩
    exact (Bool.and_eq_true_iff.mp hboth).1
  · intro hstale
    obtain ⟨m, hm, hdst⟩ := h e he (any_isStale.mp hstale)
    exact ⟨m, hm, Bool.and_eq_true_iff.mpr ⟨hstale, decide_eq_true hdst⟩⟩

/-- The media found row by row are those the statement collects. -/
theorem sweptMedia_eq (rows : List SummaryRow) (g : Graph) :
    ((rows.flatMap fun row => (g.rels.filter (isStale row)).map (·.dst.id)).insertionSort (· ≤ ·)).dedup =
      (((g.rels.filter fun e => rows.any (isStale · e)).map (·.dst.id)).insertionSort (· ≤ ·)).dedup := by
  refine List.Perm.eq_of_pairwise (fun _ _ _ _ => le_antisymm)
    ((List.pairwise_insertionSort _ _).sublist (List.dedup_sublist _))
    ((List.pairwise_insertionSort _ _).sublist (List.dedup_sublist _)) ?_
  refine (List.perm_ext_iff_of_nodup (List.nodup_dedup _) (List.nodup_dedup _)).mpr fun id => ?_
  simp only [List.mem_dedup, List.mem_insertionSort, List.mem_flatMap, List.mem_map, List.mem_filter, any_isStale]
  constructor
  · rintro ⟨row, hrow, e, ⟨he, hstale⟩, rfl⟩
    exact ⟨e, ⟨he, row, hrow, hstale⟩, rfl⟩
  · rintro ⟨e, ⟨he, row, hrow, hstale⟩, rfl⟩
    exact ⟨row, hrow, e, ⟨he, hstale⟩, rfl⟩

/-- One row of the prune. -/
def pruneRow (g : Graph) (m : String) : Graph := if isOrphan g m then deleteMedium m g else g

/-- An orphan goes with its IN_FAMILY edges. -/
theorem deleteMedium_spec {m : String} (h : isOrphan g m = true) :
    (deleteMedium m g).rels = g.rels.filter (fun e => !familyEdge m e) ∧
      ∀ k, (deleteMedium m g).node k = if k = mediumKey m then none else g.node k := by
  have hclear : ∀ e ∈ (g.deleteRels (familyEdge m)).rels, e.src ∉ [mediumKey m] ∧ e.dst ∉ [mediumKey m] := by
    intro e he
    obtain ⟨he, hkept⟩ := List.mem_filter.mp he
    have hnot : ¬ Keeps m e := isOrphan_iff.mp h e he
    have hother : e.type ≠ .inFamily ∨ e.src ≠ mediumKey m := by
      rw [familyEdge, Bool.not_eq_true', decide_eq_false_iff_not, not_and_or] at hkept
      exact hkept
    rw [List.mem_singleton, List.mem_singleton, ← not_or]
    exact fun htouches => hnot ⟨htouches, hother⟩
  obtain ⟨g', hdelete⟩ := PropertyGraph.Graph.exists_deleteNodes hclear
  obtain ⟨hrels, hnode⟩ := PropertyGraph.Graph.deleteNodes_eq_some hdelete
  rw [deleteMedium, hdelete]
  refine ⟨hrels, fun k => ?_⟩
  rw [Option.getD_some, hnode, PropertyGraph.Graph.node_deleteRels]
  simp only [List.mem_singleton]

/-- An IN_FAMILY edge goes to a family, so no other medium becomes an orphan with it. -/
theorem isOrphan_deleteMedium (hschema : FamilySchema g) {m : String} (h : isOrphan g m = true) (m' : String) :
    isOrphan (deleteMedium m g) m' = isOrphan g m' := by
  rw [Bool.eq_iff_iff, isOrphan_iff, isOrphan_iff, (deleteMedium_spec h).1]
  refine ⟨fun hall e he hkeeps => ?_, fun hall e he => hall e (List.mem_filter.mp he).1⟩
  refine hall e (List.mem_filter.mpr ⟨he, ?_⟩) hkeeps
  rw [Bool.not_eq_true', ← Bool.not_eq_true]
  intro hfamily
  obtain ⟨htype, _⟩ := of_decide_eq_true hfamily
  have hsrc : e.src ≠ mediumKey m' := hkeeps.2.resolve_left fun hne => hne htype
  have hlabel := hschema e he htype
  rw [hkeeps.1.resolve_left hsrc] at hlabel
  cases hlabel

/-- The prune medium by medium: what was an orphan is gone, with its IN_FAMILY edges. -/
theorem foldl_pruneRow (hschema : FamilySchema g) (media : List String) :
    (media.foldl pruneRow g).rels =
        g.rels.filter (fun e => !decide (e.type = .inFamily ∧ e.src ∈ (media.filter (isOrphan g)).map mediumKey)) ∧
      ∀ k, (media.foldl pruneRow g).node k =
        if k ∈ (media.filter (isOrphan g)).map mediumKey then none else g.node k := by
  induction media generalizing g with
  | nil => simp
  | cons m media ih =>
    rw [List.foldl_cons, pruneRow]
    by_cases horphan : isOrphan g m = true
    · obtain ⟨hrels, hnode⟩ := deleteMedium_spec horphan
      have hschema' : FamilySchema (deleteMedium m g) := by
        intro e he
        rw [hrels] at he
        exact hschema e (List.mem_filter.mp he).1
      obtain ⟨ihrels, ihnode⟩ := ih hschema'
      have hsame : isOrphan (deleteMedium m g) = isOrphan g := funext (isOrphan_deleteMedium hschema horphan)
      rw [if_pos horphan, List.filter_cons_of_pos horphan, List.map_cons]
      rw [hsame] at ihrels ihnode
      refine ⟨?_, fun k => ?_⟩
      · rw [ihrels, hrels, List.filter_filter]
        refine List.filter_congr fun e _ => ?_
        simp only [familyEdge, List.mem_cons, and_or_left, Bool.decide_or, Bool.not_or, Bool.and_comm]
      · rw [ihnode, hnode]
        simp only [List.mem_cons]
        by_cases hk : k = mediumKey m
        · rw [if_pos hk, ite_self, if_pos (Or.inl hk)]
        · rw [if_neg hk]
          simp only [hk, false_or]
    · rw [if_neg horphan, List.filter_cons_of_neg horphan]
      exact ih hschema

/-- The prune statement is the prune medium by medium. -/
theorem pruneOrphanMedium_eq (hschema : FamilySchema g) (media : List String) :
    pruneOrphanMedium media g =
      .ok (media.foldl pruneRow (media.foldl (fun g m => g.update (mediumKey m) (touch "_prune_lock")) g)) := by
  have hlocked : FamilySchema (media.foldl (fun g m => g.update (mediumKey m) (touch "_prune_lock")) g) := by
    intro e he
    rw [PropertyGraph.Graph.rels_foldl_update] at he
    exact hschema e he
  obtain ⟨g', hprune⟩ := exists_pruneOrphanMedium media g
  rw [hprune]
  unfold pruneOrphanMedium at hprune
  dsimp only at hprune
  split at hprune
  · rename_i hdelete
    cases hprune
    obtain ⟨hrels, hnode⟩ := PropertyGraph.Graph.deleteNodes_eq_some hdelete
    obtain ⟨hrels', hnode'⟩ := foldl_pruneRow hlocked media
    refine congrArg Except.ok (PropertyGraph.Graph.ext (funext fun k => ?_) ?_)
    · rw [hnode, hnode', PropertyGraph.Graph.node_deleteRels]
    · rw [hrels, hrels', PropertyGraph.Graph.rels_deleteRels]
  · cases hprune

/-- The summary statement, its rows one after another. -/
theorem releaseMediaSummaryBatch_eq (hschema : FamilySchema g) {media : List String}
    (hmedia : media = ((rows.flatMap fun row => (g.rels.filter (isStale row)).map (·.dst.id)).insertionSort
      (· ≤ ·)).dedup) :
    releaseMediaSummaryBatchCypher rows g =
      .ok (media.foldl pruneRow (media.foldl (fun g m => g.update (mediumKey m) (touch "_prune_lock"))
        (media.foldl (fun g m => g.deleteRels fun e => rows.any (isStale · e) && decide (e.dst = mediumKey m))
          (rows.foldl (fun g row => g.update (releaseKey row.discogsId) (setSummary row)) g)))) := by
  have hrels : (rows.foldl (fun g row => g.update (releaseKey row.discogsId) (setSummary row)) g).rels = g.rels :=
    PropertyGraph.Graph.rels_foldl_update rows g
  unfold releaseMediaSummaryBatchCypher
  dsimp only
  rw [hrels, ← sweptMedia_eq, ← hmedia]
  generalize rows.foldl (fun g row => g.update (releaseKey row.discogsId) (setSummary row)) g = summarized at hrels
  rw [pruneOrphanMedium_eq, foldl_sweep]
  · intro e he hstale
    rw [hrels] at he
    obtain ⟨row, hrow, hrowstale⟩ := hstale
    refine ⟨e.dst.id, ?_, ?_⟩
    · rw [hmedia, List.mem_dedup, List.mem_insertionSort, List.mem_flatMap]
      exact ⟨row, hrow, List.mem_map.mpr ⟨e, List.mem_filter.mpr ⟨he, hrowstale⟩, rfl⟩⟩
    · have hlabel : e.dst.label = .medium := (issuedBy_iff.mp (Bool.and_eq_true_iff.mp hrowstale).1).2
      rw [mediumKey, ← hlabel]
  · intro e he
    rw [PropertyGraph.Graph.rels_deleteRels, hrels] at he
    exact hschema e (List.mem_filter.mp he).1

end Statements

/-! ## The rows of a write -/

section Rows

variable {w : MediaWrite} {c : Graph}

/-- The transaction does rows, each on what it sees of the committed graph. -/
def Rows (w : MediaWrite) (c : Graph) : Writer → Writer → Prop :=
  Relation.ReflTransGen fun tx tx' => perform w (tx.own c) tx = tx'

variable (w c) in
/-- The rows of a statement that writes. -/
theorem rows_foldl {α : Type} {names media : List String} (pc : List α → Pc) (f : Graph → α → Graph)
    (h : ∀ x rest own, ∃ own', perform w (own c) ⟨pc (x :: rest), own, names, media⟩ = ⟨pc rest, own', names, media⟩ ∧
      own' c = f (own c) x) (xs : List α) (own : Graph → Graph) :
    ∃ own', Rows w c ⟨pc xs, own, names, media⟩ ⟨pc [], own', names, media⟩ ∧ own' c = xs.foldl f (own c) := by
  induction xs generalizing own with
  | nil => exact ⟨own, .refl, rfl⟩
  | cons x xs ih =>
    obtain ⟨own₁, hrow, hown₁⟩ := h x xs own
    obtain ⟨own₂, hrows, hown₂⟩ := ih own₁
    exact ⟨own₂, .head hrow hrows, by rw [hown₂, hown₁, List.foldl_cons]⟩

variable (w c) in
/-- The rows of a statement that collects what it finds, and writes nothing that it looks at. -/
theorem rows_found {names media : List String} (pc : List SummaryRow → List String → Pc)
    (finds : Graph → SummaryRow → List String) (f : Graph → SummaryRow → Graph)
    (h : ∀ row rest found own, ∃ own', perform w (own c) ⟨pc (row :: rest) found, own, names, media⟩ =
      ⟨pc rest (found ++ finds (own c) row), own', names, media⟩ ∧ own' c = f (own c) row)
    (hfinds : ∀ g row, finds (f g row) = finds g) (rows : List SummaryRow) (found : List String) (own : Graph → Graph) :
    ∃ own', Rows w c ⟨pc rows found, own, names, media⟩
      ⟨pc [] (found ++ rows.flatMap (finds (own c))), own', names, media⟩ ∧ own' c = rows.foldl f (own c) := by
  induction rows generalizing found own with
  | nil => exact ⟨own, by rw [List.flatMap_nil, List.append_nil]; exact .refl, rfl⟩
  | cons row rows ih =>
    obtain ⟨own₁, hrow, hown₁⟩ := h row rows found own
    obtain ⟨own₂, hrows, hown₂⟩ := ih (found ++ finds (own c) row) own₁
    refine ⟨own₂, .head hrow ?_, by rw [hown₂, hown₁, List.foldl_cons]⟩
    rwa [hown₁, hfinds, List.append_assoc, ← List.flatMap_cons] at hrows

/-- The two lock statements. -/
theorem rows_lock (w : MediaWrite) (c : Graph) :
    ∃ own names media, Rows w c { pc := .listingFamilies w.rows [] } ⟨.summarizing w.rows [], own, names, media⟩ ∧
      own c = lockMediaInOrder w.rows (w.items.map ReleaseItem.toMediaRow) c := by
  -- The families are listed, then locked, and after them the media.
  obtain ⟨own₁, hlist, hown₁⟩ := rows_found w c .listingFamilies
    (fun g row => staleFamilies g row.discogsId) (fun g _ => g) (fun _ _ _ own => ⟨own, rfl, rfl⟩) (fun _ _ => rfl)
    w.rows [] id
  have hsame : ∀ g : Graph, w.rows.foldl (fun g _ => g) g = g := fun _ => List.foldl_fixed w.rows
  rw [hsame] at hown₁
  obtain ⟨own₂, hlock, hown₂⟩ := rows_foldl w c .lockingFamilies lockFamily (fun _ _ _ => ⟨_, rfl, rfl⟩)
    (lockOrder w.args.families (w.rows.flatMap fun row => staleFamilies c row.discogsId)) own₁
  obtain ⟨own₃, hlist', hown₃⟩ := rows_found w c .listingMedia
    (fun g row => (g.rels.filter (isStale row)).map (·.dst.id)) (fun g _ => g) (fun _ _ _ own => ⟨own, rfl, rfl⟩)
    (fun _ _ => rfl) w.rows [] own₂
  rw [hsame] at hown₃
  obtain ⟨own₄, hlock', hown₄⟩ := rows_foldl w c .lockingMedia lockMedium (fun _ _ _ => ⟨_, rfl, rfl⟩)
    (targetOrder w.args (w.rows.flatMap fun row => ((own₂ c).rels.filter (isStale row)).map (·.dst.id))) own₃
  refine ⟨own₄, _, _, ((hlist.tail rfl).trans (hlock.tail rfl)).trans ((hlist'.tail rfl).trans (hlock'.tail rfl)), ?_⟩
  rw [← lockTargets_eq] at hown₄
  rw [← lockNames_eq] at hown₂
  rw [hown₄, hown₃, hown₂, hown₁]
  rfl

/-- The summary statement, the stale sweep and the prune. -/
theorem rows_summarize (w : MediaWrite) (hschema : FamilySchema c) (own : Graph → Graph)
    (hquiet : (own c).rels = c.rels) (names media : List String) :
    ∃ own' g, Rows w c ⟨.summarizing w.rows [], own, names, media⟩ ⟨.attaching w.items, own', names, media⟩ ∧
      releaseMediaSummaryBatchCypher w.rows (own c) = .ok g ∧ own' c = g := by
  obtain ⟨own₁, hsummarize, hown₁⟩ := rows_found w c .summarizing
    (fun g row => (g.rels.filter (isStale row)).map (·.dst.id))
    (fun g row => g.update (releaseKey row.discogsId) (setSummary row)) (fun _ _ _ _ => ⟨_, rfl, rfl⟩) (fun _ _ => rfl)
    w.rows [] own
  -- The summaries leave the relationships, so the media found are those of the graph before them.
  obtain ⟨swept, hswept⟩ : ∃ swept, swept = ((w.rows.flatMap fun row =>
      ((own c).rels.filter (isStale row)).map (·.dst.id)).insertionSort (· ≤ ·)).dedup := ⟨_, rfl⟩
  obtain ⟨own₂, hsweep, hown₂⟩ := rows_foldl w c (fun rest => .sweeping rest swept)
    (fun g m => g.deleteRels fun e => w.rows.any (isStale · e) && decide (e.dst = mediumKey m))
    (fun _ _ _ => ⟨_, rfl, rfl⟩) swept own₁
  obtain ⟨own₃, hlock, hown₃⟩ := rows_foldl w c (fun rest => .pruneLocking rest swept)
    (fun g m => g.update (mediumKey m) (touch "_prune_lock")) (fun _ _ _ => ⟨_, rfl, rfl⟩) swept own₂
  obtain ⟨own₄, hprune, hown₄⟩ := rows_foldl w c .pruning pruneRow (fun _ _ _ => ⟨_, rfl, rfl⟩) swept own₃
  have hschema' : FamilySchema (own c) := fun e he => hschema e (hquiet ▸ he)
  refine ⟨own₄, _, ?_, releaseMediaSummaryBatch_eq hschema' hswept, by rw [hown₄, hown₃, hown₂, hown₁]⟩
  rw [hswept] at hsweep hlock hprune
  exact ((hsummarize.tail rfl).trans (hsweep.tail rfl)).trans ((hlock.tail rfl).trans (hprune.tail rfl))

/-- The rows of a write, from its first statement to its last, do what the statements do. -/
theorem rows_reconcile (hschema : FamilySchema c) (w : MediaWrite) :
    ∃ own names media g, Rows w c { pc := .listingFamilies w.rows [] } ⟨.attaching [], own, names, media⟩ ∧
      releaseMediaSummaryBatchCypher w.rows (lockMediaInOrder w.rows (w.items.map ReleaseItem.toMediaRow) c) = .ok g ∧
      own c = releaseMediaEdgesBatchCypher w.items g := by
  obtain ⟨own₁, names, media, hlock, hown₁⟩ := rows_lock w c
  obtain ⟨own₂, g, hsummarize, hsummary, hown₂⟩ :=
    rows_summarize w hschema own₁ (by rw [hown₁, rels_lockMediaInOrder]) names media
  obtain ⟨own₃, hattach, hown₃⟩ := rows_foldl w c .attaching mergeItem (fun _ _ _ => ⟨_, rfl, rfl⟩)
    w.items own₂
  exact ⟨own₃, names, media, g, (hlock.trans hsummarize).trans hattach, hown₁ ▸ hsummary, by rw [hown₃, hown₂]; rfl⟩

/-- The media phase of the projections, its rows one after another. -/
theorem rows_reconcileBatch (hschema : FamilySchema c) {g : Graph} (h : reconcileBatch w.rows w.items c = .ok g) :
    ∃ own names media, Rows w c { pc := .listingFamilies w.rows [] } ⟨.attaching [], own, names, media⟩ ∧
      own c = g := by
  obtain ⟨own, names, media, summarized, hrows, hsummary, hown⟩ := rows_reconcile hschema w
  refine ⟨own, names, media, hrows, hown.trans ?_⟩
  unfold reconcileBatch at h
  split at h
  · -- Without a summary there are no rows to attach either, and nothing to prune.
    rename_i hempty
    cases h
    have hitems : w.items = [] := by
      refine List.eq_nil_iff_forall_not_mem.mpr fun item hitem => ?_
      obtain ⟨row, hrow, _⟩ := w.summarized item hitem
      rw [hempty] at hrow
      cases hrow
    rw [hempty, hitems] at hsummary
    have hnothing : releaseMediaSummaryBatchCypher [] (lockMediaInOrder [] [] c) = .ok c :=
      releaseMediaSummaryBatch_eq hschema rfl
    rw [hitems]
    exact Except.ok.inj (hsummary.symm.trans hnothing)
  · rw [hsummary] at h
    have hattach : (if w.items ≠ [] then releaseMediaEdgesBatchCypher w.items summarized else summarized) = g :=
      Except.ok.inj h
    rw [← hattach]
    by_cases hitems : w.items = []
    · rw [if_neg (not_not_intro hitems), hitems]
      rfl
    · rw [if_pos hitems]

end Rows

/-! ## Nobody in between -/

namespace Contention

variable {τ : Type} [DecidableEq τ] {writes : τ → MediaWrite} {s : Contention τ} {t : τ}

/-- Nobody but `t` holds a lock. -/
def Alone (s : Contention τ) (t : τ) : Prop := ∀ k t', s.locks k = some t' → t' = t

/-- One transition after another. -/
def Leads (writes : τ → MediaWrite) : Contention τ → Contention τ → Prop :=
  Relation.ReflTransGen fun s s' => ∃ e, step writes s e = some s'

variable (writes) in
/-- Alone, a transaction takes the locks of its next row and does it. -/
theorem exists_row (halone : s.Alone t) :
    ∃ locks, Leads writes s { s with
      locks := locks, tx := Function.update s.tx t (perform (writes t) ((s.tx t).own s.committed) (s.tx t)) } ∧
      ∀ k t', locks k = some t' → t' = t := by
  generalize hcount : ((needs (s.view t) (s.tx t).pc).filter fun k => s.locks k ≠ some t).length = missing
  induction missing using Nat.strongRecOn generalizing s with
  | ind missing ih =>
    subst hcount
    cases hwants : s.wants t with
    | none =>
      refine ⟨s.locks, .single ⟨.advances t, ?_⟩, halone⟩
      rw [step, hwants]
      rfl
    | some k =>
      have hk : s.locks k ≠ some t := by simpa using List.find?_some hwants
      have hfree : s.locks k = none := by
        cases hheld : s.locks k with
        | none => rfl
        | some t' => exact absurd (halone k t' hheld ▸ hheld) hk
      have htake : Locks.take t k s.locks = some (Function.update s.locks k (some t)) := if_pos (.inl hfree)
      have hstep : step writes s (.advances t) = some { s with locks := Function.update s.locks k (some t) } := by
        simp only [step, hwants]
        rw [htake]
        rfl
      have halone' : ({ s with locks := Function.update s.locks k (some t) } : Contention τ).Alone t := by
        intro k' t' hheld
        rcases (Locks.held_take htake).mp hheld with ⟨_, heq⟩ | hold
        · exact heq
        · exact halone k' t' hold
      -- The one lock it did not have is no longer missing.
      have hmissing : ((needs (s.view t) (s.tx t).pc).filter fun k' => Function.update s.locks k (some t) k' ≠ some t) =
          ((needs (s.view t) (s.tx t).pc).filter fun k' => s.locks k' ≠ some t).filter fun k' => k' ≠ k := by
        rw [List.filter_filter]
        refine List.filter_congr fun k' _ => ?_
        by_cases heq : k' = k
        · simp [heq]
        · simp [heq]
      have hfewer : ((needs (s.view t) (s.tx t).pc).filter fun k' =>
          Function.update s.locks k (some t) k' ≠ some t).length <
            ((needs (s.view t) (s.tx t).pc).filter fun k' => s.locks k' ≠ some t).length := by
        rw [hmissing, List.length_filter_lt_length_iff_exists]
        exact ⟨k, List.mem_filter.mpr ⟨List.mem_of_find?_eq_some hwants, decide_eq_true hk⟩, by simp⟩
      obtain ⟨locks, hleads, hlocks⟩ := ih _ hfewer halone' rfl
      exact ⟨locks, .head ⟨_, hstep⟩ hleads, hlocks⟩

variable (writes) in
/-- Alone, a transaction does rows as long as it has some. -/
theorem exists_rows {tx : Writer} (hrows : Rows (writes t) s.committed (s.tx t) tx) (halone : s.Alone t) :
    ∃ locks, Leads writes s { s with locks := locks, tx := Function.update s.tx t tx } ∧
      ∀ k t', locks k = some t' → t' = t := by
  induction hrows with
  | refl =>
    refine ⟨s.locks, ?_, halone⟩
    rw [Function.update_eq_self]
    exact .refl
  | tail _ hrow ih =>
    obtain ⟨locks, hleads, hlocks⟩ := ih
    obtain ⟨locks', hleads', hlocks'⟩ := exists_row writes (t := t)
      (s := { s with locks, tx := Function.update s.tx t _ }) hlocks
    refine ⟨locks', hleads.trans ?_, hlocks'⟩
    dsimp only at hleads'
    rwa [Function.update_self, Function.update_idem, hrow] at hleads'

/-- Nobody in between, the transaction commits the graph, and holds nothing any more. -/
def CommitsAlone (writes : τ → MediaWrite) (s : Contention τ) (t : τ) (g : Graph) : Prop :=
  ∃ s', Leads writes s s' ∧ s'.committed = g ∧ (∀ k, s'.locks k = none) ∧ (s'.tx t).pc = .ended true ∧
    ∀ t', t' ≠ t → s'.tx t' = s.tx t'

/-- What a write that runs alone commits is what its statements lead to. -/
theorem commitsAlone_of_reconcileBatch (hfree : ∀ k, s.locks k = none) (hschema : FamilySchema s.committed)
    (hstart : s.tx t = { pc := .listingFamilies (writes t).rows [] }) {g : Graph}
    (h : reconcileBatch (writes t).rows (writes t).items s.committed = .ok g) : CommitsAlone writes s t g := by
  obtain ⟨own, names, media, hrows, hown⟩ := rows_reconcileBatch hschema h
  obtain ⟨locks, hleads, hlocks⟩ := exists_rows writes (t := t) (hstart ▸ hrows) fun k t' hheld => by
    rw [hfree] at hheld
    cases hheld
  have hcommit : step writes { s with locks, tx := Function.update s.tx t ⟨.attaching [], own, names, media⟩ }
      (.commits t) = some
        { committed := g, locks := Locks.release t locks
          tx := Function.update s.tx t ⟨.ended true, id, names, media⟩ } := by
    simp only [step, view, Function.update_self, Function.update_idem, hown]
  refine ⟨_, hleads.tail ⟨.commits t, hcommit⟩, rfl, fun k => ?_, ?_, fun t' ht => ?_⟩
  · cases hheld : Locks.release t locks k with
    | none => exact hheld
    | some t' =>
      obtain ⟨hold, hne⟩ := Locks.held_release.mp hheld
      exact absurd (hlocks k t' hold) hne
  · dsimp only
    rw [Function.update_self]
  · exact Function.update_of_ne ht _ _

/-- The media phase of `enrich_releases_batch`. -/
theorem commitsAlone_ofBatch {rt : Runtime} {media : List (String × Option MediaBlock)}
    (hwrite : writes t = .ofBatch rt media) (hfree : ∀ k, s.locks k = none) (hschema : FamilySchema s.committed)
    (hstart : s.tx t = { pc := .listingFamilies (writes t).rows [] }) {g : Graph}
    (h : reconcileBatch (mediaSummaries rt media) (mediaItems rt media) s.committed = .ok g) :
    CommitsAlone writes s t g :=
  commitsAlone_of_reconcileBatch hfree hschema hstart (by rw [hwrite]; exact h)

/-- The media phase of `enrich_release`. -/
theorem commitsAlone_ofRelease {rt : Runtime} {id : String} {record : Dict} {media : MediaBlock}
    (hmedia : releaseMediaBlock rt record = some media) (hwrite : writes t = .ofRelease rt id media)
    (hfree : ∀ k, s.locks k = none) (hschema : FamilySchema s.committed)
    (hstart : s.tx t = { pc := .listingFamilies (writes t).rows [] }) {g : Graph}
    (h : reconcileReleaseMedia rt id record s.committed = .ok g) : CommitsAlone writes s t g := by
  refine commitsAlone_of_reconcileBatch hfree hschema hstart ?_
  have hrows : ((mediaEdgeRows rt media).map fun row => (⟨row, id⟩ : ReleaseItem)).map ReleaseItem.toMediaRow =
      mediaEdgeRows rt media := by
    rw [List.map_map]
    exact List.map_id _
  rw [hwrite, ← h, reconcileReleaseMedia, hmedia, MediaWrite.ofRelease, reconcileBatch, hrows]
  simp only [ne_eq, List.map_eq_nil_iff]
  rfl

end Contention

end MediaContention

end Brainzgraphinator
