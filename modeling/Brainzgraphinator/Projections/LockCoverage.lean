-- SUMMARY: The two lock statements lock every node the later rows of a release write touch, so the writes never deadlock.
import Mathlib.Data.Prod.Lex
import Mathlib.Data.String.Basic
import Brainzgraphinator.Base.Runs
import Brainzgraphinator.Projections.MediaContention
import Brainzgraphinator.Projections.MediaStatements

/-!
# Coverage of the lock statements

What a write locks with its two lock statements is all it writes afterwards, if every
family of its rows is the one of the first row of some medium. The first thing to
see is what the other writes can do to the graph between the listing and the prune: they
leave the ISSUED_ON edges of its releases alone, and a new IN_FAMILY edge they commit comes
with an ISSUED_ON edge that keeps the medium from being pruned.
-/

namespace Brainzgraphinator

namespace MediaContention

/-! ## What a row does to a graph -/

section Effects

/-- A release of the write is on the medium. -/
def Issued (w : MediaWrite) (g : Graph) (k : NodeKey) : Prop :=
  ∃ row ∈ w.rows, ∃ e ∈ g.rels, issuedBy row.discogsId e = true ∧ e.dst = k

/-- Neither lost nor gained are ISSUED_ON edges but of the write's own releases. -/
def Frames (w : MediaWrite) (f : Graph → Graph) : Prop :=
  ∀ g e, e.type = .issuedOn → (∀ row ∈ w.rows, issuedBy row.discogsId e = false) → (e ∈ (f g).rels ↔ e ∈ g.rels)

/-- No relationship is touched and no node deleted. -/
def Quiet (f : Graph → Graph) : Prop :=
  ∀ g, (f g).rels = g.rels ∧ ∀ k, (g.node k).isSome → ((f g).node k).isSome

structure Shrinks (w : MediaWrite) (f : Graph → Graph) : Prop where
  frames : Frames w f
  subset : ∀ g e, e ∈ (f g).rels → e ∈ g.rels

/-- A new IN_FAMILY edge goes to a family, and a release of the write is on its medium. -/
structure Attaches (w : MediaWrite) (f : Graph → Graph) : Prop where
  frames : Frames w f
  families : ∀ g e, e ∈ (f g).rels → e.type = .inFamily →
    e ∈ g.rels ∨ e.dst.label = .mediaFamily ∧ Issued w (f g) e.src

variable {w : MediaWrite} {f own : Graph → Graph}

theorem Frames.comp (hf : Frames w f) (h : Frames w own) : Frames w fun g => f (own g) :=
  fun g e htype hforeign => (hf (own g) e htype hforeign).trans (h g e htype hforeign)

theorem Quiet.comp (hf : Quiet f) (h : Quiet own) : Quiet fun g => f (own g) := fun g =>
  ⟨(hf (own g)).1.trans (h g).1, fun k hk => (hf (own g)).2 k ((h g).2 k hk)⟩

theorem Quiet.shrinks (h : Quiet f) : Shrinks w f where
  frames g e _ _ := by rw [(h g).1]
  subset g e he := (h g).1 ▸ he

theorem Shrinks.comp (hf : Shrinks w f) (h : Shrinks w own) : Shrinks w fun g => f (own g) where
  frames := hf.frames.comp h.frames
  subset g e he := h.subset g e (hf.subset (own g) e he)

theorem Shrinks.attaches (h : Shrinks w f) : Attaches w f where
  frames := h.frames
  families g e he _ := .inl (h.subset g e he)

theorem quiet_id : Quiet id := fun _ => ⟨rfl, fun _ hk => hk⟩

theorem quiet_lockFamily (name : String) : Quiet fun g => lockFamily g name := fun g =>
  ⟨rfl, fun _ hk => (isSome_node_lockFamily g name).mpr (.inr hk)⟩

theorem quiet_lockMedium (target : String × Option LockItem) : Quiet fun g => lockMedium g target := fun g =>
  ⟨rels_lockMedium g target, fun _ hk => (isSome_node_lockMedium g target).mpr (.inr hk)⟩

theorem quiet_update (k : NodeKey) (f : Props → Props) : Quiet fun g => g.update k f := fun g =>
  ⟨rfl, fun k' hk => by rwa [PropertyGraph.Graph.isSome_node_update]⟩

theorem shrinks_sweep (m : String) :
    Shrinks w fun g => g.deleteRels fun e => w.rows.any (isStale · e) && decide (e.dst = mediumKey m) where
  frames g e _ hforeign := by
    have hstale : w.rows.any (isStale · e) = false := by
      rw [List.any_eq_false]
      intro row hrow
      rw [isStale, hforeign row hrow]
      rintro ⟨⟩
    rw [PropertyGraph.Graph.rels_deleteRels, List.mem_filter, hstale]
    exact and_iff_left rfl
  subset g e he := (List.mem_filter.mp he).1

theorem rels_deleteMedium (m : String) (g : Graph) :
    (deleteMedium m g).rels = g.rels ∨ (deleteMedium m g).rels = g.rels.filter fun e => !familyEdge m e := by
  unfold deleteMedium
  cases hdelete : (g.deleteRels (familyEdge m)).deleteNodes [mediumKey m] with
  | none => exact .inl rfl
  | some g' => exact .inr (PropertyGraph.Graph.deleteNodes_eq_some hdelete).1

theorem shrinks_deleteMedium (m : String) : Shrinks w (deleteMedium m) where
  frames g e htype _ := by
    rcases rels_deleteMedium m g with h | h
    · rw [h]
    · have hkept : familyEdge m e = false := by
        rw [familyEdge, htype]
        exact decide_eq_false fun h => nomatch h.1
      rw [h, List.mem_filter, hkept]
      exact and_iff_left rfl
  subset g e he := by
    rcases rels_deleteMedium m g with h | h
    · exact h ▸ he
    · rw [h] at he
      exact (List.mem_filter.mp he).1

theorem issuedBy_iff {id : String} {e : Edge} :
    issuedBy id e = true ↔ mbIssued (releaseKey id) e.dst e = true ∧ e.dst.label = .medium := by
  simp only [issuedBy, mbIssued, decide_eq_true_eq]
  tauto

theorem issuedQtys_ne_nil {g : Graph} {s d : NodeKey} :
    issuedQtys g s d ≠ [] ↔ ∃ e ∈ g.rels, mbIssued s d e = true := by
  rw [issuedQtys, ne_eq, List.map_eq_nil_iff, List.filter_eq_nil_iff]
  simp only [not_forall, not_not, exists_prop]

/-- A row attaches its release, and takes none off its medium. -/
theorem issued_mergeItem {g : Graph} {item : ReleaseItem} {id : String} {k : NodeKey} (hmedium : k.label = .medium)
    (h : (∃ e ∈ g.rels, issuedBy id e = true ∧ e.dst = k) ∨
      (g.node (releaseKey item.discogsId)).isSome ∧ id = item.discogsId ∧ k = mediumKey item.medium) :
    ∃ e ∈ (mergeItem g item).rels, issuedBy id e = true ∧ e.dst = k := by
  have hqtys : issuedQtys (mergeItem g item) (releaseKey id) k ≠ [] := by
    by_cases hpair : (g.node (releaseKey item.discogsId)).isSome ∧ id = item.discogsId ∧ k = mediumKey item.medium
    · obtain ⟨hr, rfl, rfl⟩ := hpair
      rw [issuedQtys_mergeItem_self hr, ← List.length_pos_iff, length_settle]
      exact lt_of_lt_of_le Nat.zero_lt_one (le_max_left _ _)
    · obtain ⟨e, he, hissued, rfl⟩ := h.resolve_right hpair
      have hold := issuedQtys_ne_nil.mpr ⟨e, he, (issuedBy_iff.mp hissued).1⟩
      by_cases hr : (g.node (releaseKey item.discogsId)).isSome
      · rwa [issuedQtys_mergeItem_of_ne fun hsame => hpair ⟨hr, releaseKey_inj.mp hsame.1, hsame.2⟩]
      · rwa [mergeItem, if_neg hr]
  obtain ⟨e, he, hissued⟩ := issuedQtys_ne_nil.mp hqtys
  have hdst : e.dst = k := by
    simp only [mbIssued, decide_eq_true_eq] at hissued
    exact hissued.2.2.1
  subst hdst
  exact ⟨e, he, issuedBy_iff.mpr ⟨hissued, hmedium⟩, rfl⟩

/-- A row leaves what it neither merges nor creates. -/
theorem mem_mergeItem_of_disjoint {g : Graph} {item : ReleaseItem} {P : Edge → Bool} {e : Edge}
    (hfamily : ∀ e : Edge, e.type = .inFamily → e.src = mediumKey item.medium → e.dst = familyKey item.family →
      P e = false)
    (hissued : ∀ e : Edge, mbIssued (releaseKey item.discogsId) (mediumKey item.medium) e = true → P e = false)
    (he : P e = true) : e ∈ (mergeItem g item).rels ↔ e ∈ g.rels := by
  have hmem : ∀ es : List Edge, e ∈ es ↔ e ∈ es.filter P := by
    intro es
    rw [List.mem_filter]
    exact (and_iff_left he).symm
  rw [hmem, filter_rels_mergeItem_of_disjoint hfamily hissued, ← hmem]

theorem Attaches.mergeItem {item : ReleaseItem} (h : Attaches w own)
    (hitem : ∃ row ∈ w.rows, row.discogsId = item.discogsId) : Attaches w fun g => mergeItem (own g) item where
  frames g e htype hforeign := by
    refine Iff.trans ?_ (h.frames g e htype hforeign)
    obtain ⟨row, hrow, hid⟩ := hitem
    have hnot : mbIssued (releaseKey item.discogsId) (mediumKey item.medium) e = false := by
      rw [← Bool.not_eq_true]
      intro hissued
      have hdst : e.dst = mediumKey item.medium := by
        simp only [mbIssued, decide_eq_true_eq] at hissued
        exact hissued.2.2.1
      have hby : issuedBy row.discogsId e = true := by
        rw [issuedBy_iff, hid, hdst]
        exact ⟨hissued, rfl⟩
      rw [hforeign row hrow] at hby
      cases hby
    exact mem_mergeItem_of_disjoint
      (P := fun e => decide (e.type = .issuedOn) && !mbIssued (releaseKey item.discogsId) (mediumKey item.medium) e)
      (fun e htype _ _ => by simp [htype]) (fun e hissued => by simp [hissued]) (by simp [htype, hnot])
  families g e he htype := by
    by_cases hr : ((own g).node (releaseKey item.discogsId)).isSome
    · by_cases hsame : sameInFamily item.medium item.family e = true
      · simp only [sameInFamily, decide_eq_true_eq] at hsame
        obtain ⟨row, hrow, hid⟩ := hitem
        refine .inr ⟨by rw [hsame.2.2]; rfl, row, hrow, ?_⟩
        rw [hsame.2.1]
        exact issued_mergeItem rfl (.inr ⟨hr, hid, rfl⟩)
      · -- An edge of another medium or family was there before the row.
        have hmem : e ∈ (own g).rels :=
          (mem_mergeItem_of_disjoint
            (P := fun e => decide (e.type = .inFamily) && !sameInFamily item.medium item.family e)
            (fun e htype hsrc hdst => by simp [sameInFamily, htype, hsrc, hdst])
            (fun e hissued => by
              simp only [mbIssued, decide_eq_true_eq] at hissued
              simp [hissued.1]) (by simp [htype, hsame])).mp he
        rcases h.families g e hmem htype with hold | ⟨hlabel, row, hrow, hissued⟩
        · exact .inl hold
        · refine .inr ⟨hlabel, row, hrow, issued_mergeItem ?_ (.inl hissued)⟩
          obtain ⟨e', _, hby, hdst⟩ := hissued
          rw [← hdst]
          exact (issuedBy_iff.mp hby).2
    · rw [Brainzgraphinator.mergeItem, if_neg hr] at he ⊢
      exact h.families g e he htype

end Effects

/-! ## The order of the locks -/

section Order

theorem nodup_itemIds (edgeRows : List MediaRow) : (mediaLockArgs edgeRows).itemIds.Nodup := by
  have hlookup := OrderedDict.lookup_foldl_setDefault MediaRow.medium
    (fun row => LockItem.mk row.medium row.family row.label) edgeRows []
  simp only [List.lookup_nil, Option.none_or] at hlookup
  change ((mediaLockArgs edgeRows).items.map LockItem.medium).Nodup
  rw [List.Nodup, List.pairwise_map, mediaLockArgs, List.pairwise_filterMap]
  have hkeys : ((edgeRows.foldl (fun items row =>
      OrderedDict.setDefault row.medium (LockItem.mk row.medium row.family row.label) items) []).map Prod.fst).Nodup :=
    OrderedDict.nodup_keys_foldl_setDefault MediaRow.medium _ edgeRows List.nodup_nil
  refine ((List.perm_insertionSort _ _).nodup_iff.mpr hkeys).imp fun {a b} hne x hx y hy heq => hne ?_
  have hkey : ∀ {key : String} {item : LockItem},
      List.lookup key (edgeRows.foldl (fun items row =>
        OrderedDict.setDefault row.medium (LockItem.mk row.medium row.family row.label) items) []) = some item →
      item.medium = key := by
    intro key item hitem
    rw [hlookup] at hitem
    obtain ⟨row, hfind, rfl⟩ := Option.map_eq_some_iff.mp hitem
    simpa using List.find?_some hfind
  rw [← hkey hx, ← hkey hy]
  exact heq

/-- A sorted list without repetitions goes strictly up. -/
theorem pairwise_lt_insertionSort {names : List String} (h : names.Nodup) :
    (names.insertionSort (· ≤ ·)).Pairwise (· < ·) := by
  have hnodup : (names.insertionSort (· ≤ ·)).Nodup := (List.perm_insertionSort _ _).nodup_iff.mpr h
  exact (List.pairwise_insertionSort (· ≤ ·) names).imp₂ (fun _ _ hle hne => lt_of_le_of_ne hle hne) hnodup

theorem pairwise_lt_lockOrder (families found : List String) : (lockOrder families found).Pairwise (· < ·) :=
  pairwise_lt_insertionSort (List.nodup_dedup _)

theorem pairwise_lt_targetOrder (edgeRows : List MediaRow) (found : List String) :
    ((targetOrder (mediaLockArgs edgeRows) found).map Prod.fst).Pairwise (· < ·) := by
  rw [targetOrder, List.map_insertionSort (r := fun a b : String × Option LockItem => a.1 ≤ b.1)
    (s := fun a b : String => a ≤ b) Prod.fst _ fun _ _ _ _ => Iff.rfl]
  refine pairwise_lt_insertionSort ?_
  have hitems : (List.map Prod.fst ((mediaLockArgs edgeRows).items.map fun item : LockItem =>
      (item.medium, some item))) = (mediaLockArgs edgeRows).itemIds := by
    rw [List.map_map]
    rfl
  rw [List.map_append, hitems, List.map_map]
  refine List.nodup_append.mpr ⟨nodup_itemIds edgeRows, ?_, ?_⟩
  · exact (List.nodup_dedup found).filter _ |>.map Function.injective_id
  · intro a ha b hb heq
    obtain ⟨id, hid, rfl⟩ := List.mem_map.mp hb
    have hnot := of_decide_eq_true (List.mem_filter.mp hid).2
    exact hnot ((show a = id from heq) ▸ ha)

theorem mem_lockOrder {families found : List String} {name : String} :
    name ∈ lockOrder families found ↔ name ∈ families ∨ name ∈ found := by
  rw [lockOrder, List.mem_insertionSort, List.mem_dedup, List.mem_append, List.mem_dedup]

/-- The targets are the items' media and the stale ones. -/
theorem mem_targetOrder {args : MediaLockArgs} {found : List String} {target : String × Option LockItem} :
    target ∈ targetOrder args found ↔
      (∃ item ∈ args.items, (item.medium, some item) = target) ∨
        ∃ id ∈ found, id ∉ args.itemIds ∧ (id, none) = target := by
  simp [targetOrder, and_assoc]

end Order

/-! ## What a write has established -/

section Phases

variable {τ : Type} (writes : τ → MediaWrite) (c : Graph) (done : τ → Prop) (held : NodeKey → Prop) (w : MediaWrite)

/-- The families of the media that the releases of `rows` are on were found, but for those a
write brought that has committed, and has a release of its own there. -/
def Listed (rows : List SummaryRow) (found : List String) : Prop :=
  ∀ row ∈ rows, ∀ e ∈ c.rels, issuedBy row.discogsId e = true → ∀ e' ∈ c.rels, e'.type = .inFamily →
    e'.src = e.dst → e'.dst.id ∈ found ∨ ∃ t, done t ∧ Issued (writes t) c e.dst

def StaleListed (rows : List SummaryRow) (found : List String) : Prop :=
  ∀ row ∈ rows, ∀ e ∈ c.rels, isStale row e = true → e.dst.id ∈ found

/-- A medium to detach: it was listed, and a release of the write is on it. -/
def Detached (media : List String) (m : String) : Prop := m ∈ media ∧ Issued w c (mediumKey m)

/-- The families of the write's rows were listed, and all that was listed is held. -/
structure Locked (names media : List String) : Prop where
  families : ∀ item ∈ w.items, item.family ∈ names
  items : ∀ item ∈ w.items, item.medium ∈ media
  names_held : ∀ n ∈ names, held (familyKey n)
  media_held : ∀ m ∈ media, held (mediumKey m)

/-- What holds of a write where it is. -/
inductive Phase : Writer → Prop
  | listingFamilies {own names media rest found} (listed : List SummaryRow) (quiet : Quiet own) (free : ∀ k, ¬ held k)
      (rows : w.rows = listed ++ rest) (families : Listed writes c done listed found) :
      Phase ⟨.listingFamilies rest found, own, names, media⟩
  | lockingFamilies {own names media rest} (past : List String) (quiet : Quiet own) (split : names = past ++ rest)
      (sorted : names.Pairwise (· < ·)) (items : ∀ item ∈ w.items, item.family ∈ names)
      (past_held : ∀ n ∈ past, held (familyKey n))
      (only : ∀ k, held k → ∃ n ∈ past ++ rest.take 1, k = familyKey n)
      (families : Listed writes c done w.rows names) : Phase ⟨.lockingFamilies rest, own, names, media⟩
  | listingMedia {own names media rest found} (listed : List SummaryRow) (quiet : Quiet own)
      (items : ∀ item ∈ w.items, item.family ∈ names) (names_held : ∀ n ∈ names, held (familyKey n))
      (only : ∀ k, held k → ∃ n ∈ names, k = familyKey n) (families : Listed writes c done w.rows names)
      (rows : w.rows = listed ++ rest) (stale : StaleListed c listed found)
      (issued : ∀ m ∈ found, Issued w c (mediumKey m)) : Phase ⟨.listingMedia rest found, own, names, media⟩
  | lockingMedia {own names media rest} (past : List String) (quiet : Quiet own)
      (items : ∀ item ∈ w.items, item.family ∈ names) (items' : ∀ item ∈ w.items, item.medium ∈ media)
      (names_held : ∀ n ∈ names, held (familyKey n))
      (split : media = past ++ rest.map Prod.fst) (sorted : media.Pairwise (· < ·))
      (past_held : ∀ m ∈ past, held (mediumKey m))
      (only : ∀ k, held k → (∃ n ∈ names, k = familyKey n) ∨
        ∃ m ∈ past ++ (rest.map Prod.fst).take 1, k = mediumKey m)
      (families : Listed writes c done w.rows names) (stale : StaleListed c w.rows media)
      (issued : ∀ target ∈ rest, target.2 = none → Issued w c (mediumKey target.1)) :
      Phase ⟨.lockingMedia rest, own, names, media⟩
  | summarizing {own names media rest found} (quiet : Quiet own) (locked : Locked held w names media)
      (families : Listed writes c done w.rows names) (stale : StaleListed c w.rows media)
      (suffix : rest ⊆ w.rows) (detached : ∀ m ∈ found, Detached c w media m) :
      Phase ⟨.summarizing rest found, own, names, media⟩
  | sweeping {own names media rest all} (shrinks : Shrinks w own) (locked : Locked held w names media)
      (families : Listed writes c done w.rows names) (detached : ∀ m ∈ all, Detached c w media m)
      (suffix : rest ⊆ all) : Phase ⟨.sweeping rest all, own, names, media⟩
  | pruneLocking {own names media rest all} (shrinks : Shrinks w own) (locked : Locked held w names media)
      (families : Listed writes c done w.rows names) (detached : ∀ m ∈ all, Detached c w media m)
      (suffix : rest ⊆ all) : Phase ⟨.pruneLocking rest all, own, names, media⟩
  | pruning {own names media rest} (shrinks : Shrinks w own) (locked : Locked held w names media)
      (families : Listed writes c done w.rows names) (detached : ∀ m ∈ rest, Detached c w media m) :
      Phase ⟨.pruning rest, own, names, media⟩
  | attaching {own names media rest} (attaches : Attaches w own) (locked : Locked held w names media)
      (suffix : rest ⊆ w.items) : Phase ⟨.attaching rest, own, names, media⟩
  | ended {own names media committed} (free : ∀ k, ¬ held k) (idle : own = id) :
      Phase ⟨.ended committed, own, names, media⟩

/-- The write is at a lock statement. -/
def Pc.locks : Pc → Bool
  | .lockingFamilies _ | .lockingMedia _ => true
  | _ => false

/-- Where a lock stands in the global order: the families by name, then the media by id. -/
def rank (k : NodeKey) : ℕ ×ₗ String :=
  toLex (match k.label with | .mediaFamily => 0 | .medium => 1 | _ => 2, k.id)

variable {writes c done held w} {tx : Writer}

theorem rank_familyKey_lt {a b : String} (h : a < b) : rank (familyKey a) < rank (familyKey b) :=
  Prod.Lex.lt_iff.mpr (.inr ⟨rfl, h⟩)

theorem rank_mediumKey_lt {a b : String} (h : a < b) : rank (mediumKey a) < rank (mediumKey b) :=
  Prod.Lex.lt_iff.mpr (.inr ⟨rfl, h⟩)

theorem rank_familyKey_lt_mediumKey (a b : String) : rank (familyKey a) < rank (mediumKey b) :=
  Prod.Lex.lt_iff.mpr (.inl Nat.zero_lt_one)

theorem Listed.mono {rows : List SummaryRow} {found found' : List String} (h : Listed writes c done rows found)
    (hsub : found ⊆ found') : Listed writes c done rows found' :=
  fun row hrow e he hby e' he' htype hsrc => (h row hrow e he hby e' he' htype hsrc).imp_left fun hmem => hsub hmem

theorem StaleListed.mono {rows : List SummaryRow} {found found' : List String} (h : StaleListed c rows found)
    (hsub : found ⊆ found') : StaleListed c rows found' := fun row hrow e he hstale => hsub (h row hrow e he hstale)

theorem Locked.mono {held' : NodeKey → Prop} {names media : List String} (h : Locked held w names media)
    (hheld : ∀ k, held k → held' k) : Locked held' w names media where
  families := h.families
  items := h.items
  names_held n hn := hheld _ (h.names_held n hn)
  media_held m hm := hheld _ (h.media_held m hm)

/-- What a write has established stays so while the others do not take it away. -/
theorem Phase.mono {c' : Graph} {done' : τ → Prop} {held' : NodeKey → Prop} (h : Phase writes c done held w tx)
    (hheld : ∀ k, held' k ↔ held k)
    (hlisted : ∀ rows ⊆ w.rows, ∀ found, Listed writes c done rows found → Listed writes c' done' rows found)
    (hstale : ∀ rows ⊆ w.rows, ∀ found, StaleListed c rows found → StaleListed c' rows found)
    (hissued : ∀ k, Issued w c k → Issued w c' k) : Phase writes c' done' held' w tx := by
  have hlocked : ∀ {names media}, Locked held w names media → Locked held' w names media :=
    fun h => h.mono fun k => (hheld k).mpr
  have hall := hlisted w.rows (List.Subset.refl _)
  have hlistedSub : ∀ {listed rest : List SummaryRow}, w.rows = listed ++ rest → listed ⊆ w.rows := by
    intro listed rest heq
    rw [heq]
    exact List.subset_append_left _ _
  have hdetached : ∀ {media m}, Detached c w media m → Detached c' w media m := fun h => ⟨h.1, hissued _ h.2⟩
  cases h with
  | listingFamilies listed quiet free rows families =>
    exact .listingFamilies listed quiet (fun k hk => free k ((hheld k).mp hk)) rows (hlisted _ (hlistedSub rows) _ families)
  | lockingFamilies past quiet split sorted items past_held only families =>
    exact .lockingFamilies past quiet split sorted items (fun n hn => (hheld _).mpr (past_held n hn))
      (fun k hk => only k ((hheld k).mp hk)) (hall _ families)
  | listingMedia listed quiet items names_held only families rows stale issued =>
    exact .listingMedia listed quiet items (fun n hn => (hheld _).mpr (names_held n hn))
      (fun k hk => only k ((hheld k).mp hk)) (hall _ families) rows (hstale _ (hlistedSub rows) _ stale)
      (fun m hm => hissued _ (issued m hm))
  | lockingMedia past quiet items items' names_held split sorted past_held only families stale issued =>
    exact .lockingMedia past quiet items items' (fun n hn => (hheld _).mpr (names_held n hn)) split sorted
      (fun m hm => (hheld _).mpr (past_held m hm)) (fun k hk => only k ((hheld k).mp hk)) (hall _ families)
      (hstale _ (List.Subset.refl _) _ stale) (fun target htarget hnone => hissued _ (issued target htarget hnone))
  | summarizing quiet locked families stale suffix detached =>
    exact .summarizing quiet (hlocked locked) (hall _ families) (hstale _ (List.Subset.refl _) _ stale) suffix
      fun m hm => hdetached (detached m hm)
  | sweeping shrinks locked families detached suffix =>
    exact .sweeping shrinks (hlocked locked) (hall _ families) (fun m hm => hdetached (detached m hm)) suffix
  | pruneLocking shrinks locked families detached suffix =>
    exact .pruneLocking shrinks (hlocked locked) (hall _ families) (fun m hm => hdetached (detached m hm)) suffix
  | pruning shrinks locked families detached =>
    exact .pruning shrinks (hlocked locked) (hall _ families) fun m hm => hdetached (detached m hm)
  | attaching attaches locked suffix => exact .attaching attaches (hlocked locked) suffix
  | ended free idle => exact .ended (fun k hk => free k ((hheld k).mp hk)) idle

/-! ## Coverage and order -/

/-- `(:Medium)-[:IN_FAMILY]->(:MediaFamily)`, the schema of the graph. -/
def FamilySchema (g : Graph) : Prop := ∀ e ∈ g.rels, e.type = .inFamily → e.dst.label = .mediaFamily

theorem eq_familyKey {k : NodeKey} (h : k.label = .mediaFamily) : k = familyKey k.id := by
  rw [familyKey, ← h]

/-- An edge of a release belongs to no other write. -/
theorem issuedBy_eq_false {id id' : String} {e : Edge} (h : issuedBy id e = true) (hne : id ≠ id') :
    issuedBy id' e = false := by
  simp only [issuedBy, decide_eq_true_eq] at h
  simp only [issuedBy, decide_eq_false_iff_not]
  rintro ⟨_, hsrc, _⟩
  exact hne (releaseKey_inj.mp (h.2.1.symm.trans hsrc))

theorem type_of_issuedBy {id : String} {e : Edge} (h : issuedBy id e = true) : e.type = .issuedOn := by
  simp only [issuedBy, decide_eq_true_eq] at h
  exact h.1

/-- The releases of the writes that have committed are not those of this one. -/
def Apart (writes : τ → MediaWrite) (done : τ → Prop) (w : MediaWrite) : Prop :=
  ∀ t, done t → ∀ row ∈ (writes t).rows, ∀ row' ∈ w.rows, row.discogsId ≠ row'.discogsId

/-- What the rows after the lock statements write is held: the prune finds no IN_FAMILY edge but
to a family that was listed, since the release that came with another would keep the medium. -/
theorem Phase.covered (h : Phase writes c done held w tx) (hapart : Apart writes done w) (hschema : FamilySchema c)
    (hpast : tx.pc.locks = false) : ∀ k ∈ needs (tx.own c) tx.pc, held k := by
  intro k hk
  cases h with
  | listingFamilies | listingMedia | summarizing | ended => exact absurd hk List.not_mem_nil
  | lockingFamilies | lockingMedia => cases hpast
  | @sweeping _ _ _ rest _ _ locked _ detached suffix =>
    cases rest with
    | nil => exact absurd hk List.not_mem_nil
    | cons m rest =>
      rw [List.mem_singleton.mp hk]
      exact locked.media_held m (detached m (suffix List.mem_cons_self)).1
  | @pruneLocking _ _ _ rest _ _ locked _ detached suffix =>
    cases rest with
    | nil => exact absurd hk List.not_mem_nil
    | cons m rest =>
      rw [List.mem_singleton.mp hk]
      exact locked.media_held m (detached m (suffix List.mem_cons_self)).1
  | @pruning own names media rest shrinks locked families detached =>
    cases rest with
    | nil => exact absurd hk List.not_mem_nil
    | cons m rest =>
      obtain ⟨hlisted, row, hrow, e, he, hby, hdst⟩ := detached m List.mem_cons_self
      change k ∈ (if isOrphan (own c) m = true then _ else _) at hk
      split at hk
      · rename_i horphan
        rcases List.mem_cons.mp hk with rfl | hk
        · exact locked.media_held m hlisted
        · obtain ⟨e', he', rfl⟩ := List.mem_map.mp hk
          obtain ⟨he', hfamily⟩ := List.mem_filter.mp he'
          have hfamily := of_decide_eq_true hfamily
          have he'c := shrinks.subset c e' he'
          rcases families row hrow e he hby e' he'c hfamily.1 (hfamily.2.trans hdst.symm) with hmem | hother
          · rw [eq_familyKey (hschema e' he'c hfamily.1)]
            exact locked.names_held _ hmem
          · obtain ⟨t, ht, row', hrow', e'', he'', hby', hdst'⟩ := hother
            have hview : e'' ∈ (own c).rels :=
              (shrinks.frames c e'' (type_of_issuedBy hby') fun row'' hrow'' =>
                issuedBy_eq_false hby' (hapart t ht row' hrow' row'' hrow'')).mpr he''
            refine absurd ⟨.inr (hdst'.trans hdst), .inl ?_⟩ (isOrphan_iff.mp horphan e'' hview)
            rw [type_of_issuedBy hby']
            nofun
      · exact absurd hk List.not_mem_nil
  | @attaching own names media rest attaches locked suffix =>
    cases rest with
    | nil => exact absurd hk List.not_mem_nil
    | cons item rest =>
      have hitem := suffix List.mem_cons_self
      change k ∈ mergeKeys (own c) item at hk
      unfold mergeKeys at hk
      split at hk
      · rcases List.mem_append.mp hk with hk | hk
        · obtain ⟨_, hk⟩ := List.mem_ite_nil_right.mp hk
          rw [List.mem_singleton.mp hk]
          exact locked.media_held _ (locked.items item hitem)
        · obtain ⟨_, hk⟩ := List.mem_ite_nil_right.mp hk
          rw [List.mem_singleton.mp hk]
          exact locked.names_held _ (locked.families item hitem)
      · exact absurd hk List.not_mem_nil

/-- A lock that is still to be taken is above all that are held. -/
theorem Phase.ordered (h : Phase writes c done held w tx) (hapart : Apart writes done w) (hschema : FamilySchema c)
    {k k' : NodeKey} (hk : k ∈ needs (tx.own c) tx.pc) (hnot : ¬ held k) (hheld : held k') : rank k' < rank k := by
  cases hlocks : tx.pc.locks with
  | false => exact absurd (h.covered hapart hschema hlocks k hk) hnot
  | true =>
    cases h with
    | @lockingFamilies own names media rest past quiet split sorted items past_held only families =>
      cases rest with
      | nil => exact absurd hk List.not_mem_nil
      | cons name rest =>
        have hk := List.mem_singleton.mp hk
        obtain ⟨n, hn, rfl⟩ := only k' hheld
        rw [split, List.pairwise_append] at sorted
        rcases List.mem_append.mp hn with hn | hn
        · rw [hk]
          exact rank_familyKey_lt (sorted.2.2 n hn name List.mem_cons_self)
        · rw [List.mem_singleton.mp hn, ← hk] at hheld
          exact absurd hheld hnot
    | @lockingMedia own names media rest past quiet items items' names_held split sorted past_held only families
        stale issued =>
      cases rest with
      | nil => exact absurd hk List.not_mem_nil
      | cons target rest =>
        have hk := List.mem_singleton.mp (List.mem_ite_nil_right.mp hk).2
        rw [hk]
        rcases only k' hheld with ⟨n, _, rfl⟩ | ⟨m, hm, rfl⟩
        · exact rank_familyKey_lt_mediumKey n target.1
        · rw [split, List.pairwise_append] at sorted
          rcases List.mem_append.mp hm with hm | hm
          · exact rank_mediumKey_lt (sorted.2.2 m hm target.1 List.mem_cons_self)
          · rw [List.mem_singleton.mp hm, ← hk] at hheld
            exact absurd hheld hnot
    | listingFamilies | listingMedia | summarizing | sweeping | pruneLocking | pruning | attaching | ended =>
      cases hlocks

/-! ## Steps -/

/-- A lock is taken: one of a lock statement. -/
theorem Phase.take {held' : NodeKey → Prop} (h : Phase writes c done held w tx) (hapart : Apart writes done w)
    (hschema : FamilySchema c) {k : NodeKey} (hk : k ∈ needs (tx.own c) tx.pc) (hnot : ¬ held k)
    (hheld : ∀ k', held' k' ↔ k' = k ∨ held k') : Phase writes c done held' w tx := by
  cases hlocks : tx.pc.locks with
  | false => exact absurd (h.covered hapart hschema hlocks k hk) hnot
  | true =>
    cases h with
    | @lockingFamilies own names media rest past quiet split sorted items past_held only families =>
      cases rest with
      | nil => exact absurd hk List.not_mem_nil
      | cons name rest =>
        refine .lockingFamilies past quiet split sorted items (fun n hn => (hheld _).mpr (.inr (past_held n hn)))
          (fun k' hk' => ?_) families
        rcases (hheld k').mp hk' with rfl | hk'
        · exact ⟨name, List.mem_append_right _ (List.mem_singleton_self _), List.mem_singleton.mp hk⟩
        · exact only k' hk'
    | @lockingMedia own names media rest past quiet items items' names_held split sorted past_held only families
        stale issued =>
      cases rest with
      | nil => exact absurd hk List.not_mem_nil
      | cons target rest =>
        refine .lockingMedia past quiet items items' (fun n hn => (hheld _).mpr (.inr (names_held n hn))) split sorted
          (fun m hm => (hheld _).mpr (.inr (past_held m hm))) (fun k' hk' => ?_) families stale issued
        rcases (hheld k').mp hk' with rfl | hk'
        · exact .inr ⟨target.1, List.mem_append_right _ (List.mem_singleton_self _),
            List.mem_singleton.mp (List.mem_ite_nil_right.mp hk).2⟩
        · exact only k' hk'
    | listingFamilies | listingMedia | summarizing | sweeping | pruneLocking | pruning | attaching | ended =>
      cases hlocks

/-- The rows of one message have a family each. -/
theorem firstFamilies_ofRelease (rt : Runtime) (id : String) (media : MediaBlock) :
    (MediaWrite.ofRelease rt id media).FirstFamilies := by
  intro item hitem
  refine ⟨item, hitem, rfl, ?_⟩
  have hnodup : ((MediaWrite.ofRelease rt id media).items.map fun item => item.medium).Nodup := by
    change (((mediaEdgeRows rt media).map fun row => (⟨row, id⟩ : ReleaseItem)).map fun item => item.medium).Nodup
    rw [List.map_map]
    exact mediaEdgeRows_nodup rt media
  obtain ⟨first, hfind, hmedium⟩ := OrderedDict.exists_find?_key (fun item : ReleaseItem => item.medium) hitem
  rw [hfind, List.inj_on_of_nodup_map hnodup (List.mem_of_find?_eq_some hfind) hitem hmedium]

/-- The rows of a batch have it, if no two blocks put a medium into different families. -/
theorem firstFamilies_ofBatch (rt : Runtime) {media : List (String × Option MediaBlock)}
    (h : ∀ p ∈ media, ∀ q ∈ media, ∀ block ∈ p.2, ∀ block' ∈ q.2, ∀ row ∈ mediaEdgeRows rt block,
      ∀ row' ∈ mediaEdgeRows rt block', row.medium = row'.medium → row.family = row'.family) :
    (MediaWrite.ofBatch rt media).FirstFamilies := by
  have hrow : ∀ item ∈ (MediaWrite.ofBatch rt media).items, ∃ p ∈ media, ∃ block ∈ p.2,
      item.toMediaRow ∈ mediaEdgeRows rt block := by
    intro item hitem
    obtain ⟨⟨id, block⟩, hp, hitem⟩ := List.mem_flatMap.mp ((List.mem_insertionSort _).mp hitem)
    cases block with
    | none => cases hitem
    | some block =>
      obtain ⟨row, hrow, rfl⟩ := List.mem_map.mp hitem
      exact ⟨_, hp, block, rfl, hrow⟩
  intro item hitem
  obtain ⟨first, hfind, hmedium⟩ := OrderedDict.exists_find?_key (fun item : ReleaseItem => item.medium) hitem
  have hfirst := List.mem_of_find?_eq_some hfind
  obtain ⟨p, hp, block, hblock, hfirstrow⟩ := hrow first hfirst
  obtain ⟨q, hq, block', hblock', hitemrow⟩ := hrow item hitem
  refine ⟨first, hfirst, h p hp q hq block hblock block' hblock' _ hfirstrow _ hitemrow hmedium, ?_⟩
  rw [hmedium]
  exact hfind

/-- The families the items are locked by. -/
theorem family_mem_args (hfirst : w.FirstFamilies) {item : ReleaseItem} (hitem : item ∈ w.items) :
    item.family ∈ w.args.families := by
  obtain ⟨first, hmem, hfamily, hfind⟩ := hfirst item hitem
  have hrow : ((w.items.map ReleaseItem.toMediaRow).find? fun row => row.medium = first.medium) =
      some first.toMediaRow := by
    rw [List.find?_map]
    exact congrArg (Option.map ReleaseItem.toMediaRow) hfind
  have hlock : LockItem.mk first.medium first.family first.label ∈ w.args.items :=
    mem_mediaLockArgs_items.mpr ⟨first.toMediaRow, hrow, rfl⟩
  change item.family ∈ ((w.args.items.map LockItem.family).dedup.insertionSort (· ≤ ·))
  rw [List.mem_insertionSort, List.mem_dedup, ← hfamily]
  exact List.mem_map.mpr ⟨_, hlock, rfl⟩

theorem medium_mem_targets {item : ReleaseItem} (hitem : item ∈ w.items) (found : List String) :
    item.medium ∈ (targetOrder w.args found).map Prod.fst := by
  have hid : item.medium ∈ w.args.itemIds :=
    mem_mediaLockArgs_itemIds.mpr ⟨item.toMediaRow, List.mem_map_of_mem hitem, rfl⟩
  obtain ⟨locked, hlocked, hmedium⟩ := List.mem_map.mp (show item.medium ∈ w.args.items.map LockItem.medium from hid)
  exact List.mem_map.mpr ⟨_, mem_targetOrder.mpr (.inl ⟨locked, hlocked, rfl⟩), hmedium⟩

/-- Every stale medium is a target. -/
theorem found_subset_targets (w : MediaWrite) (found : List String) :
    found ⊆ (targetOrder w.args found).map Prod.fst := by
  intro id hid
  rw [List.mem_map]
  by_cases hitem : id ∈ w.args.itemIds
  · obtain ⟨locked, hlocked, hmedium⟩ := List.mem_map.mp (show id ∈ w.args.items.map LockItem.medium from hitem)
    exact ⟨_, mem_targetOrder.mpr (.inl ⟨locked, hlocked, rfl⟩), hmedium⟩
  · exact ⟨_, mem_targetOrder.mpr (.inr ⟨id, hid, hitem, rfl⟩), rfl⟩

theorem dst_eq_mediumKey {id : String} {e : Edge} (h : issuedBy id e = true) : e.dst = mediumKey e.dst.id := by
  rw [mediumKey, ← (issuedBy_iff.mp h).2]

/-- The media a row reads as stale, of a write that has changed no relationship yet. -/
theorem issued_of_stale {own : Graph → Graph} (hquiet : Quiet own) {row : SummaryRow} (hrow : row ∈ w.rows)
    {m : String} (hm : m ∈ ((own c).rels.filter (isStale row)).map (·.dst.id)) :
    Issued w c (mediumKey m) ∧ ∃ e ∈ c.rels, isStale row e = true ∧ e.dst.id = m := by
  obtain ⟨e, he, rfl⟩ := List.mem_map.mp hm
  obtain ⟨he, hstale⟩ := List.mem_filter.mp he
  rw [(hquiet c).1] at he
  have hby : issuedBy row.discogsId e = true := (Bool.and_eq_true_iff.mp hstale).1
  exact ⟨⟨row, hrow, e, he, hby, dst_eq_mediumKey hby⟩, e, he, hstale, rfl⟩

theorem listed_snoc {own : Graph → Graph} {listed : List SummaryRow} {found : List String} {row : SummaryRow}
    (hquiet : Quiet own) (hschema : FamilySchema c) (h : Listed writes c done listed found) :
    Listed writes c done (listed ++ [row]) (found ++ staleFamilies (own c) row.discogsId) := by
  intro row' hrow' e he hby e' he' htype hsrc
  rcases List.mem_append.mp hrow' with hrow' | hrow'
  · exact h.mono (List.subset_append_left _ _) row' hrow' e he hby e' he' htype hsrc
  · rw [List.mem_singleton.mp hrow'] at hby
    refine .inl (List.mem_append_right _ (List.mem_flatMap.mpr ⟨e, ?_, List.mem_map.mpr ⟨e', ?_, rfl⟩⟩))
    · rw [(hquiet c).1]
      exact List.mem_filter.mpr ⟨he, hby⟩
    · rw [(hquiet c).1]
      exact List.mem_filter.mpr ⟨he', decide_eq_true ⟨htype, hsrc, hschema e' he' htype⟩⟩

section Rows

variable {own : Graph → Graph} {names media : List String}

theorem Phase.perform_listingFamilies {rest : List SummaryRow} {found : List String} (hfirst : w.FirstFamilies)
    (hschema : FamilySchema c) (h : Phase writes c done held w ⟨.listingFamilies rest found, own, names, media⟩) :
    Phase writes c done held w (perform w (own c) ⟨.listingFamilies rest found, own, names, media⟩) := by
  cases h with
  | listingFamilies listed quiet free rows families =>
    cases rest with
    | cons row rest =>
      refine .listingFamilies (listed ++ [row]) quiet free ?_ (listed_snoc quiet hschema families)
      rw [rows, List.append_assoc]
      rfl
    | nil =>
      rw [List.append_nil] at rows
      rw [← rows] at families
      exact .lockingFamilies [] quiet rfl (pairwise_lt_lockOrder _ _)
        (fun item hitem => mem_lockOrder.mpr (.inl (family_mem_args hfirst hitem)))
        (fun n hn => absurd hn List.not_mem_nil) (fun k hk => absurd hk (free k))
        (families.mono fun n hn => mem_lockOrder.mpr (.inr hn))

theorem Phase.perform_lockingFamilies {rest : List String} (hneeds : ∀ k ∈ needs (own c) (.lockingFamilies rest), held k)
    (h : Phase writes c done held w ⟨.lockingFamilies rest, own, names, media⟩) :
    Phase writes c done held w (perform w (own c) ⟨.lockingFamilies rest, own, names, media⟩) := by
  cases h with
  | lockingFamilies past quiet split sorted items past_held only families =>
    cases rest with
    | cons name rest =>
      refine .lockingFamilies (past ++ [name]) ((quiet_lockFamily name).comp quiet) ?_ sorted items
        (fun n hn => ?_) (fun k hk => ?_) families
      · rw [split, List.append_assoc]
        rfl
      · rcases List.mem_append.mp hn with hn | hn
        · exact past_held n hn
        · rw [List.mem_singleton.mp hn]
          exact hneeds _ (List.mem_singleton_self _)
      · obtain ⟨n, hn, hkey⟩ := only k hk
        exact ⟨n, List.mem_append_left _ hn, hkey⟩
    | nil =>
      rw [List.append_nil] at split
      refine .listingMedia [] quiet items (fun n hn => past_held n (split ▸ hn)) (fun k hk => ?_) families
        rfl (fun row hrow => absurd hrow List.not_mem_nil) fun m hm => absurd hm List.not_mem_nil
      obtain ⟨n, hn, hkey⟩ := only k hk
      rw [List.take_nil, List.append_nil] at hn
      exact ⟨n, split ▸ hn, hkey⟩

theorem Phase.perform_listingMedia {rest : List SummaryRow} {found : List String}
    (h : Phase writes c done held w ⟨.listingMedia rest found, own, names, media⟩) :
    Phase writes c done held w (perform w (own c) ⟨.listingMedia rest found, own, names, media⟩) := by
  cases h with
  | listingMedia listed quiet items names_held only families rows stale issued =>
    cases rest with
    | cons row rest =>
      have hrow : row ∈ w.rows := by
        rw [rows]
        exact List.mem_append_right _ List.mem_cons_self
      refine .listingMedia (listed ++ [row]) quiet items names_held only families ?_ ?_ fun m hm => ?_
      · rw [rows, List.append_assoc]
        rfl
      · intro row' hrow' e he hstale
        rcases List.mem_append.mp hrow' with hrow' | hrow'
        · exact List.mem_append_left _ (stale row' hrow' e he hstale)
        · rw [List.mem_singleton.mp hrow'] at hstale
          refine List.mem_append_right _ (List.mem_map.mpr ⟨e, List.mem_filter.mpr ⟨?_, hstale⟩, rfl⟩)
          rwa [(quiet c).1]
      · rcases List.mem_append.mp hm with hm | hm
        · exact issued m hm
        · exact (issued_of_stale quiet hrow hm).1
    | nil =>
      rw [List.append_nil] at rows
      rw [← rows] at stale
      refine .lockingMedia [] quiet items (fun item hitem => medium_mem_targets hitem found) names_held rfl
        (pairwise_lt_targetOrder _ _) (fun m hm => absurd hm List.not_mem_nil) (fun k hk => .inl (only k hk)) families
        (stale.mono (found_subset_targets w found)) fun target htarget hnone => ?_
      rcases mem_targetOrder.mp htarget with ⟨item, _, rfl⟩ | ⟨id, hid, _, rfl⟩
      · cases hnone
      · exact issued id hid

theorem Phase.perform_lockingMedia {rest : List (String × Option LockItem)}
    (hneeds : ∀ k ∈ needs (own c) (.lockingMedia rest), held k)
    (h : Phase writes c done held w ⟨.lockingMedia rest, own, names, media⟩) :
    Phase writes c done held w (perform w (own c) ⟨.lockingMedia rest, own, names, media⟩) := by
  cases h with
  | lockingMedia past quiet items items' names_held split sorted past_held only families stale issued =>
    cases rest with
    | cons target rest =>
      -- A stale medium is there, for the edge that was found is.
      have hheld : held (mediumKey target.1) := by
        refine hneeds _ (List.mem_ite_nil_right.mpr ⟨?_, List.mem_singleton_self _⟩)
        cases htarget : target.2 with
        | some item => exact .inl rfl
        | none =>
          obtain ⟨_, _, e, he, _, hdst⟩ := issued target List.mem_cons_self htarget
          exact .inr ((quiet c).2 _ (hdst ▸ (c.closed e he).2))
      refine .lockingMedia (past ++ [target.1]) ((quiet_lockMedium target).comp quiet) items items' names_held
        ?_ sorted (fun m hm => ?_) (fun k hk => ?_) families stale
        fun target' htarget' => issued target' (List.mem_cons_of_mem _ htarget')
      · rw [split, List.append_assoc]
        rfl
      · rcases List.mem_append.mp hm with hm | hm
        · exact past_held m hm
        · rw [List.mem_singleton.mp hm]
          exact hheld
      · rcases only k hk with hname | ⟨m, hm, hkey⟩
        · exact .inl hname
        · exact .inr ⟨m, List.mem_append_left _ hm, hkey⟩
    | nil =>
      rw [List.map_nil, List.append_nil] at split
      exact .summarizing quiet ⟨items, items', names_held, fun m hm => past_held m (split ▸ hm)⟩ families stale
        (List.Subset.refl _) fun m hm => absurd hm List.not_mem_nil

theorem Phase.perform_summarizing {rest : List SummaryRow} {found : List String}
    (h : Phase writes c done held w ⟨.summarizing rest found, own, names, media⟩) :
    Phase writes c done held w (perform w (own c) ⟨.summarizing rest found, own, names, media⟩) := by
  cases h with
  | summarizing quiet locked families stale suffix detached =>
    cases rest with
    | cons row rest =>
      refine .summarizing ((quiet_update _ _).comp quiet) locked families stale
        (fun row' hrow' => suffix (List.mem_cons_of_mem _ hrow')) fun m hm => ?_
      rcases List.mem_append.mp hm with hm | hm
      · exact detached m hm
      · obtain ⟨hissued, e, he, hstale, rfl⟩ := issued_of_stale quiet (suffix List.mem_cons_self) hm
        exact ⟨stale row (suffix List.mem_cons_self) e he hstale, hissued⟩
    | nil =>
      refine .sweeping quiet.shrinks locked families (fun m hm => detached m ?_) (List.Subset.refl _)
      rwa [List.mem_dedup, List.mem_insertionSort] at hm

theorem Phase.perform_pruning {rest : List String}
    (h : Phase writes c done held w ⟨.pruning rest, own, names, media⟩) :
    Phase writes c done held w (perform w (own c) ⟨.pruning rest, own, names, media⟩) := by
  cases h with
  | pruning shrinks locked families detached =>
    cases rest with
    | cons m rest =>
      refine .pruning ?_ locked families fun m' hm' => detached m' (List.mem_cons_of_mem _ hm')
      by_cases horphan : isOrphan (own c) m = true
      · simp only [horphan, if_true]
        exact (shrinks_deleteMedium m).comp shrinks
      · simp only [horphan, Bool.false_eq_true, if_false]
        exact shrinks
    | nil => exact .attaching shrinks.attaches locked (List.Subset.refl _)

end Rows

/-- A row is done, with all it writes held. -/
theorem Phase.perform (h : Phase writes c done held w tx) (hfirst : w.FirstFamilies) (hschema : FamilySchema c)
    (hneeds : ∀ k ∈ needs (tx.own c) tx.pc, held k) :
    Phase writes c done held w (perform w (tx.own c) tx) := by
  obtain ⟨pc, own, names, media⟩ := tx
  cases pc with
  | listingFamilies rest found => exact h.perform_listingFamilies hfirst hschema
  | lockingFamilies rest => exact h.perform_lockingFamilies hneeds
  | listingMedia rest found => exact h.perform_listingMedia
  | lockingMedia rest => exact h.perform_lockingMedia hneeds
  | summarizing rest found => exact h.perform_summarizing
  | sweeping rest all =>
    cases h with
    | sweeping shrinks locked families detached suffix =>
      cases rest with
      | cons m rest =>
        exact .sweeping ((shrinks_sweep m).comp shrinks) locked families detached
          fun m' hm' => suffix (List.mem_cons_of_mem _ hm')
      | nil => exact .pruneLocking shrinks locked families detached (List.Subset.refl _)
  | pruneLocking rest all =>
    cases h with
    | pruneLocking shrinks locked families detached suffix =>
      cases rest with
      | cons m rest =>
        exact .pruneLocking ((quiet_update _ _).shrinks.comp shrinks) locked families detached
          fun m' hm' => suffix (List.mem_cons_of_mem _ hm')
      | nil => exact .pruning shrinks locked families detached
  | pruning rest => exact h.perform_pruning
  | attaching rest =>
    cases h with
    | attaching attaches locked suffix =>
      cases rest with
      | cons item rest =>
        exact .attaching (attaches.mergeItem (w.summarized item (suffix List.mem_cons_self))) locked
          fun item' hitem' => suffix (List.mem_cons_of_mem _ hitem')
      | nil => exact .attaching attaches locked suffix
  | ended committed => exact h

/-! ## Commits of the others -/

/-- No two writes are of one release. -/
def DisjointReleases (writes : τ → MediaWrite) : Prop :=
  ∀ t t', t ≠ t' → ∀ row ∈ (writes t).rows, ∀ row' ∈ (writes t').rows, row.discogsId ≠ row'.discogsId

section Commit

variable {f : Graph → Graph} {t t' : τ}

/-- A commit leaves the edges of the other writes' releases alone. -/
theorem mem_commit_iff (hdisjoint : DisjointReleases writes) (hne : t ≠ t') (hf : Attaches (writes t) f)
    {row : SummaryRow} (hrow : row ∈ (writes t').rows) {e : Edge} (hby : issuedBy row.discogsId e = true) :
    e ∈ (f c).rels ↔ e ∈ c.rels :=
  hf.frames c e (type_of_issuedBy hby) fun row' hrow' =>
    issuedBy_eq_false hby (hdisjoint t t' hne row' hrow' row hrow).symm

theorem Issued.commit (hdisjoint : DisjointReleases writes) (hne : t ≠ t') (hf : Attaches (writes t) f)
    {k : NodeKey} (h : Issued (writes t') c k) : Issued (writes t') (f c) k := by
  obtain ⟨row, hrow, e, he, hby, hdst⟩ := h
  exact ⟨row, hrow, e, (mem_commit_iff hdisjoint hne hf hrow hby).mpr he, hby, hdst⟩

theorem Listed.commit (hdisjoint : DisjointReleases writes) (hne : t ≠ t') (hf : Attaches (writes t) f)
    (hnot : ¬ done t) {rows : List SummaryRow} (hsub : rows ⊆ (writes t').rows) {found : List String}
    (h : Listed writes c done rows found) : Listed writes (f c) (fun x => x = t ∨ done x) rows found := by
  intro row hrow e he hby e' he' htype hsrc
  have hec := (mem_commit_iff hdisjoint hne hf (hsub hrow) hby).mp he
  rcases hf.families c e' he' htype with he'c | ⟨_, hissued⟩
  · rcases h row hrow e hec hby e' he'c htype hsrc with hfound | ⟨x, hx, hissued⟩
    · exact .inl hfound
    · have hxt : t ≠ x := fun heq => hnot (heq ▸ hx)
      exact .inr ⟨x, .inr hx, hissued.commit hdisjoint hxt hf⟩
  · -- The edge is new, and so its write has a release on the medium.
    rw [hsrc] at hissued
    exact .inr ⟨t, .inl rfl, hissued⟩

theorem Phase.commit (hdisjoint : DisjointReleases writes) (hne : t ≠ t') (hf : Attaches (writes t) f)
    (hnot : ¬ done t) {held' : NodeKey → Prop} (hheld : ∀ k, held' k ↔ held k)
    (h : Phase writes c done held (writes t') tx) :
    Phase writes (f c) (fun x => x = t ∨ done x) held' (writes t') tx :=
  h.mono hheld (fun _ hsub _ hlisted => hlisted.commit hdisjoint hne hf hnot hsub)
    (fun _ hsub _ hstale row hrow e he hrowStale => hstale row hrow e
      ((mem_commit_iff hdisjoint hne hf (hsub hrow) (Bool.and_eq_true_iff.mp hrowStale).1).mp he) hrowStale)
    fun _ hissued => hissued.commit hdisjoint hne hf

theorem FamilySchema.commit (h : FamilySchema c) (hf : Attaches w f) : FamilySchema (f c) := fun e he htype =>
  (hf.families c e he htype).elim (fun hec => h e hec htype) fun hnew => hnew.1

end Commit

end Phases

/-! ## Every interleaving -/

namespace Contention

variable {τ : Type} {writes : τ → MediaWrite}

def Done (s : Contention τ) (t : τ) : Prop := (s.tx t).pc = .ended true

structure Inv (writes : τ → MediaWrite) (s : Contention τ) : Prop where
  phase : ∀ t, Phase writes s.committed s.Done (fun k => s.locks k = some t) (writes t) (s.tx t)
  schema : FamilySchema s.committed

theorem Inv.initial {g : Graph} (hschema : FamilySchema g) : Inv writes (initial writes g) where
  phase _ := .listingFamilies [] quiet_id (fun _ => nofun) rfl fun _ hrow => absurd hrow List.not_mem_nil
  schema := hschema

variable {s s' : Contention τ} {t t' : τ}

/-- A write that is not over is apart from those that have committed. -/
theorem apart_of_not_done (hdisjoint : DisjointReleases writes) (h : ¬ s.Done t) : Apart writes s.Done (writes t) :=
  fun t' ht' => hdisjoint t' t fun heq => h (heq ▸ ht')

theorem needs_ended {g : Graph} {committed : Bool} : needs g (.ended committed) = [] := rfl

theorem not_done_of_needs {k : NodeKey} (hk : k ∈ needs (s.view t) (s.tx t).pc) : ¬ s.Done t := by
  intro hdone
  rw [hdone, needs_ended] at hk
  cases hk

theorem done_perform_iff (w : MediaWrite) (g : Graph) (tx : Writer) :
    (perform w g tx).pc = .ended true ↔ tx.pc = .ended true := by
  unfold perform
  split
  all_goals rename_i hpc
  all_goals rw [hpc]
  all_goals exact iff_of_false nofun nofun

variable [DecidableEq τ]

/-- One write goes on. -/
theorem done_update (c : Graph) (locks : Locks.Table NodeKey τ) (tx : Writer) :
    Done ⟨c, locks, Function.update s.tx t tx⟩ = fun x => if x = t then tx.pc = .ended true else s.Done x := by
  funext x
  unfold Done
  dsimp only
  split
  · rename_i hx
    rw [hx, Function.update_self]
  · rename_i hx
    rw [Function.update_of_ne hx]

theorem Inv.advances (h : Inv writes s) (hdisjoint : DisjointReleases writes) (hfirst : ∀ t, (writes t).FirstFamilies)
    (hstep : step writes s (.advances t) = some s') : Inv writes s' := by
  unfold step at hstep
  dsimp only at hstep
  split at hstep
  · rename_i k hwants
    obtain ⟨locks, htake, heq⟩ := Option.map_eq_some_iff.mp hstep
    cases heq
    have hk := List.mem_of_find?_eq_some hwants
    have hnot : s.locks k ≠ some t := by simpa using List.find?_some (p := fun k => decide (s.locks k ≠ some t)) hwants
    refine ⟨fun t' => ?_, h.schema⟩
    by_cases ht : t' = t
    · rw [ht]
      refine (h.phase t).take (apart_of_not_done hdisjoint (not_done_of_needs hk)) h.schema hk hnot fun k' => ?_
      exact (Locks.held_take htake).trans (or_congr_left (and_iff_left rfl))
    · refine (h.phase t').mono (fun k' => ?_) (fun _ _ _ h => h) (fun _ _ _ h => h) fun _ h => h
      exact (Locks.held_take htake).trans (or_iff_right fun hself => ht hself.2)
  · rename_i hwants
    cases hstep
    have hneeds : ∀ k ∈ needs (s.view t) (s.tx t).pc, s.locks k = some t := by
      intro k hk
      simpa using List.find?_eq_none.mp hwants k hk
    have hdone : Done { s with tx := Function.update s.tx t (perform (writes t) (s.view t) (s.tx t)) } = s.Done := by
      rw [done_update]
      funext x
      split
      · rename_i hx
        rw [hx]
        exact propext (done_perform_iff _ _ _)
      · rfl
    refine ⟨fun t' => ?_, h.schema⟩
    rw [hdone]
    by_cases ht : t' = t
    · rw [ht]
      dsimp only
      rw [Function.update_self]
      exact (h.phase t).perform (hfirst t) h.schema hneeds
    · dsimp only
      rw [Function.update_of_ne ht]
      exact h.phase t'

theorem Inv.commits (h : Inv writes s) (hdisjoint : DisjointReleases writes)
    (hstep : step writes s (.commits t) = some s') : Inv writes s' := by
  unfold step at hstep
  dsimp only at hstep
  split at hstep
  · rename_i hpc
    cases hstep
    have hattaches : Attaches (writes t) (s.tx t).own := by
      have hphase := h.phase t
      generalize s.tx t = tx at hpc hphase
      cases hphase with
      | attaching attaches _ _ => exact attaches
      | _ => cases hpc
    have hnot : ¬ s.Done t := by
      rw [Done, hpc]
      nofun
    have hdone : Done { s with
        committed := s.view t, locks := Locks.release t s.locks
        tx := Function.update s.tx t { s.tx t with pc := .ended true, own := id } } = fun x => x = t ∨ s.Done x := by
      rw [done_update]
      funext x
      split
      · rename_i hx
        exact propext (iff_of_true rfl (.inl hx))
      · rename_i hx
        exact propext (or_iff_right hx).symm
    refine ⟨fun t' => ?_, h.schema.commit hattaches⟩
    rw [hdone]
    dsimp only
    by_cases ht : t' = t
    · rw [ht, Function.update_self]
      exact .ended (fun k hk => (Locks.held_release.mp hk).2 rfl) rfl
    · rw [Function.update_of_ne ht]
      exact (h.phase t').commit hdisjoint (fun heq => ht heq.symm) hattaches hnot fun k =>
        Locks.held_release.trans (and_iff_left ht)
  · cases hstep

theorem Inv.aborts (h : Inv writes s) (hstep : step writes s (.aborts t) = some s') : Inv writes s' := by
  unfold step at hstep
  dsimp only at hstep
  split at hstep
  · cases hstep
  · rename_i hrunning
    cases hstep
    have hdone : Done { s with
        locks := Locks.release t s.locks
        tx := Function.update s.tx t { s.tx t with pc := .ended false, own := id } } = s.Done := by
      rw [done_update]
      funext x
      split
      · rename_i hx
        rw [hx]
        exact propext (iff_of_false nofun (hrunning true))
      · rfl
    refine ⟨fun t' => ?_, h.schema⟩
    rw [hdone]
    dsimp only
    by_cases ht : t' = t
    · rw [ht, Function.update_self]
      exact .ended (fun k hk => (Locks.held_release.mp hk).2 rfl) rfl
    · rw [Function.update_of_ne ht]
      exact (h.phase t').mono (fun k => Locks.held_release.trans (and_iff_left ht)) (fun _ _ _ h => h)
        (fun _ _ _ h => h) fun _ h => h

theorem Inv.step (h : Inv writes s) (hdisjoint : DisjointReleases writes) (hfirst : ∀ t, (writes t).FirstFamilies)
    {e : Event τ} (hstep : step writes s e = some s') : Inv writes s' := by
  cases e with
  | advances t => exact h.advances hdisjoint hfirst hstep
  | commits t => exact h.commits hdisjoint hstep
  | aborts t => exact h.aborts hstep

theorem Reachable.inv {g : Graph} (hdisjoint : DisjointReleases writes) (hfirst : ∀ t, (writes t).FirstFamilies)
    (hschema : FamilySchema g) (h : Reachable writes g s) : Inv writes s := by
  induction h with
  | refl => exact .initial hschema
  | tail _ hstep ih =>
    obtain ⟨e, hstep⟩ := hstep
    exact ih.step hdisjoint hfirst hstep

/-- Writes of different releases, whose families all are the ones of the first rows of media, hold
every node of the vocabulary that a row after their lock statements writes, and never wait for
one another in a circle. -/
theorem media_writes_never_deadlock (writes : τ → MediaWrite) (hdisjoint : DisjointReleases writes)
    (hfirst : ∀ t, (writes t).FirstFamilies) {g : Graph} (hschema : FamilySchema g) (h : Reachable writes g s) :
    (∀ t, (s.tx t).pc.locks = false → ∀ k ∈ needs (s.view t) (s.tx t).pc, s.locks k = some t) ∧
      ∀ t, ¬ Relation.TransGen (Locks.WaitsFor s.locks s.wants) t t := by
  have hinv := h.inv hdisjoint hfirst hschema
  constructor
  · intro t hpast k hk
    exact (hinv.phase t).covered (apart_of_not_done hdisjoint (not_done_of_needs hk)) hinv.schema hpast k hk
  · have hordered : ∀ t k k', s.wants t = some k → s.locks k ≠ some t → s.locks k' = some t → rank k' < rank k := by
      intro t k k' hwants hnot hheld
      have hk := List.mem_of_find?_eq_some hwants
      exact (hinv.phase t).ordered (apart_of_not_done hdisjoint (not_done_of_needs hk)) hinv.schema hk hnot hheld
    exact Locks.acyclic_of_ordered hordered

theorem reachable_of_run {g : Graph} {es : List (Event τ)}
    (h : Runs.Run (step writes) (fun _ _ => True) (initial writes g) es s) : Reachable writes g s := by
  induction h with
  | nil => exact .refl
  | snoc _ _ hstep ih => exact ih.tail ⟨_, hstep⟩

/-- The releases 1, 2 and 3, and nothing else. -/
def releasesOnly : Graph where
  node k := if k.label = .release then some noProps else none
  rels := []
  closed _ he := absurd he List.not_mem_nil

/-- Two releases in one write and one in the other, all on the medium `m`. -/
def onMedium (family : String) (t : Bool) : MediaWrite :=
  match t with
  | true => ⟨[⟨"1", ["a"], 1, ["m"]⟩, ⟨"2", [family], 1, ["m"]⟩],
      [⟨⟨"m", "a", "m", 1⟩, "1"⟩, ⟨⟨"m", family, "m", 1⟩, "2"⟩], by simp⟩
  | false => ⟨[⟨"3", [family], 1, ["m"]⟩], [⟨⟨"m", family, "m", 1⟩, "3"⟩], by simp⟩

theorem disjointReleases_onMedium (family : String) : DisjointReleases (onMedium family) := by
  intro t t' hne
  cases t <;> cases t' <;> simp [onMedium] at hne ⊢

/-- With one family the second write waits for the first, and that for none. -/
theorem media_writes_never_deadlock_oneFamily :
    ∃ s, Reachable (onMedium "a") releasesOnly s ∧ Locks.WaitsFor s.locks s.wants false true ∧
      ∀ t, ¬ Relation.TransGen (Locks.WaitsFor s.locks s.wants) t t := by
  have hexec : (Runs.exec (step (onMedium "a")) (initial (onMedium "a") releasesOnly)
      (List.replicate 11 (.advances true) ++ List.replicate 2 (.advances false))).any (fun s => decide
        (s.wants false = some (familyKey "a") ∧ s.locks (familyKey "a") = some true)) = true := by
    decide +kernel
  obtain ⟨s, hrun, hwants, hheld⟩ := Runs.exists_run hexec
  have hfirst : ∀ t, (onMedium "a" t).FirstFamilies := by
    intro t
    cases t <;> simp [MediaWrite.FirstFamilies, onMedium]
  have hreachable := reachable_of_run hrun
  exact ⟨s, hreachable, ⟨_, hwants, hheld, Bool.false_ne_true.symm⟩,
    (media_writes_never_deadlock (onMedium "a") (disjointReleases_onMedium "a") hfirst
      (fun e he => absurd he List.not_mem_nil) hreachable).2⟩

/-- The medium comes with a second family in the batch, which only its first row's is locked of: the
first write asks for it with the medium held, and the second write the other way round. -/
theorem second_family_deadlocks :
    ¬ ∀ (writes : Bool → MediaWrite) (g : Graph) (s : Contention Bool), DisjointReleases writes → FamilySchema g →
      Reachable writes g s → ∀ t, ¬ Relation.TransGen (Locks.WaitsFor s.locks s.wants) t t := by
  intro hclaim
  have hexec : (Runs.exec (step (onMedium "b")) (initial (onMedium "b") releasesOnly)
      (List.replicate 19 (.advances true) ++ List.replicate 7 (.advances false))).any (fun s => decide
        ((s.wants true = some (familyKey "b") ∧ s.locks (familyKey "b") = some false) ∧
          s.wants false = some (mediumKey "m") ∧ s.locks (mediumKey "m") = some true)) = true := by
    decide +kernel
  obtain ⟨s, hrun, ⟨hwants, hheld⟩, hwants', hheld'⟩ := Runs.exists_run hexec
  refine hclaim (onMedium "b") releasesOnly s (disjointReleases_onMedium "b")
    (fun e he => absurd he List.not_mem_nil) (reachable_of_run hrun) true ?_
  exact .tail (.single ⟨_, hwants, hheld, Bool.false_ne_true⟩) ⟨_, hwants', hheld', Bool.false_ne_true.symm⟩

end Contention

end MediaContention

end Brainzgraphinator
