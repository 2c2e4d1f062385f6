-- SUMMARY: What the rows of an event conserve: the quantities of its media, and the fields of its release events.
import Mathlib.Algebra.BigOperators.Group.List.Basic
import Mathlib.Algebra.Order.BigOperators.Group.List
import Mathlib.Algebra.Ring.Int.Defs
import Brainzgraphinator.Projections.Rows
import Brainzgraphinator.Projections.Serialization

/-!
# Laws of the projected rows

`mediaEdgeRows` gives each medium of a block one row, and loses none of its quantities.
`releaseEventRows` drops what says nothing, and raises on what cannot be iterated.
-/

namespace Brainzgraphinator

/-! ## Media rows -/

/-- An item that counts: an object whose medium and family are strings. -/
structure ValidItem where
  medium : String
  family : String
  quantity : Int

def validItem : Json → Option ValidItem
  | .obj item =>
    match Dict.get item "medium", Dict.get item "family" with
    | .str medium, .str family => some ⟨medium, family, itemQuantity (Dict.get item "qty")⟩
    | _, _ => none
  | _ => none

def validItems (items : List Json) : List ValidItem := items.filterMap validItem

/-- What the items give of one medium. -/
def quantityOf (items : List ValidItem) (medium : String) : Int :=
  ((items.filter fun item => item.medium = medium).map ValidItem.quantity).sum

variable (rt : Runtime)

/-- A medium with the family of the first item that has it, and the quantities of all. -/
def rowOf (items : List ValidItem) (medium : String) : MediaRow where
  medium := medium
  family := ((items.find? fun item => item.medium = medium).map ValidItem.family).getD ""
  label := mediumLabel rt medium
  qty := quantityOf items medium

theorem one_le_itemQuantity (qty : Json) : 1 ≤ itemQuantity qty := by
  unfold itemQuantity
  split
  · split <;> omega
  · omega

theorem one_le_quantity {items : List Json} {item : ValidItem} (h : item ∈ validItems items) : 1 ≤ item.quantity := by
  obtain ⟨v, _, hv⟩ := List.mem_filterMap.mp h
  unfold validItem at hv
  split at hv
  · split at hv
    · cases hv
      exact one_le_itemQuantity _
    · cases hv
  · cases hv

/-- The row an item opens, and what it adds to the row of its medium. -/
def ValidItem.toRow (item : ValidItem) : MediaRow :=
  ⟨item.medium, item.family, mediumLabel rt item.medium, item.quantity⟩

def MediaRow.addQuantity (row : MediaRow) (item : ValidItem) : MediaRow := { row with qty := row.qty + item.quantity }

theorem addItem_eq (rows : List (String × MediaRow)) (v : Json) :
    addItem rt rows v = match validItem v with
      | none => rows
      | some item => match rows.lookup item.medium with
        | none => OrderedDict.set item.medium (item.toRow rt) rows
        | some row => OrderedDict.set item.medium (row.addQuantity item) rows := by
  cases v with
  | obj item =>
    rw [addItem]
    split
    · rename_i medium family hmedium hfamily
      have hitem : validItem (.obj item) = some ⟨medium, family, itemQuantity (Dict.get item "qty")⟩ := by
        rw [validItem, hmedium, hfamily]
      rw [hitem]
      dsimp only
      cases rows.lookup medium <;> rfl
    · rename_i hneither
      have hitem : validItem (.obj item) = none := by
        rw [validItem]
        split
        · rename_i hmedium hfamily
          exact (hneither _ _ hmedium hfamily).elim
        · rfl
      rw [hitem]
  | null | bool | int | float | str | arr => rfl

theorem foldl_addItem (items : List Json) :
    items.foldl (addItem rt) [] =
      OrderedDict.accumulate ValidItem.medium (ValidItem.toRow rt) MediaRow.addQuantity (validItems items) := by
  rw [OrderedDict.accumulate, validItems, List.foldl_filterMap]
  congr 1
  funext rows v
  rw [addItem_eq]
  cases validItem v with
  | none => rfl
  | some item =>
    dsimp only
    cases rows.lookup item.medium <;> rfl

theorem foldl_addQuantity (items : List ValidItem) (row : MediaRow) :
    items.foldl MediaRow.addQuantity row = { row with qty := row.qty + (items.map ValidItem.quantity).sum } := by
  induction items generalizing row with
  | nil => simp
  | cons item items ih =>
    rw [List.foldl_cons, ih, MediaRow.addQuantity, List.map_cons, List.sum_cons]
    dsimp only
    rw [Int.add_assoc]

/-- The rows of a block, by what its items give of each medium. -/
theorem mediaEdgeRows_eq (media : MediaBlock) :
    mediaEdgeRows rt media =
      ((validItems media.items).map ValidItem.medium).eraseDups.map (rowOf rt (validItems media.items)) := by
  generalize hitems : validItems media.items = items
  have hkeys := OrderedDict.keys_accumulate ValidItem.medium (ValidItem.toRow rt) MediaRow.addQuantity items
  rw [mediaEdgeRows, foldl_addItem, hitems]
  generalize haccumulate : OrderedDict.accumulate ValidItem.medium (ValidItem.toRow rt) MediaRow.addQuantity items =
    rows at hkeys ⊢
  have hnd : (rows.map Prod.fst).Nodup := by
    rw [hkeys]
    exact OrderedDict.nodup_eraseDups (items.map ValidItem.medium)
  have hrows : rows = (rows.map Prod.fst).map fun medium => (medium, rowOf rt items medium) := by
    refine OrderedDict.eq_map_keys hnd fun medium row hlookup => ?_
    rw [← haccumulate, OrderedDict.lookup_accumulate] at hlookup
    rw [rowOf, quantityOf, ← List.head?_filter]
    cases hfilter : items.filter fun item => item.medium = medium with
    | nil => rw [hfilter] at hlookup; cases hlookup
    | cons item rest =>
      rw [hfilter] at hlookup
      cases hlookup
      have hmedium : item.medium = medium := by
        have hmem : item ∈ items.filter fun item => item.medium = medium := by
          rw [hfilter]
          exact List.mem_cons_self
        simpa using (List.mem_filter.mp hmem).2
      rw [foldl_addQuantity, ValidItem.toRow, hmedium, List.map_cons, List.sum_cons]
      rfl
  rw [← hkeys]
  conv_lhs => rw [hrows]
  rw [List.map_map]
  rfl

theorem mem_mediaEdgeRows {media : MediaBlock} {row : MediaRow} :
    row ∈ mediaEdgeRows rt media ↔
      (∃ item ∈ validItems media.items, item.medium = row.medium) ∧ row = rowOf rt (validItems media.items) row.medium := by
  rw [mediaEdgeRows_eq, List.mem_map]
  constructor
  · rintro ⟨medium, hmedium, rfl⟩
    rw [List.mem_eraseDups, List.mem_map] at hmedium
    exact ⟨hmedium, rfl⟩
  · rintro ⟨hitem, hrow⟩
    refine ⟨row.medium, ?_, hrow.symm⟩
    rw [List.mem_eraseDups, List.mem_map]
    exact hitem

theorem length_le_sum_quantity (items : List ValidItem) (h : ∀ item ∈ items, 1 ≤ item.quantity) :
    (items.length : Int) ≤ (items.map ValidItem.quantity).sum := by
  induction items with
  | nil => exact Int.le_refl 0
  | cons item items ih =>
    rw [List.map_cons, List.sum_cons, List.length_cons]
    have hitem := h item List.mem_cons_self
    have hitems := ih fun item hmem => h item (List.mem_cons_of_mem _ hmem)
    omega

theorem one_le_quantityOf {items : List ValidItem} (h : ∀ item ∈ items, 1 ≤ item.quantity) {item : ValidItem}
    (hitem : item ∈ items) : 1 ≤ quantityOf items item.medium := by
  have hmem : item ∈ items.filter fun other => other.medium = item.medium := List.mem_filter.mpr ⟨hitem, by simp⟩
  have hlength := length_le_sum_quantity (items.filter fun other => other.medium = item.medium)
    fun other hother => h other (List.mem_filter.mp hother).1
  have hpos := List.length_pos_of_mem hmem
  rw [quantityOf]
  omega

/-- The rows together have all quantities. -/
theorem sum_mediaEdgeRows (media : MediaBlock) :
    ((mediaEdgeRows rt media).map MediaRow.qty).sum = ((validItems media.items).map ValidItem.quantity).sum := by
  generalize hitems : validItems media.items = items
  have hgroups := (OrderedDict.perm_flatMap_filter ValidItem.medium items).map ValidItem.quantity
  rw [mediaEdgeRows_eq, hitems, List.map_map, ← hgroups.sum_eq, List.map_flatMap, List.flatMap, List.sum_flatten,
    List.map_map]
  rfl

/-- The quantity of a medium does not depend on the order of the items. -/
theorem mediaEdgeRows_perm {media media' : MediaBlock} (h : media'.items.Perm media.items) {medium : String} {qty : Int} :
    (∃ row ∈ mediaEdgeRows rt media', row.medium = medium ∧ row.qty = qty) ↔
      ∃ row ∈ mediaEdgeRows rt media, row.medium = medium ∧ row.qty = qty := by
  have hstep : ∀ {media media' : MediaBlock}, media'.items.Perm media.items →
      (∃ row ∈ mediaEdgeRows rt media', row.medium = medium ∧ row.qty = qty) →
      ∃ row ∈ mediaEdgeRows rt media, row.medium = medium ∧ row.qty = qty := by
    rintro media media' h ⟨row, hrow, rfl, rfl⟩
    obtain ⟨⟨item, hitem, hmedium⟩, heq⟩ := (mem_mediaEdgeRows rt).mp hrow
    have hperm : (validItems media'.items).Perm (validItems media.items) := h.filterMap validItem
    have hqty : row.qty = quantityOf (validItems media.items) row.medium := by
      rw [heq]
      exact ((hperm.filter _).map ValidItem.quantity).sum_eq
    exact ⟨rowOf rt (validItems media.items) row.medium,
      (mem_mediaEdgeRows rt).mpr ⟨⟨item, hperm.mem_iff.mp hitem, hmedium⟩, rfl⟩, rfl, hqty.symm⟩
  exact ⟨hstep h, hstep h.symm⟩

/-- One row for each medium of a valid item, in the order of their first items, with the
family of the first and the quantities of all. -/
theorem mediaEdgeRows_conserve (media : MediaBlock) :
    (mediaEdgeRows rt media).map MediaRow.medium = ((validItems media.items).map ValidItem.medium).eraseDups ∧
    (∀ row ∈ mediaEdgeRows rt media,
      ((validItems media.items).find? fun item => item.medium = row.medium).map ValidItem.family = some row.family ∧
      row.qty = quantityOf (validItems media.items) row.medium ∧ 1 ≤ row.qty) ∧
    ((validItems media.items).length : Int) ≤ ((mediaEdgeRows rt media).map MediaRow.qty).sum ∧
    ∀ media' : MediaBlock, media'.items.Perm media.items → ∀ medium qty,
      (∃ row ∈ mediaEdgeRows rt media', row.medium = medium ∧ row.qty = qty) ↔
        ∃ row ∈ mediaEdgeRows rt media, row.medium = medium ∧ row.qty = qty := by
  refine ⟨?_, fun row hrow => ?_, ?_, fun media' h medium qty => mediaEdgeRows_perm rt h⟩
  · rw [mediaEdgeRows_eq, List.map_map]
    exact List.map_id _
  · obtain ⟨⟨item, hitem, hmedium⟩, heq⟩ := (mem_mediaEdgeRows rt).mp hrow
    obtain ⟨first, hfirst, _⟩ := OrderedDict.exists_find?_key ValidItem.medium hitem
    rw [hmedium] at hfirst
    have hqty : row.qty = quantityOf (validItems media.items) row.medium := congrArg MediaRow.qty heq
    refine ⟨?_, hqty, ?_⟩
    · rw [congrArg MediaRow.family heq, rowOf, hfirst]
      rfl
    · rw [hqty, ← hmedium]
      exact one_le_quantityOf (fun _ => one_le_quantity) hitem
  · rw [sum_mediaEdgeRows]
    exact length_le_sum_quantity _ fun _ => one_le_quantity

/-- Two discs of one medium, in a block that also has what is no item. -/
def twoDiscs : MediaBlock :=
  ⟨[("items", .arr [.obj [("medium", .str "cd"), ("family", .str "disc"), ("qty", .int 2)], .int 5,
    .obj [("medium", .str "cd"), ("family", .str "other")]])], _, rfl⟩

def twoDiscsReversed : MediaBlock := ⟨[("items", .arr twoDiscs.items.reverse)], twoDiscs.items.reverse, rfl⟩

theorem mediaEdgeRows_conserve_twoDiscs :
    ∃ row ∈ mediaEdgeRows plainRuntime twoDiscsReversed, row.medium = "cd" ∧ row.qty = 3 :=
  ((mediaEdgeRows_conserve plainRuntime twoDiscs).2.2.2 twoDiscsReversed (List.reverse_perm _) "cd" 3).mpr
    ⟨⟨"cd", "disc", "cd", 3⟩, by decide, rfl, rfl⟩

/-! ## Release events -/

/-- An object that has a date or an area name. -/
def knownEvent : Json → Option Dict
  | .obj event => if Dict.get event "date" = .null ∧ Dict.get event "area_name" = .null then none else some event
  | _ => none

/-- `date|area_name`, with nothing for a field that says nothing. -/
def eventText (event : Dict) : String :=
  ((Dict.get event "date").or (.str "")).toStr rt ++ "|" ++ ((Dict.get event "area_name").or (.str "")).toStr rt

/-- What the release events say: nothing, unless they are a list. -/
def eventTexts : Json → List String
  | .arr events => (events.filterMap knownEvent).map (eventText rt)
  | _ => []

/-- Python can run over the value. -/
def Json.iterable : Json → Bool
  | .arr _ | .str _ | .obj _ => true
  | .null | .bool _ | .int _ | .float _ => false

theorem releaseEventRow_eq (v : Json) : releaseEventRow rt v = (knownEvent v).map (eventText rt) := by
  cases v with
  | obj event =>
    rw [releaseEventRow, knownEvent]
    split <;> rfl
  | null | bool | int | float | str | arr => rfl

theorem filterMap_releaseEventRow (events : List Json) :
    events.filterMap (releaseEventRow rt) = (events.filterMap knownEvent).map (eventText rt) := by
  rw [List.map_filterMap]
  exact List.filterMap_congr fun v _ => releaseEventRow_eq rt v

/-- The characters of a string and the keys of an object are no events. -/
theorem filterMap_releaseEventRow_str {α : Type} (f : α → String) (xs : List α) :
    (xs.map fun x => Json.str (f x)).filterMap (releaseEventRow rt) = [] := by
  rw [List.filterMap_map, List.filterMap_eq_nil_iff]
  exact fun _ _ => rfl

theorem releaseEventRows_of_falsy {v : Json} (h : v.truthy = false) :
    releaseEventRows rt v = .ok (eventTexts rt v) := by
  have hor : v.or (.arr []) = .arr [] := by rw [Json.or, h]; rfl
  have htexts : eventTexts rt v = [] := by
    cases v with
    | arr xs =>
      have hxs : xs = [] := by simpa [Json.truthy] using h
      rw [hxs]
      rfl
    | null | bool | int | float | str | obj => rfl
  rw [releaseEventRows, hor, htexts]
  rfl

/-- What is neither a list nor falsy nor iterable raises. -/
theorem releaseEventRows_of_truthy {v : Json} (h : v.truthy = true) :
    releaseEventRows rt v = if v.iterable then .ok (eventTexts rt v) else .error .typeError := by
  have hor : v.or (.arr []) = v := by rw [Json.or, h]; rfl
  rw [releaseEventRows, hor]
  cases v with
  | arr events => exact congrArg Except.ok (filterMap_releaseEventRow rt events)
  | str s => exact congrArg Except.ok (filterMap_releaseEventRow_str rt String.singleton s.toList)
  | obj fields => exact congrArg Except.ok (filterMap_releaseEventRow_str rt Prod.fst fields)
  | null | bool | int | float => rfl

theorem releaseEventRows_eq (v : Json) : releaseEventRows rt v =
    if v.truthy = false ∨ v.iterable = true then .ok (eventTexts rt v) else .error .typeError := by
  cases h : v.truthy with
  | false => rw [releaseEventRows_of_falsy rt h, if_pos (.inl rfl)]
  | true =>
    rw [releaseEventRows_of_truthy rt h]
    simp

/-- The release events are read as they should be, and a record projects a row, exactly
when they are falsy or something to run over. -/
theorem releaseEventRows_ok_iff (v : Json) :
    (releaseEventRows rt v = .ok (eventTexts rt v) ↔ v.truthy = false ∨ v.iterable = true) ∧
    ∀ record : Dict, (∃ row, releaseRow rt record = .ok row) ↔
      (Dict.get record "release_events").truthy = false ∨ (Dict.get record "release_events").iterable = true := by
  constructor
  · rw [releaseEventRows_eq]
    split
    · rename_i hgood
      exact ⟨fun _ => hgood, fun _ => rfl⟩
    · rename_i hbad
      exact ⟨nofun, fun hgood => (hbad hgood).elim⟩
  · intro record
    rw [releaseRow, releaseEventRows_eq]
    split
    · rename_i hgood
      exact ⟨fun _ => hgood, fun _ => ⟨_, rfl⟩⟩
    · rename_i hbad
      exact ⟨nofun, fun hgood => (hbad hgood).elim⟩

theorem releaseEventRows_number :
    releaseEventRows plainRuntime (.int 1) = .error .typeError ∧ eventTexts plainRuntime (.int 1) = [] ∧
      releaseRow plainRuntime [("release_events", .int 1)] = .error .typeError :=
  ⟨rfl, rfl, rfl⟩

end Brainzgraphinator
