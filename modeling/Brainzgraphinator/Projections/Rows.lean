-- SUMMARY: What an event projects: property rows, release events, media rows and the payload digest.
import Mathlib.Data.List.Sort
import Brainzgraphinator.Base.Except
import Brainzgraphinator.Base.OrderedDict
import Brainzgraphinator.Projections.Json

/-!
# Projected rows

The part of the projections that only reads the event: the property row of each
entity kind, the release events, the media block and its rows, and the digest
that decides whether a replay writes anything.
-/

namespace Brainzgraphinator

/-! ## Property rows -/

/-- Pairs of a graph property and the row key its value comes from. -/
abbrev Fields := List (String × String)

def sameName (keys : List String) : Fields := keys.map fun key => (key, key)

def artistFields : Fields :=
  sameName ["mbid", "mb_type", "mb_gender", "mb_begin_date", "mb_end_date", "mb_area",
    "mb_begin_area", "mb_end_area", "mb_disambiguation"]

def labelFields : Fields :=
  sameName ["mbid", "mb_type", "mb_label_code", "mb_begin_date", "mb_end_date", "mb_area"]

def releaseFields : Fields :=
  [("mbid", "mbid"), ("mb_barcode", "mb_barcode"), ("mb_status", "mb_status"),
    ("mb_release_group_mbid", "release_group_mbid"), ("mb_country", "mb_country"),
    ("mb_release_events", "mb_release_events")]

def releaseGroupFields : Fields :=
  sameName ["mbid", "mb_type", "mb_secondary_types", "mb_first_release_date",
    "mb_disambiguation"]

/-- `record.get(f"{key}_date", (record.get("life_span") or {}).get(key))`. The
default is evaluated even when the date is present. -/
def lifeSpan (record : Dict) (key : String) : Except Failure Json := do
  let span ← ((record.get "life_span").or (.obj [])).asDict
  return (record.get? (key ++ "_date")).getD (span.get key)

def mbid (record : Dict) : Json := (record.get? "mbid").getD (record.get "id")

def mbType (record : Dict) : Json := (record.get? "mb_type").getD (record.get "type")

def artistRow (record : Dict) : Except Failure Dict := do
  let beginDate ← lifeSpan record "begin"
  let endDate ← lifeSpan record "end"
  return [("mbid", mbid record), ("mb_type", mbType record), ("mb_gender", record.get "gender"),
    ("mb_begin_date", beginDate), ("mb_end_date", endDate), ("mb_area", record.get "area"),
    ("mb_begin_area", record.get "begin_area"), ("mb_end_area", record.get "end_area"),
    ("mb_disambiguation", record.get "disambiguation")]

def labelRow (record : Dict) : Except Failure Dict := do
  let beginDate ← lifeSpan record "begin"
  let endDate ← lifeSpan record "end"
  return [("mbid", mbid record), ("mb_type", mbType record),
    ("mb_label_code", record.get "label_code"), ("mb_begin_date", beginDate),
    ("mb_end_date", endDate), ("mb_area", record.get "area")]

def releaseGroupRow (record : Dict) : Except Failure Dict :=
  .ok [("mbid", mbid record), ("mb_type", mbType record),
    ("mb_secondary_types", (record.get? "secondary_types").getD (.arr [])),
    ("mb_first_release_date", record.get "first_release_date"),
    ("mb_disambiguation", record.get "disambiguation")]

variable (rt : Runtime)

/-- The `date|area_name` row of one release event, if it has either field. -/
def releaseEventRow : Json → Option String
  | .obj event =>
    let date := Dict.get event "date"
    let areaName := Dict.get event "area_name"
    if date = .null ∧ areaName = .null then none
    else some ((date.or (.str "")).toStr rt ++ "|" ++ (areaName.or (.str "")).toStr rt)
  | _ => none

def releaseEventRows (releaseEvents : Json) : Except Failure (List String) := do
  let events ← (releaseEvents.or (.arr [])).iter
  return events.filterMap (releaseEventRow rt)

def strings (xs : List String) : Json := .arr (xs.map .str)

def releaseRow (record : Dict) : Except Failure Dict := do
  let events ← releaseEventRows rt (record.get "release_events")
  return [("mbid", mbid record), ("mb_barcode", record.get "barcode"),
    ("mb_status", record.get "status"),
    ("release_group_mbid", record.get "release_group_mbid"),
    ("mb_country", record.get "country"), ("mb_release_events", strings events)]

/-! ## Release media -/

/-- The canonical block, or the one derived from an event that predates it. -/
def releaseMediaBlock (record : Dict) : Option MediaBlock :=
  match record.get "media" with
  | .obj media =>
    match h : Dict.get media "items" with
    | .arr items => some ⟨media, items, h⟩
    | _ => derived
  | _ => derived
where
  derived : Option MediaBlock :=
    match record.get "media_raw" with
    | .arr mediaRaw =>
      some (rt.mapMusicbrainzRelease (OrderedDict.set "media" (.arr mediaRaw) record))
    | _ => none

/-- One medium of a release, with the number of it the release has. -/
structure MediaRow where
  medium : String
  family : String
  label : String
  qty : Int
  deriving DecidableEq

def MediaRow.toJson (row : MediaRow) : Json :=
  .obj [("medium", .str row.medium), ("family", .str row.family), ("label", .str row.label),
    ("qty", .int row.qty)]

/-- A valid quantity, else one. -/
def itemQuantity : Json → Int
  | .int i => if 1 ≤ i then i else 1
  | _ => 1

def mediumLabel (mediumId : String) : String := (rt.mediumLabel mediumId).getD mediumId

/-- Enter one item under its medium: a new row, or its quantity added to the row there. -/
def addItem (rows : List (String × MediaRow)) : Json → List (String × MediaRow)
  | .obj item =>
    match Dict.get item "medium", Dict.get item "family" with
    | .str mediumId, .str family =>
      let quantity := itemQuantity (Dict.get item "qty")
      match rows.lookup mediumId with
      | none =>
        OrderedDict.set mediumId ⟨mediumId, family, mediumLabel rt mediumId, quantity⟩ rows
      | some row => OrderedDict.set mediumId { row with qty := row.qty + quantity } rows
    | _, _ => rows
  | _ => rows

def mediaEdgeRows (media : MediaBlock) : List MediaRow :=
  (media.items.foldl (addItem rt) []).map Prod.snd

/-- `len([item for item in items if isinstance(item, dict)])`. -/
def mediumCount (media : MediaBlock) : Nat := (media.items.filter Json.isDict).length

/-! ## Payload digest -/

def hashVersion : String := "v1"

def payloadHash (parts : List Json) : Json :=
  .str (hashVersion ++ ":" ++ rt.hexdigest parts)

/-- What the release's media block projects, for the payload hash. -/
def mediaDigest (record : Dict) : Json :=
  match releaseMediaBlock rt record with
  | none => .null
  | some media =>
    .arr [strings (rt.familiesOf media), .int (mediumCount media),
      .arr ((mediaEdgeRows rt media).map MediaRow.toJson)]

/-! ## Distinct media of a block -/

theorem addItem_keys {rows : List (String × MediaRow)} (item : Json)
    (hnd : (rows.map Prod.fst).Nodup) (hkey : ∀ r ∈ rows, r.2.medium = r.1) :
    ((addItem rt rows item).map Prod.fst).Nodup ∧
      ∀ r ∈ addItem rt rows item, r.2.medium = r.1 := by
  unfold addItem
  split
  · split
    · rename_i mediumId family _ _
      have hset : ∀ row : MediaRow, row.medium = mediumId →
          ∀ r ∈ OrderedDict.set mediumId row rows, r.2.medium = r.1 := by
        intro row hrow r hr
        have hnd' := OrderedDict.nodup_keys_set (k := mediumId) (v := row) hnd
        have hl := (OrderedDict.lookup_eq_some_iff hnd' (k := r.1) (v := r.2)).mpr hr
        rw [OrderedDict.lookup_set] at hl
        split at hl
        · rename_i heq
          cases hl
          rw [hrow, heq]
        · exact hkey r ((OrderedDict.lookup_eq_some_iff hnd).mp hl)
      dsimp only
      split
      · exact ⟨OrderedDict.nodup_keys_set hnd, hset _ rfl⟩
      · rename_i row hrow
        have hmem := (OrderedDict.lookup_eq_some_iff hnd).mp hrow
        exact ⟨OrderedDict.nodup_keys_set hnd, hset _ (hkey _ hmem)⟩
    · exact ⟨hnd, hkey⟩
  · exact ⟨hnd, hkey⟩

/-- A block has one row per medium. -/
theorem mediaEdgeRows_nodup (media : MediaBlock) :
    ((mediaEdgeRows rt media).map MediaRow.medium).Nodup := by
  have hkeys : ∀ (items : List Json) (rows : List (String × MediaRow)),
      (rows.map Prod.fst).Nodup → (∀ r ∈ rows, r.2.medium = r.1) →
      ((items.foldl (addItem rt) rows).map Prod.fst).Nodup ∧
        ∀ r ∈ items.foldl (addItem rt) rows, r.2.medium = r.1 := by
    intro items
    induction items with
    | nil => exact fun rows hnd hkey => ⟨hnd, hkey⟩
    | cons item items ih =>
      intro rows hnd hkey
      obtain ⟨hnd', hkey'⟩ := addItem_keys rt item hnd hkey
      exact ih _ hnd' hkey'
  obtain ⟨hnd, hkey⟩ := hkeys media.items [] (by simp) (by simp)
  have hmap : (mediaEdgeRows rt media).map MediaRow.medium =
      (media.items.foldl (addItem rt) []).map Prod.fst := by
    rw [mediaEdgeRows, List.map_map]
    exact List.map_congr_left hkey
  rw [hmap]
  exact hnd

/-! ## What a digest determines -/

theorem strings_injective : Function.Injective strings := by
  intro xs ys h
  simp only [strings, Json.arr.injEq] at h
  exact List.map_injective_iff.mpr (fun _ _ h => Json.str.inj h) h

theorem MediaRow.toJson_injective : Function.Injective MediaRow.toJson := by
  rintro ⟨m, f, l, q⟩ ⟨m', f', l', q'⟩ h
  simpa [MediaRow.toJson] using h

variable {rt}

theorem payloadHash_inj (hinj : Function.Injective rt.hexdigest) {xs ys : List Json} :
    payloadHash rt xs = payloadHash rt ys ↔ xs = ys := by
  constructor
  · intro h
    simp only [payloadHash, Json.str.injEq] at h
    exact hinj ((String.append_right_inj _).mp h)
  · rintro rfl; rfl

@[simp] theorem payloadHash_ne_null (xs : List Json) : payloadHash rt xs ≠ .null := nofun

end Brainzgraphinator
