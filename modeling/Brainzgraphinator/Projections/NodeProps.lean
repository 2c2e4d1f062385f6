-- SUMMARY: The properties a gated write leaves on its node, and what the stored digest says about them.
import Brainzgraphinator.Projections.EntityBatch

/-!
# Properties of an entity node

A gated write sets the mapped properties of its kind and two stamps, the digest
and the time. `Carries` says that a node has what a record projects. While every
stored digest is that of a record the node carries (`Truthful`), a write leaves
the node with its own record, whether the gate let it through or not
(`gatedWrite_carries`).
-/

namespace Brainzgraphinator

/-! ## The written row -/

theorem setFields_of_not_mem {fields : Fields} {row : Dict} {n : Props} {key : String}
    (h : key ∉ fields.map Prod.fst) : setFields fields row n key = n key := by
  induction fields generalizing n with
  | nil => rfl
  | cons field fields ih =>
    rw [List.map_cons, List.mem_cons, not_or] at h
    obtain ⟨hne, hnot⟩ := h
    rw [setFields, List.foldl_cons, ← setFields, ih hnot, Function.update_of_ne hne]

theorem setFields_of_mem {fields : Fields} (hnd : (fields.map Prod.fst).Nodup) {row : Dict}
    {n : Props} {field : String × String} (h : field ∈ fields) :
    setFields fields row n field.1 = row.get field.2 := by
  induction fields generalizing n with
  | nil => cases h
  | cons first fields ih =>
    obtain ⟨hfirst, hnd⟩ := List.nodup_cons.mp hnd
    rw [setFields, List.foldl_cons, ← setFields]
    rcases List.mem_cons.mp h with rfl | h
    · rw [setFields_of_not_mem hfirst, Function.update_self]
    · exact ih hnd h

/-- The stamps of a gated write. -/
def stamps : List String := ["mb_hash", "mb_updated_at"]

/-- The mapped properties are distinct, and none of them is a stamp. -/
structure EntitySpec.WellFormed (spec : EntitySpec) : Prop where
  nodup : (spec.fields.map Prod.fst).Nodup
  stamps : ∀ key ∈ stamps, key ∉ spec.fields.map Prod.fst

theorem artistSpec_wellFormed : artistSpec.WellFormed := ⟨by decide, by decide⟩

theorem releaseSpec_wellFormed (rt : Runtime) : (releaseSpec rt).WellFormed :=
  ⟨(by decide : (releaseFields.map Prod.fst).Nodup),
    (by decide : ∀ key ∈ Brainzgraphinator.stamps, key ∉ releaseFields.map Prod.fst)⟩

section WriteRow

variable (now : Json) (row : EntityRow) (n : Props)

theorem writeRow_hash (fields : Fields) : writeRow fields now row n "mb_hash" = row.mbHash := by
  simp [writeRow]

theorem writeRow_field {spec : EntitySpec} (hspec : spec.WellFormed) {field : String × String}
    (h : field ∈ spec.fields) : writeRow spec.fields now row n field.1 = row.row.get field.2 := by
  have hmem : field.1 ∈ spec.fields.map Prod.fst := List.mem_map_of_mem h
  have hhash : field.1 ≠ "mb_hash" := fun heq => hspec.stamps "mb_hash" (by decide) (heq ▸ hmem)
  have htime : field.1 ≠ "mb_updated_at" :=
    fun heq => hspec.stamps "mb_updated_at" (by decide) (heq ▸ hmem)
  rw [writeRow, Function.update_of_ne htime, Function.update_of_ne hhash]
  exact setFields_of_mem hspec.nodup h

theorem writeRow_of_not_mem {fields : Fields} {key : String}
    (h : key ∉ fields.map Prod.fst ++ stamps) : writeRow fields now row n key = n key := by
  simp only [stamps, List.mem_append, List.mem_cons, List.not_mem_nil, or_false, not_or] at h
  rw [writeRow, Function.update_of_ne h.2.2, Function.update_of_ne h.2.1, setFields_of_not_mem h.1]

theorem gatedWrite_of_not_mem (gate : Bool) {fields : Fields} {key : String}
    (h : key ∉ fields.map Prod.fst ++ stamps) : gatedWrite gate fields now row n key = n key := by
  rw [gatedWrite]
  split
  · exact writeRow_of_not_mem now row n h
  · rfl

end WriteRow

/-- A gated write leaves the other properties of every node alone. -/
theorem NodeWrite.eq_of_not_mem {rt : Runtime} {gate : Bool} {now : Json} {spec : EntitySpec}
    {records : List Dict} {g g' : Graph} (h : NodeWrite rt gate now spec records g g') {key : String}
    (hkey : key ∉ spec.fields.map Prod.fst ++ stamps) (k : NodeKey) :
    (g'.node k).map (· key) = (g.node k).map (· key) := by
  by_cases hk : k.label = spec.kind
  · cases hlast : lastOf rt spec.idKey records k.id with
    | none => rw [h.frame k fun _ => hlast]
    | some record =>
      obtain ⟨row, _, hnode⟩ := h.written k.id record hlast
      rw [← hk] at hnode
      rw [hnode, Option.map_map]
      congr 1
      funext n
      exact gatedWrite_of_not_mem now row n gate hkey
  · rw [h.frame k fun hk' => absurd hk' hk]

/-! ## Carrying a record -/

section Carries

variable {rt : Runtime} {spec : EntitySpec} {n : Props}

/-- The node has the digest and the mapped properties of the record. -/
def Carries (rt : Runtime) (spec : EntitySpec) (record : Dict) (n : Props) : Prop :=
  ∃ row, spec.Projects rt record row ∧ n "mb_hash" = row.mbHash ∧
    ∀ field ∈ spec.fields, n field.1 = row.row.get field.2

/-- The stored digest, if there is one, is that of a record the node carries. -/
def Truthful (rt : Runtime) (spec : EntitySpec) (n : Props) : Prop :=
  n "mb_hash" = .null ∨ ∃ record, Carries rt spec record n

/-- A truthful node with the digest of a record carries that record. -/
theorem Truthful.carries (hinj : Function.Injective rt.hexdigest) (h : Truthful rt spec n)
    {record : Dict} {row : EntityRow} (hproj : spec.Projects rt record row)
    (hhash : n "mb_hash" = row.mbHash) : Carries rt spec record n := by
  rcases h with hnull | ⟨record', row', hproj', hhash', hfields'⟩
  · rw [hnull, hproj.2] at hhash
    exact absurd hhash.symm (payloadHash_ne_null _)
  · have heq := hhash'.symm.trans hhash
    rw [hproj.2, hproj'.2, payloadHash_inj hinj, List.cons.injEq, Json.obj.injEq] at heq
    refine ⟨row, hproj, hhash, fun field hfield => ?_⟩
    rw [hfields' field hfield, heq.1]

variable (gate : Bool) (now : Json) in
/-- After a gated write the node carries the record, gated out or not. -/
theorem gatedWrite_carries (hspec : spec.WellFormed) (hinj : Function.Injective rt.hexdigest)
    (h : Truthful rt spec n) {record : Dict} {row : EntityRow} (hproj : spec.Projects rt record row) :
    Carries rt spec record (gatedWrite gate spec.fields now row n) := by
  rw [gatedWrite]
  split
  · exact ⟨row, hproj, writeRow_hash now row n _, fun field hf => writeRow_field now row n hspec hf⟩
  · rename_i hc
    refine h.carries hinj hproj ?_
    simp only [changed, Bool.or_eq_true, decide_eq_true_eq, not_or, not_not] at hc
    exact hc.2.2

theorem Carries.congr {record : Dict} {n' : Props} (h : Carries rt spec record n)
    (hhash : n' "mb_hash" = n "mb_hash") (hfields : ∀ field ∈ spec.fields, n' field.1 = n field.1) :
    Carries rt spec record n' := by
  obtain ⟨row, hproj, hdigest, hrow⟩ := h
  exact ⟨row, hproj, hhash.trans hdigest, fun field hf => (hfields field hf).trans (hrow field hf)⟩

theorem Truthful.congr {n' : Props} (h : Truthful rt spec n) (hhash : n' "mb_hash" = n "mb_hash")
    (hfields : ∀ field ∈ spec.fields, n' field.1 = n field.1) : Truthful rt spec n' := by
  rcases h with hnull | ⟨record, hcarries⟩
  · exact .inl (hhash.trans hnull)
  · exact .inr ⟨record, hcarries.congr hhash hfields⟩

/-- After a write the node of the last record of an id carries it. -/
theorem NodeWrite.carries {gate : Bool} {now : Json} {records : List Dict} {g g' : Graph}
    (h : NodeWrite rt gate now spec records g g') (hspec : spec.WellFormed)
    (hinj : Function.Injective rt.hexdigest)
    (htruthful : ∀ id n, g.node ⟨spec.kind, id⟩ = some n → Truthful rt spec n) {id : String}
    {record : Dict} {n' : Props} (hlast : lastOf rt spec.idKey records id = some record)
    (hn' : g'.node ⟨spec.kind, id⟩ = some n') : Carries rt spec record n' := by
  obtain ⟨row, hproj, hnode⟩ := h.written id record hlast
  rw [hnode, Option.map_eq_some_iff] at hn'
  obtain ⟨n, hn, rfl⟩ := hn'
  exact gatedWrite_carries gate now hspec hinj (htruthful id n hn) hproj

/-- Writes keep the stored digests truthful. -/
theorem NodeWrite.truthful {gate : Bool} {now : Json} {records : List Dict} {g g' : Graph}
    (h : NodeWrite rt gate now spec records g g') (hspec : spec.WellFormed)
    (hinj : Function.Injective rt.hexdigest)
    (htruthful : ∀ id n, g.node ⟨spec.kind, id⟩ = some n → Truthful rt spec n) {id : String}
    {n' : Props} (hn' : g'.node ⟨spec.kind, id⟩ = some n') : Truthful rt spec n' := by
  cases hlast : lastOf rt spec.idKey records id with
  | none =>
    rw [h.frame ⟨spec.kind, id⟩ fun _ => hlast] at hn'
    exact htruthful id n' hn'
  | some record => exact .inr ⟨record, h.carries hspec hinj htruthful hlast hn'⟩

/-- Two nodes that carry the same record have the same digest and mapped properties. -/
theorem Carries.unique {record : Dict} {n' : Props} (h : Carries rt spec record n)
    (h' : Carries rt spec record n') :
    n "mb_hash" = n' "mb_hash" ∧ ∀ field ∈ spec.fields, n field.1 = n' field.1 := by
  obtain ⟨row, hproj, hhash, hfields⟩ := h
  obtain ⟨row', hproj', hhash', hfields'⟩ := h'
  obtain ⟨hrow, hdigest⟩ := hproj.unique hproj'
  refine ⟨by rw [hhash, hhash', hdigest], fun field hf => ?_⟩
  rw [hfields field hf, hfields' field hf, hrow]

end Carries

end Brainzgraphinator
