import Mathlib.Data.List.MinMax
import StudyArchive.Parameters.Table
import StudyArchive.Proofs.Container.Listing
import StudyArchive.Proofs.Datum.Conforming
/-
# How parameters are laid out

A record of parameters has a row exactly when its kind has the parameters that it tells, with their
types (`ParamRecord.Suits`), and then the row is known outright: the count, if the kind has arrays,
and after it one cell for each parameter (`ParamTable.laid`).  Whatever the width of the table, such
a row is an element of the table's type (`ParamTable.conforms_laid`).  What the width is matters to
what is in the cells: it is no smaller than any array of the table, so no array is cut
(`ParamTable.cell?_array`).

One count stands for all the arrays of a row, and it is the length of the longest.  So the count
tells where an array ends only if no array of the record is longer (`ParamTable.recovers_longest`);
of every other one it takes filling for data (`ParamTable.count_takes_filling`).
-/

namespace StudyArchive

/-! ## The parameters of a kind

The names of a kind's parameters are distinct, so a parameter is found by its name. -/

namespace VariableKind

/-- The parameters of a kind have different names, and none is called like the count. -/
theorem nodup_names (k : VariableKind) :
    ("num_elements" :: k.fields.map (·.name)).Nodup := by
  cases k <;> decide +kernel

theorem field_eq_of_name {k : VariableKind} {f g : ParamField} (hf : f ∈ k.fields)
    (hg : g ∈ k.fields) (same : f.name = g.name) : f = g :=
  List.inj_on_of_nodup_map (List.nodup_cons.1 k.nodup_names).2 hf hg same

theorem exists_findIdx? {k : VariableKind} {f : ParamField} (field : f ∈ k.fields) :
    ∃ j, k.fields.findIdx? (·.name = f.name) = some j ∧ k.fields[j]? = some f := by
  cases found : k.fields.findIdx? (·.name = f.name) with
  | none => exact absurd (List.findIdx?_eq_none_iff.1 found f field) (by simp)
  | some j =>
    obtain ⟨inside, named, -⟩ := List.findIdx?_eq_some_iff_getElem.1 found
    have same : k.fields[j] = f :=
      field_eq_of_name (List.getElem_mem inside) field (of_decide_eq_true named)
    exact ⟨j, rfl, List.getElem?_eq_some_iff.2 ⟨inside, same⟩⟩

theorem hasArrays_of_mem {k : VariableKind} {f : ParamField} (mem : f ∈ k.fields)
    (array : f.type.isArray) : k.hasArrays := List.any_eq_true.2 ⟨f, mem, array⟩

end VariableKind

/-! ## Values and records -/

namespace ParamValue

theorem isElement_of_mem {v : ParamValue} {x : Datum} (mem : x ∈ v.data) :
    x.isElement v.type.element := by
  cases v with
  | int v =>
    obtain rfl := List.mem_singleton.1 mem
    exact Datum.fitsInt32_toInt64 v
  | ints l =>
    obtain ⟨v, -, rfl⟩ := List.mem_map.1 mem
    exact Datum.fitsInt32_toInt64 v
  | real _ | text _ =>
    obtain rfl := List.mem_singleton.1 mem
    rfl
  | reals _ | texts _ =>
    obtain ⟨_, -, rfl⟩ := List.mem_map.1 mem
    rfl

theorem length_data {v : ParamValue} (array : v.type.isArray) : v.data.length = v.arrayLength := by
  cases v with
  | real _ | int _ | text _ => cases array
  | reals l | ints l | texts l => exact List.length_map _

end ParamValue

namespace ParamRecord

variable {r : ParamRecord} {k : VariableKind} {name : String} {v : ParamValue}

/-- Records that tell parameters of a kind only, each of its type. -/
def Suits (r : ParamRecord) (k : VariableKind) : Prop :=
  ∀ name v, r.get? name = some v → ⟨name, v.type⟩ ∈ k.fields

/-- What a record tells of a parameter. -/
def data (r : ParamRecord) (name : String) : List Datum :=
  ((r.get? name).map ParamValue.data).getD []

theorem data_of_get? (told : r.get? name = some v) : r.data name = v.data := by
  unfold data
  rw [told]
  rfl

theorem mem_values (told : r.get? name = some v) : v ∈ r.values :=
  List.mem_map.2 ⟨_, SortedMap.mem_entries_iff.2 told, rfl⟩

theorem arrayLength_le_longest (told : r.get? name = some v) : v.arrayLength ≤ r.longest :=
  List.le_max_of_le' 0 (List.mem_map.2 ⟨v, mem_values told, rfl⟩) (Nat.le_refl _)

theorem longest_le {n : Nat} (small : ∀ v ∈ r.values, v.arrayLength ≤ n) : r.longest ≤ n := by
  refine List.max_le_of_forall_le _ n fun length mem => ?_
  obtain ⟨v, value, rfl⟩ := List.mem_map.1 mem
  exact small v value

/-- What is told of a parameter of the kind is of its type. -/
theorem Suits.isElement (suits : r.Suits k) {f : ParamField} (field : f ∈ k.fields) {x : Datum}
    (mem : x ∈ r.data f.name) : x.isElement f.type.element := by
  cases told : r.get? f.name with
  | none =>
    unfold data at mem
    rw [told] at mem
    cases mem
  | some v =>
    rw [data_of_get? told] at mem
    have same : ⟨f.name, v.type⟩ = f := VariableKind.field_eq_of_name (suits _ v told) field rfl
    rw [← same]
    exact ParamValue.isElement_of_mem mem

/-- The names are those of the kind, and the types those of its parameters. -/
theorem suits_iff : r.Suits k ↔
    (∀ name ∈ r.keys, k.fields.any (·.name = name)) ∧
      ∀ f ∈ k.fields, ∀ v, r.get? f.name = some v → v.type = f.type := by
  constructor
  · intro suits
    refine ⟨fun name mem => ?_, fun f field v told => ?_⟩
    · obtain ⟨⟨name, v⟩, entry, rfl⟩ := List.mem_map.1 mem
      have field := suits name v (SortedMap.mem_entries_iff.1 entry)
      exact List.any_eq_true.2 ⟨_, field, decide_eq_true rfl⟩
    · have same : ⟨f.name, v.type⟩ = f :=
        VariableKind.field_eq_of_name (suits _ v told) field rfl
      exact congrArg ParamField.type same
  · rintro ⟨known, typed⟩ name v told
    have key : name ∈ r.keys := List.mem_map.2 ⟨_, SortedMap.mem_entries_iff.2 told, rfl⟩
    obtain ⟨f, field, named⟩ := List.any_eq_true.1 (known name key)
    obtain rfl : f.name = name := of_decide_eq_true named
    rw [typed f field v told]
    exact field

end ParamRecord

namespace ParamTable

variable {path : Path} {k : VariableKind} {r : ParamRecord} {records : List ParamRecord}
  {t : ParamTable} {w : Nat}

/-! ## Padding

An array is filled up to the width of the table, which is that of the longest one. -/

section
variable {filling : Datum} {items : List Datum}

theorem pad_eq_append (room : items.length ≤ w) :
    pad w filling items = items ++ List.replicate (w - items.length) filling := by
  unfold pad
  rw [List.take_of_length_le room]

theorem length_pad (w : Nat) (filling : Datum) (items : List Datum) :
    (pad w filling items).length = w := by
  unfold pad
  rw [List.length_append, List.length_take, List.length_replicate]
  omega

theorem mem_pad {x : Datum} (mem : x ∈ pad w filling items) : x ∈ items ∨ x = filling :=
  (List.mem_append.1 mem).imp List.mem_of_mem_take List.eq_of_mem_replicate

end

/-- What fills the cells of a parameter is of its type. -/
theorem isElement_missing (t : ParamType) : (missing t.element).isElement t.element := by
  cases t <;> decide +kernel

/-! ## The rows -/

/-- The row of a record that suits its kind. -/
def laid (k : VariableKind) (w : Nat) (r : ParamRecord) : Datum :=
  let cells := k.fields.map fun f => cell w f.type (r.data f.name)
  .record (if k.hasArrays then .int (Int64.ofNat r.longest) :: cells else cells)

theorem cells_eq_ok_iff {fields : List ParamField} {values : List Datum} :
    cells path w r fields = .ok values ↔
      (∀ f ∈ fields, ∀ v, r.get? f.name = some v → v.type = f.type) ∧
        values = fields.map fun f => cell w f.type (r.data f.name) := by
  induction fields generalizing values with
  | nil =>
    rw [cells]
    constructor
    · intro h
      cases h
      exact ⟨by simp, rfl⟩
    · rintro ⟨-, rfl⟩
      rfl
  | cons f fields ih =>
    -- After the first cell the others are as the induction says, whatever the first one is.
    have after (first : Datum) : (do return first :: (← cells path w r fields)) =
        (Except.ok values : Except StorageError (List Datum)) ↔
        (∀ g ∈ fields, ∀ v, r.get? g.name = some v → v.type = g.type) ∧
          values = first :: fields.map fun g => cell w g.type (r.data g.name) := by
      constructor
      · intro h
        obtain ⟨rest, told, h⟩ := exists_of_bind_eq_ok h
        cases h
        obtain ⟨typed, rfl⟩ := ih.1 told
        exact ⟨typed, rfl⟩
      · rintro ⟨typed, rfl⟩
        rw [bind_of_eq_ok (ih.2 ⟨typed, rfl⟩)]
        rfl
    rw [cells, List.map_cons, List.forall_mem_cons, ParamRecord.data]
    cases told : r.get? f.name with
    | none => simpa using after _
    | some v =>
      by_cases typed : v.type = f.type
      · simpa [typed] using after _
      · simp [typed]

theorem row_eq_ok_iff {v : Datum} : row path k w r = .ok v ↔ r.Suits k ∧ v = laid k w r := by
  rw [ParamRecord.suits_iff]
  unfold row
  cases unknown : r.keys.find? fun name => !k.fields.any (·.name = name) with
  | some name =>
    have key := List.mem_of_find?_eq_some unknown
    have none := List.find?_some unknown
    constructor
    · intro h
      cases h
    · rintro ⟨⟨known, -⟩, -⟩
      rw [known name key] at none
      cases none
  | none =>
    have known : ∀ name ∈ r.keys, k.fields.any (·.name = name) := by
      simpa using List.find?_eq_none.1 unknown
    constructor
    · intro h
      obtain ⟨values, told, h⟩ := exists_of_bind_eq_ok h
      cases h
      obtain ⟨typed, rfl⟩ := cells_eq_ok_iff.1 told
      exact ⟨⟨known, typed⟩, rfl⟩
    · rintro ⟨⟨-, typed⟩, rfl⟩
      have told : cells path w r k.fields =
          .ok (k.fields.map fun f => cell w f.type (r.data f.name)) :=
        cells_eq_ok_iff.2 ⟨typed, rfl⟩
      simp only
      rw [bind_of_eq_ok told]
      rfl

theorem rowsOf_eq_ok_iff {rows : List Datum} :
    rowsOf path k w records = .ok rows ↔
      (∀ r ∈ records, r.Suits k) ∧ rows = records.map (laid k w) := by
  induction records generalizing rows with
  | nil =>
    rw [rowsOf]
    constructor
    · intro h
      cases h
      exact ⟨by simp, rfl⟩
    · rintro ⟨-, rfl⟩
      rfl
  | cons r records ih =>
    rw [rowsOf, List.map_cons, List.forall_mem_cons]
    constructor
    · intro h
      obtain ⟨first, first_eq, h⟩ := exists_of_bind_eq_ok h
      obtain ⟨rest, rest_eq, h⟩ := exists_of_bind_eq_ok h
      cases h
      obtain ⟨suits, rfl⟩ := row_eq_ok_iff.1 first_eq
      obtain ⟨others, rfl⟩ := ih.1 rest_eq
      exact ⟨⟨suits, others⟩, rfl⟩
    · rintro ⟨⟨suits, others⟩, rfl⟩
      rw [bind_of_eq_ok (row_eq_ok_iff.2 ⟨suits, rfl⟩), bind_of_eq_ok (ih.2 ⟨others, rfl⟩)]
      rfl

theorem build_eq_ok_iff : build path k records = .ok t ↔
    (∀ r ∈ records, r.Suits k) ∧
      t = ⟨columns k (width records), records.map (laid k (width records))⟩ := by
  unfold build
  constructor
  · intro h
    obtain ⟨rows, told, h⟩ := exists_of_bind_eq_ok h
    cases h
    obtain ⟨suit, rfl⟩ := rowsOf_eq_ok_iff.1 told
    exact ⟨suit, rfl⟩
  · rintro ⟨suit, rfl⟩
    simp only
    rw [bind_of_eq_ok (rowsOf_eq_ok_iff.2 ⟨suit, rfl⟩)]
    rfl

/-- Records have a table exactly if all of them suit the kind. -/
theorem exists_build_iff :
    (∃ t, build path k records = .ok t) ↔ ∀ r ∈ records, r.Suits k :=
  ⟨fun ⟨_, built⟩ => (build_eq_ok_iff.1 built).1, fun suit => ⟨_, build_eq_ok_iff.2 ⟨suit, rfl⟩⟩⟩

/-! ## The type of the rows -/

theorem isFieldValue_cell {f : ParamField} {data : List Datum}
    (fit : ∀ x ∈ data, x.isElement f.type.element) :
    (cell w f.type data).isFieldValue (column w f) := by
  unfold cell column Datum.isFieldValue
  cases array : f.type.isArray with
  | false =>
    cases data with
    | nil => exact isElement_missing f.type
    | cons x rest => exact fit x List.mem_cons_self
  | true =>
    have each : (pad w (missing f.type.element) data).all (·.isElement f.type.element) := by
      refine List.all_eq_true.2 fun x mem => ?_
      rcases mem_pad mem with item | rfl
      · exact fit x item
      · exact isElement_missing f.type
    simp [length_pad, each]

theorem fitsInt32_ofNat {n : Nat} (small : n < 2 ^ 31) : Datum.fitsInt32 (Int64.ofNat n) := by
  have wide : (Int64.ofNat n).toInt = n := Int64.toInt_ofNat_of_lt (by omega)
  have narrow : (Int32.ofNat n).toInt = n := Int32.toInt_ofNat_of_lt small
  have same : Int64.ofNat n = (Int32.ofNat n).toInt64 := by
    apply Int64.toInt.inj
    rw [wide, Int32.toInt_toInt64, narrow]
  rw [same]
  exact Datum.fitsInt32_toInt64 _

/-- Whatever its width, a table has the type that its columns tell. -/
theorem conforms_laid (suits : r.Suits k) (small : r.longest < 2 ^ 31) :
    (laid k w r).conforms (.compound (columns k w)) := by
  have each (f : ParamField) (field : f ∈ k.fields) :
      (cell w f.type (r.data f.name)).isFieldValue (column w f) :=
    isFieldValue_cell fun _ mem => suits.isElement field mem
  have count : (Datum.int (Int64.ofNat r.longest)).isFieldValue ⟨"num_elements", .int32, none⟩ :=
    fitsInt32_ofNat small
  unfold laid columns Datum.conforms
  cases k.hasArrays with
  | false => simpa [List.zip_map'] using each
  | true => simpa [List.zip_map', count] using each

/-! ## The cells

What a reader of the table gets: a cell of each column, and a count for all the arrays. -/

/-- The value of a column in a row. -/
def cell? (t : ParamTable) (i : Nat) (name : String) : Option Datum := do
  match t.rows[i]? with
  | some (.record values) => values[← DataType.fieldIndex? t.fields name]?
  | _ => none

section
variable (built : build path k records = .ok t) {i : Nat} (told : records[i]? = some r)

include built told

theorem cell?_field {f : ParamField} (field : f ∈ k.fields) :
    t.cell? i f.name = some (cell (width records) f.type (r.data f.name)) := by
  obtain ⟨-, rfl⟩ := build_eq_ok_iff.1 built
  obtain ⟨j, found, here⟩ := VariableKind.exists_findIdx? field
  have other : "num_elements" ≠ f.name := fun same =>
    (List.nodup_cons.1 k.nodup_names).1 (List.mem_map.2 ⟨f, field, same.symm⟩)
  have place : (k.fields.map (column (width records))).findIdx? (·.name = f.name) = some j := by
    rw [List.findIdx?_map]
    exact found
  unfold cell?
  cases counted : k.hasArrays with
  | false => simp [told, laid, columns, DataType.fieldIndex?, counted, place, here]
  | true =>
    simp [told, laid, columns, DataType.fieldIndex?, counted, List.findIdx?_cons, other, place,
      here]

theorem cell?_count (arrays : k.hasArrays) :
    t.cell? i "num_elements" = some (.int (Int64.ofNat r.longest)) := by
  obtain ⟨-, rfl⟩ := build_eq_ok_iff.1 built
  unfold cell?
  simp [told, laid, columns, arrays, DataType.fieldIndex?, List.findIdx?_cons]

end

theorem longest_le_width (mem : r ∈ records) : r.longest ≤ width records :=
  (List.le_max_of_le' 0 (List.mem_map.2 ⟨r, mem, rfl⟩) (Nat.le_refl _)).trans (Nat.le_max_left ..)

section
variable {name : String} {v : ParamValue} {i : Nat}

/-- An array of a record lies in its cell from the front, and filling after it. -/
theorem cell?_array (built : build path k records = .ok t) (told : records[i]? = some r)
    (value : r.get? name = some v) (array : v.type.isArray) :
    t.cell? i name = some (.array
      (v.data ++ List.replicate (width records - v.data.length) (missing v.type.element))) := by
  have mem := List.mem_of_getElem? told
  have field := (build_eq_ok_iff.1 built).1 r mem name v value
  have room : v.data.length ≤ width records := by
    rw [ParamValue.length_data array]
    exact (ParamRecord.arrayLength_le_longest value).trans (longest_le_width mem)
  rw [cell?_field built told field, ParamRecord.data_of_get? value, cell, if_pos array,
    pad_eq_append room]

/-- Every array of a record begins its cell and is followed by filling only.  The count of the row
is the length of the longest one, so what it tells to be the array is the array exactly if that is
one of the longest. -/
theorem recovers_longest (built : build path k records = .ok t) (told : records[i]? = some r)
    (value : r.get? name = some v) (array : v.type.isArray) :
    ∃ items, t.cell? i "num_elements" = some (.int (Int64.ofNat r.longest)) ∧
      t.cell? i name = some (.array items) ∧
      items.take v.arrayLength = v.data ∧
      (∀ x ∈ items.drop v.arrayLength, x = missing v.type.element) ∧
      (items.take r.longest = v.data ↔ v.arrayLength = r.longest) := by
  have mem := List.mem_of_getElem? told
  have field := (build_eq_ok_iff.1 built).1 r mem name v value
  have length := ParamValue.length_data array
  have short := ParamRecord.arrayLength_le_longest value
  have room := longest_le_width mem
  refine ⟨_, cell?_count built told (VariableKind.hasArrays_of_mem field array),
    cell?_array built told value array, ?_, ?_, ?_⟩
  · rw [← length, List.take_left]
  · intro x mem
    rw [← length, List.drop_left] at mem
    exact List.eq_of_mem_replicate mem
  · constructor
    · intro same
      have lengths := congrArg List.length same
      simp only [List.length_take, List.length_append, List.length_replicate, length] at lengths
      omega
    · intro same
      rw [← same, ← length, List.take_left]

end

/-- Three elements, and a probability for the first of them only. -/
def uneven : ParamRecord :=
  ((∅ : ParamRecord).insert "elements" (.ints [1, 2, 3])).insert "probabilities"
    (.reals [⟨0x3FE0000000000000⟩])

/-- The table of one uneven record. -/
def unevenTable : ParamTable :=
  ⟨columns .discreteUncertainSetInt 3, [laid .discreteUncertainSetInt 3 uneven]⟩

theorem recovers_longest_of_uneven :
    build .root .discreteUncertainSetInt [uneven] = .ok unevenTable ∧
      ∃ items, unevenTable.cell? 0 "num_elements" = some (.int (Int64.ofNat uneven.longest)) ∧
        unevenTable.cell? 0 "elements" = some (.array items) ∧
        items.take 3 = [.int 1, .int 2, .int 3] ∧
        (∀ x ∈ items.drop 3, x = missing .int32) ∧
        (items.take uneven.longest = [.int 1, .int 2, .int 3] ↔ 3 = uneven.longest) := by
  have built : build .root .discreteUncertainSetInt [uneven] = .ok unevenTable := by
    decide +kernel
  have value : uneven.get? "elements" = some (.ints [1, 2, 3]) := by decide +kernel
  exact ⟨built, recovers_longest (i := 0) (v := .ints [1, 2, 3]) built rfl value rfl⟩

/-- The record has a table, and what the count tells to be the probabilities is not what they
are. -/
theorem count_takes_filling : ∃ items,
    build .root .discreteUncertainSetInt [uneven] = .ok unevenTable ∧
    uneven.get? "probabilities" = some (.reals [⟨0x3FE0000000000000⟩]) ∧
    unevenTable.cell? 0 "num_elements" = some (.int 3) ∧
    unevenTable.cell? 0 "probabilities" = some (.array items) ∧
    items.take 3 ≠ (ParamValue.reals [⟨0x3FE0000000000000⟩]).data :=
  ⟨[.real ⟨0x3FE0000000000000⟩, .real .nan, .real .nan], by decide +kernel⟩

end ParamTable
end StudyArchive
