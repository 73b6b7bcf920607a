import StudyArchive.Container.Basic
import StudyArchive.Proofs.Step
/-
# What conforms has bytes

Encoding refuses numbers, texts, arrays and records where the type asks for something else, and
nothing else: whatever conforms to a type has bytes (`Datum.exists_encode`).  So a list of elements
of a dataset's type has a payload (`Container.exists_payload_of_conforms`), and nothing but the
length of a record can keep a write of them out of the log.
-/

namespace StudyArchive

namespace Datum

theorem exists_encodeElement {v : Datum} {e : ElementType} (fits : v.isElement e) :
    ∃ bytes, v.encodeElement e = .ok bytes := by
  cases e with
  | int32 =>
    cases v with
    | int v => exact ⟨_, if_pos fits⟩
    | _ => cases fits
  | int64 | uint64 | real | text =>
    cases v <;> first | exact ⟨_, rfl⟩ | cases fits

theorem exists_encodeElements {e : ElementType} {items : List Datum}
    (fit : ∀ x ∈ items, x.isElement e) : ∃ bytes, encodeElements e items = .ok bytes := by
  induction items with
  | nil => exact ⟨[], rfl⟩
  | cons x rest ih =>
    obtain ⟨first, first_eq⟩ := exists_encodeElement (fit x List.mem_cons_self)
    obtain ⟨more, more_eq⟩ := ih fun y mem => fit y (List.mem_cons_of_mem x mem)
    rw [encodeElements, bind_of_eq_ok first_eq, bind_of_eq_ok more_eq]
    exact ⟨_, rfl⟩

theorem exists_encodeField {v : Datum} {f : Field} (fits : v.isFieldValue f) :
    ∃ bytes, v.encodeField f = .ok bytes := by
  unfold isFieldValue at fits
  unfold encodeField
  cases many : f.length with
  | none =>
    rw [many] at fits
    exact exists_encodeElement fits
  | some n =>
    rw [many] at fits
    cases v with
    | array items =>
      simp only [Bool.and_eq_true, List.all_eq_true] at fits
      exact exists_encodeElements fits.2
    | _ => cases fits

theorem exists_encodeFields {fields : List Field} {values : List Datum}
    (fit : ∀ vf ∈ values.zip fields, vf.1.isFieldValue vf.2) :
    ∃ bytes, encodeFields values fields = .ok bytes := by
  induction fields generalizing values with
  | nil => cases values <;> exact ⟨[], rfl⟩
  | cons f fields ih =>
    cases values with
    | nil => exact ⟨[], rfl⟩
    | cons v values =>
      obtain ⟨first, first_eq⟩ := exists_encodeField (fit (v, f) List.mem_cons_self)
      obtain ⟨more, more_eq⟩ := ih fun vf mem => fit vf (List.mem_cons_of_mem _ mem)
      rw [encodeFields, bind_of_eq_ok first_eq, bind_of_eq_ok more_eq]
      exact ⟨_, rfl⟩

theorem exists_encode {v : Datum} {type : DataType} (fits : v.conforms type) :
    ∃ bytes, v.encode type = .ok bytes := by
  cases type with
  | scalar e => exact exists_encodeElement fits
  | compound fields =>
    cases v with
    | record values =>
      simp only [conforms, Bool.and_eq_true, List.all_eq_true] at fits
      exact exists_encodeFields fits.2
    | _ => cases fits

theorem isElement_zeroOf (e : ElementType) : (zeroOf e).isElement e := by
  cases e <;> decide

/-- The zero of a type conforms to it, so a dataset of any type can be filled with it. -/
theorem conforms_zero (type : DataType) : (zero type).conforms type := by
  cases type with
  | scalar e => exact isElement_zeroOf e
  | compound fields =>
    have zipped (g : Field → Datum) :
        (fields.map g).zip fields = fields.map fun f => (g f, f) := by
      have both : (fields.map g).zip (fields.map id) = _ := List.zip_map'
      rwa [List.map_id] at both
    simp only [zero, conforms, zipped, List.length_map, decide_true, Bool.true_and, List.all_map,
      List.all_eq_true, Function.comp_apply]
    intro f _
    unfold isFieldValue
    cases f.length with
    | none => exact isElement_zeroOf f.element
    | some n => simp [isElement_zeroOf]

end Datum

theorem Container.exists_payload_of_conforms {d : Dataset} {values : List Datum}
    (fit : ∀ v ∈ values, v.conforms d.type) (c : Container) (operation : String) :
    ∃ bytes, c.payload d operation values = .ok bytes := by
  induction values with
  | nil => exact ⟨[], rfl⟩
  | cons v rest ih =>
    have fits := fit v List.mem_cons_self
    obtain ⟨first, first_eq⟩ := Datum.exists_encode fits
    obtain ⟨more, more_eq⟩ := ih fun y mem => fit y (List.mem_cons_of_mem v mem)
    refine ⟨first ++ more, ?_⟩
    simp only [payload, fits, if_true, first_eq, more_eq]
    rfl

end StudyArchive
