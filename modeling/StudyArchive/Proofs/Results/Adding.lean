import StudyArchive.Proofs.Archive.Additions
import StudyArchive.Proofs.Results.Scales
/-
# What a result adds

Putting a result on a shelf adds its dataset and its scales and takes nothing away, also if the
request fails half-way (`Shelf.adds_insert`).  If it succeeds, no dataset lay at the place of the
result before, and the one that lies there then holds it (`Shelf.ends_insert`).
-/

namespace StudyArchive

open Archive Dataset

/-- The places of a result: its own, and those of scales. -/
def Path.IsNear (result q : Path) : Prop :=
  q = result ∨ q.segments.head? = some Path.scalesName

namespace Shelf

variable {a₀ a : Archive} {S : Path → Prop} {path : Path} {e : ElementType} {r : MethodRun}

/-! ## Values, scales and attributes -/

section
variable (place : S path)

include place

theorem adds_putScalar {v : e.Value} : Preserves (Added S a₀) (putScalar path e v) :=
  adds_making place fun _ => works_writeScalar

theorem adds_putVector {values : List e.Value} : Preserves (Added S a₀) (putVector path e values) :=
  adds_making place fun _ => .ite (.pure _) works_writeVector

theorem adds_putMatrix {m : Matrix e.Value} {transpose : Bool} :
    Preserves (Added S a₀) (putMatrix path e m transpose) :=
  adds_making place fun _ => .ite (.pure _) works_writeMatrix

theorem adds_putValue (transpose : Bool) (value : ResultValue) :
    Preserves (Added S a₀) (putValue path transpose value) := by
  cases value with
  | real v | int v | text v => exact adds_putScalar place
  | reals l | ints l | texts l => exact adds_putVector place
  | realMatrix m | intMatrix m | textMatrix m => exact adds_putMatrix place

end

theorem adds_putScale {s : DimScale} (place : S (s.path r path)) :
    Preserves (Added S a₀) (putScale r path s) := by
  unfold putScale
  refine .get fun _ => .ite adds_attachScale ?_
  cases s.data with
  | vector e values => exact .bind (adds_putVector place) fun _ => adds_attachScale
  | matrix e m => exact .bind (adds_putMatrix place) fun _ => adds_attachScale

theorem adds_annotate (places : ∀ s : DimScale, S (s.path r path)) (scales : List DimScale)
    (attributes : List Attribute) :
    Preserves (Added S a₀) (annotate r path scales attributes) :=
  .bind (.forM fun s => adds_putScale (places s)) fun _ => .forM fun _ => adds_setAttribute

/-! ## A result -/

section
variable {location : List String} {value : ResultValue} {scales : List DimScale}
  {attributes : List Attribute} {transpose : Bool}

/-- However it ends, a request to keep a result adds datasets at its places only. -/
theorem adds_insert :
    Preserves (fun shelf => Added (r.resultPath location).IsNear a₀ shelf.archive)
      (serve (.insert r location value scales attributes transpose)) := by
  have places (s : DimScale) :
      (r.resultPath location).IsNear (s.path r (r.resultPath location)) := .inr (s.head?_path ..)
  refine .bind (preserves_meet (fun _ => adds_createGroup) (fun _ _ _ => adds_setAttribute) r)
    fun _ => ?_
  exact .bind (preserves_onArchive (adds_putValue (.inl rfl) transpose value)) fun _ =>
    preserves_onArchive (adds_annotate places scales attributes)

theorem ends_insert {shelf : Shelf} (coherent : shelf.archive.Coherent) :
    Ends (serve (.insert r location value scales attributes transpose)) shelf
      (fun _ shelf' => shelf.archive.tree.at? (r.resultPath location) = none ∧
        ∃ d, shelf'.archive.tree.at? (r.resultPath location) = some d ∧ value.HeldBy d transpose)
      (fun _ _ => True) := by
  refine ends_bind.2 ((touches_meet (S := fun _ => False) shelf coherent.touched).mono ?_
    fun _ _ _ => trivial)
  intro _ met touched
  refine ends_bind.2 (ends_onArchive.2 ?_)
  cases found : shelf.archive.tree.at? (r.resultPath location) with
  | some d =>
    obtain ⟨d', there, -⟩ := touched.tree.kept _ d not_false found
    refine (ends_putValue_refused (fun _ _ _ _ _ => ?_) transpose value).imp fun _ _ => False.elim
    exact ends_createDataset_occupied touched.coherent there
  | none =>
    refine (ends_putValue touched.coherent transpose value).imp ?_
    rintro _ b ⟨e, dims, data, stored, held⟩
    obtain ⟨d, there, holds, -⟩ := stored.here
    have annotates : Preserves (Added (fun _ => True) b)
        (annotate r (r.resultPath location) scales attributes) :=
      adds_annotate (fun _ => trivial) scales attributes
    refine ends_onArchive.2 ((annotates b stored.coherent.added).mono ?_ fun _ _ _ => trivial)
    intro _ c added
    obtain ⟨d', there', same⟩ := added.tree.kept _ d there
    exact ⟨rfl, d', there', (held d holds).sameData same⟩

end

end Shelf
end StudyArchive
