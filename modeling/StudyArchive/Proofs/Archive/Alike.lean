import StudyArchive.Proofs.Archive.Calls
import StudyArchive.Proofs.Container.Framed
/-
# Archives that are the same but for their data

Two archives whose trees are the same when bare make and fill datasets, attach scales and set
attributes side by side (`Archive.Coupled`): they find the same datasets, refuse for the same
reasons, and are alike again.  Only what asks whether a dataset grows, or for its cells, can tell
them apart.
-/

namespace StudyArchive.Archive

variable {a b : Archive} {α : Type} {path : Path} {e : ElementType}

/-- A step of the container that two containers take together. -/
theorem together_onContainer {R : Mounted → Mounted → Prop} {act : Container.Action α}
    (steps : Together R act act a.mounted b.mounted) :
    Together (fun a b => R a.mounted b.mounted) (onContainer act) (onContainer act) a b := by
  cases steps with
  | ok left right related =>
    exact .ok (by rw [onContainer, left]) (by rw [onContainer, right]) related
  | error left right related =>
    exact .error (by rw [onContainer, left]) (by rw [onContainer, right]) related

theorem onContainer_eq_ok {act : Container.Action α} {v : α} {m : Mounted}
    (h : act a.mounted = .ok v m) : onContainer act a = .ok v { a with mounted := m } := by
  rw [onContainer, h]

/-- Two archives over containers whose trees are the same when bare. -/
def AlikeBelow (a b : Archive) : Prop := Mounted.Alike a.mounted b.mounted

namespace AlikeBelow

variable (h : AlikeBelow a b)

include h

theorem dataset (id : DatasetId) : (a.dataset id).bare = (b.dataset id).bare :=
  Mounted.Alike.dataset h id

theorem put (id : DatasetId) (operation : String) (s : Selection) (data : List Datum) :
    Together AlikeBelow (put id operation s data) (Archive.put id operation s data) a b :=
  together_onContainer (Mounted.Alike.write h id operation s data)

theorem putRows (id : DatasetId) (operation : String) (lead : List Nat) (width row : Nat)
    (rows : List (List e.Value)) :
    Together AlikeBelow (putRows id operation lead width row rows)
      (Archive.putRows id operation lead width row rows) a b := by
  induction rows generalizing row a b with
  | nil => exact together_pure h
  | cons values rest ih => exact (h.put ..).bind fun _ _ _ h' => ih h' (row + 1)

theorem putMatrix (id : DatasetId) (operation : String) (lead : List Nat) (m : Matrix e.Value)
    (transpose : Bool) :
    Together AlikeBelow (putMatrix id operation lead m transpose)
      (Archive.putMatrix id operation lead m transpose) a b := by
  unfold Archive.putMatrix
  refine .get ?_
  simp only [Dataset.dims_eq_of_bare (h.dataset id), Dataset.path_eq_of_bare (h.dataset id)]
  refine .ite (fun _ => ?_) fun _ => .error rfl rfl h
  exact .ite (fun _ => h.put ..) fun _ => h.putRows ..

end AlikeBelow

/-- Two archives that are the same but for their data and for what they remember, which is right. -/
structure Coupled (a b : Archive) : Prop where
  below : AlikeBelow a b
  left : a.Transparent
  right : b.Transparent

namespace Coupled

variable (h : Coupled a b)

include h

theorem contains_eq (path : Path) : b.contains path = a.contains path := by
  unfold contains
  rw [show b.tree.nodes = a.tree.nodes from h.below.nodes]

theorem lookup_eq (path : Path) (operation : String) :
    b.lookup path operation = a.lookup path operation := by
  have bare : b.tree.bare = a.tree.bare := h.below.bare
  rw [lookup_eq_of_handles h.left.handles, lookup_eq_of_handles h.right.handles,
    ← Tree.openDataset_bare, bare, Tree.openDataset_bare]

theorem lookupTyped_eq (path : Path) (operation : String) (rank : Nat) (e : ElementType) :
    b.lookupTyped path operation rank e = a.lookupTyped path operation rank e := by
  unfold lookupTyped lookupRank expectRank expectType Dataset.rank
  simp only [h.lookup_eq, Dataset.dims_eq_of_bare (h.below.dataset _),
    Dataset.type_eq_of_bare (h.below.dataset _), Dataset.path_eq_of_bare (h.below.dataset _)]

/-- What follows finding a dataset works on the same one. -/
theorem find {operation : String} {rank : Nat} {next : DatasetId → Action α}
    (each : ∀ id, Together AlikeBelow (next id) (next id) a b) :
    Together AlikeBelow (find path operation rank e >>= next)
      (Archive.find path operation rank e >>= next) a b := by
  simp only [Archive.find, bind_assoc]
  refine .get ?_
  rw [h.lookupTyped_eq]
  exact .check h.below fun id _ => each id

/-- After a call the archives remember right again. -/
theorem call {c : Call} (steps : Together AlikeBelow c.run c.run a b) :
    Together Coupled c.run c.run a b :=
  (steps.also (c.preserves_run robust_transparent a h.left)
    (c.preserves_run robust_transparent b h.right)).mono
      fun _ _ ⟨below, left, right⟩ => ⟨below, left, right⟩

/-! ## Calls

Making and filling a dataset that never grows asks for nothing but what a bare tree tells. -/

theorem createFixed (path : Path) (e : ElementType) (dims : List Nat) (fill : Option e.Value) :
    Together Coupled (createFixed path e dims fill) (Archive.createFixed path e dims fill) a b := by
  refine h.call (c := .createFixed path e dims fill) (.get ?_)
  exact (together_onContainer (Mounted.Alike.createDataset h.below ..)).bind
    fun _ _ _ below => together_pure below

theorem writeVector (path : Path) (values : List e.Value) :
    Together Coupled (writeVector path e values) (Archive.writeVector path e values) a b := by
  refine h.call (c := .typed (.writeVector path e values)) (h.find fun id => .get ?_)
  simp only [Dataset.dims_eq_of_bare (h.below.dataset id)]
  exact .ite (fun _ => h.below.put ..) fun _ => .error rfl rfl h.below

theorem writeMatrix (path : Path) (m : Matrix e.Value) (transpose : Bool) :
    Together Coupled (writeMatrix path e m transpose) (Archive.writeMatrix path e m transpose)
      a b :=
  h.call (c := .typed (.writeMatrix path e m transpose)) (h.find fun _ => h.below.putMatrix ..)

theorem setAttribute (path : Path) (name : String) (value : AttrValue) :
    Together Coupled (setAttribute path name value) (Archive.setAttribute path name value) a b :=
  h.call (c := .setAttribute path name value)
    (together_onContainer (Mounted.Alike.setAttribute h.below ..))

theorem attachScale (path scale : Path) (label : String) (axis : Nat) :
    Together Coupled (attachScale path scale label axis)
      (Archive.attachScale path scale label axis) a b := by
  have attaches (id scaleId : DatasetId) {a b : Archive} (below : AlikeBelow a b) :
      Together AlikeBelow
        (do let _ ← onContainer (Container.attachScale id scaleId label axis))
        (do let _ ← onContainer (Container.attachScale id scaleId label axis)) a b :=
    (together_onContainer (Mounted.Alike.attachScale below ..)).bind
      fun _ _ _ below => together_pure below
  refine h.call (c := .attachScale path scale label axis) (.get ?_)
  rw [h.lookup_eq]
  refine .check h.below fun id _ => .get ?_
  rw [h.lookup_eq]
  refine .check h.below fun scaleId _ => .get ?_
  rw [Dataset.scaleName_eq_of_bare (h.below.dataset scaleId)]
  refine .ite (fun _ => ?_) fun _ => attaches id scaleId h.below
  exact (together_onContainer (Mounted.Alike.markScale h.below ..)).bind
    fun _ _ _ below => attaches id scaleId below

end Coupled

/-! ## Writing to one of them -/

section
variable {id : DatasetId} {operation : String}

theorem keeps_put {s : Selection} {data : List Datum} :
    Preserves (AlikeBelow · b) (put id operation s data) :=
  fun _ h => ends_onContainer.2 (Mounted.Alike.written h id operation s data)

theorem keeps_putRows {lead : List Nat} {width row : Nat} {rows : List (List e.Value)} :
    Preserves (AlikeBelow · b) (putRows id operation lead width row rows) := by
  induction rows generalizing row with
  | nil => exact .pure _
  | cons values rest ih => exact .bind keeps_put fun _ => ih

theorem keeps_find {rank : Nat} {next : DatasetId → Action α}
    (h : ∀ id, Preserves (AlikeBelow · b) (next id)) :
    Preserves (AlikeBelow · b) (find path operation rank e >>= next) :=
  .bind (.get fun _ => .liftExcept _) h

theorem keeps_writeVector {values : List e.Value} :
    Preserves (AlikeBelow · b) (writeVector path e values) :=
  keeps_find fun _ => .get fun _ => .guarded keeps_put

theorem keeps_writeMatrix {m : Matrix e.Value} {transpose : Bool} :
    Preserves (AlikeBelow · b) (writeMatrix path e m transpose) :=
  keeps_find fun _ => .get fun _ => .guarded (.ite keeps_put keeps_putRows)

end

/-! ## Making one of them in another way -/

section
variable {a₁ : Archive} {dims : List Nat} {fill : Option Datum}

/-- An archive makes a dataset as its container does, with chunks of which it decides the size. -/
theorem exists_chunkRows (sized : a.chunkBytes < Bytes.span 8) (path : Path) (type : DataType)
    (dims : List Nat) (extensible : Bool) (fill : Option Datum) :
    ∃ chunkRows, ((∀ n ∈ dims, n < Bytes.span 8) → chunkRows < Bytes.span 8) ∧
      (∀ a₁, createDataset path type dims extensible none fill a = .ok () a₁ →
        ∃ id, Container.createDataset path type dims extensible chunkRows
          (fill.getD (.zero type)) a.mounted = .ok id a₁.mounted) ∧
      ∀ id m₁, Container.createDataset path type dims extensible chunkRows
          (fill.getD (.zero type)) a.mounted = .ok id m₁ →
        ∃ a₁, createDataset path type dims extensible none fill a = .ok () a₁ ∧
          a₁.mounted = m₁ := by
  have bound (small : ∀ n ∈ dims, n < Bytes.span 8) : (if extensible = true then
      max (Option.getD none a.chunkBytes / max (type.size * volume dims.tail) 1) 1
      else max (dims.head?.getD 1) 1) < Bytes.span 8 := by
    have one : 1 < Bytes.span 8 := by decide
    split
    · exact max_lt ((Nat.div_le_self ..).trans_lt sized) one
    · refine max_lt ?_ one
      cases dims with
      | nil => exact one
      | cons n rest => exact small n List.mem_cons_self
  unfold createDataset
  simp only [get_bind]
  refine ⟨_, bound, fun a₁ made => ?_, fun id m₁ made => ?_⟩
  · obtain ⟨id, b, ran, rest⟩ := exists_of_step_eq_ok made
    unfold onContainer at ran
    split at ran
    · next m created =>
      cases ran
      refine ⟨id, created.trans (congrArg _ ?_)⟩
      split at rest <;> cases rest <;> rfl
    · cases ran
  · have ran := onContainer_eq_ok made
    cases extensible with
    | true => exact ⟨_, bind_eq_of_ok ran _, rfl⟩
    | false => exact ⟨_, bind_eq_of_ok ran _, rfl⟩

/-- Where a dataset was made that never grows, and the extents after the first one are not 0, room
could have been kept for it, with a fill of the size of the zero. -/
theorem exists_createEmptyOf
    (transparent : a.Transparent) (made : createFixed path e dims none a = .ok () a₁)
    (full : 0 ∉ dims.tail) (sized : a.chunkBytes < Bytes.span 8)
    (fits : (fill.getD (.zero (.scalar e))).conforms (.scalar e)) {filled : Bytes}
    (encoded : (fill.getD (.zero (.scalar e))).encode (.scalar e) = .ok filled)
    (size : ∀ bytes, (Datum.zero (.scalar e)).encode (.scalar e) = .ok bytes →
      filled.length = bytes.length) :
    ∃ a₂, createEmptyOf path (.scalar e) dims none fill a = .ok () a₂ ∧ Coupled a₁ a₂ := by
  have left := ((Call.createFixed path e dims none).preserves_run robust_transparent a
    transparent).good_of_eq made
  have right := (Call.createEmptyOf path (.scalar e) dims none fill).preserves_run
    robust_transparent a transparent
  have axis : ¬(decide (dims.head? = some 0) = true ∧ dims = []) := by
    rintro ⟨first, rfl⟩
    cases of_decide_eq_true first
  obtain ⟨_, -, creates, -⟩ := exists_chunkRows sized path (.scalar e) dims false none
  obtain ⟨rows, small, -, makes⟩ :=
    exists_chunkRows sized path (.scalar e) dims (dims.head? = some 0) fill
  obtain ⟨id, created⟩ := creates a₁ made
  obtain ⟨m₂, created', alike⟩ :=
    Container.exists_createDataset created axis fits small encoded size
  obtain ⟨a₂, made', rfl⟩ := makes id m₂ created'
  have done : createEmptyOf path (.scalar e) dims none fill a = .ok () a₂ := by
    unfold createEmptyOf
    rw [if_neg (by simp), if_neg (by simpa using full)]
    exact made'
  exact ⟨a₂, done, alike, left, right.good_of_eq done⟩

end

end StudyArchive.Archive
