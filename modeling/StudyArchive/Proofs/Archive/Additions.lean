import StudyArchive.Proofs.Archive.Whole
/-
# What is added

Steps that make datasets, fill them, label them and describe them take nothing away, also if they
fail half-way: every dataset that lay at a path lies there still and has its data, and a new one
lies at one of the places that the step is for (`Archive.Added`).
-/

namespace StudyArchive

open Dataset

namespace Tree

variable {t t' t'' : Tree} {S T : Path → Prop} {q path : Path} {d d' : Dataset}

/-- A tree in which only some places may have got a dataset, every dataset has its data, and nothing
is a new link. -/
structure Adds (S : Path → Prop) (t t' : Tree) : Prop where
  links : ∀ q target, t'.nodes.get? q = some (.link target) → t.nodes.get? q = some (.link target)
  absent : ∀ q, ¬S q → t.at? q = none → t'.at? q = none
  kept : ∀ q d, t.at? q = some d → ∃ d', t'.at? q = some d' ∧ d.SameData d'

theorem Adds.refl (S : Path → Prop) (t : Tree) : Adds S t t :=
  ⟨fun _ _ link => link, fun _ _ none => none, fun _ d found => ⟨d, found, .refl d⟩⟩

theorem Adds.trans (h : Adds S t t') (h' : Adds S t' t'') : Adds S t t'' where
  links q target link := h.links q target (h'.links q target link)
  absent q other none := h'.absent q other (h.absent q other none)
  kept q d found := by
    obtain ⟨d', found', same⟩ := h.kept q d found
    obtain ⟨d'', found'', same'⟩ := h'.kept q d' found'
    exact ⟨d'', found'', same.trans same'⟩

/-- What is touched where no dataset lay is only added. -/
theorem TouchedAt.adds (h : TouchedAt T t t') (place : ∀ q, T q → S q)
    (new : ∀ q, T q → t.at? q = none) : Adds S t t' where
  links := h.links
  absent q other := h.absent q fun here => other (place q here)
  kept q d found := by
    have apart : ¬T q := by
      intro here
      cases (new q here).symm.trans found
    obtain ⟨d', found', same⟩ := h.kept q d apart found
    exact ⟨d', found', same.sameData⟩

theorem Turned.adds (h : Turned t path d' t') (found : t.at? path = some d)
    (same : d.SameData d') : Adds S t t' where
  links := h.touched.links
  absent q _ none := by
    have other : q ≠ path := by
      rintro rfl
      cases none.symm.trans found
    exact h.touched.absent q other none
  kept q e there := by
    by_cases here : q = path
    · subst here
      cases found.symm.trans there
      exact ⟨d', h.here, same⟩
    · obtain ⟨e', found', same⟩ := h.touched.kept q e here there
      exact ⟨e', found', same.sameData⟩

end Tree

namespace Archive

variable {a₀ a a' : Archive} {S T : Path → Prop} {path : Path} {id : DatasetId}

/-- An archive in use after a step that at most added datasets at some places. -/
structure Added (S : Path → Prop) (a a' : Archive) : Prop where
  coherent : a'.Coherent
  tree : Tree.Adds S a.tree a'.tree

theorem Coherent.added (coherent : a.Coherent) : Added S a a := ⟨coherent, .refl _ _⟩

theorem Added.touched (h : Added S a₀ a) (touched : TouchedAt T a a') (place : ∀ q, T q → S q)
    (new : ∀ q, T q → a.tree.at? q = none) : Added S a₀ a' :=
  ⟨touched.coherent, h.tree.trans (touched.tree.adds place new)⟩

theorem Added.untouched (h : Added S a₀ a) (touched : TouchedAt (fun _ => False) a a') :
    Added S a₀ a' := h.touched touched (fun _ => False.elim) fun _ => False.elim

/-! ## Groups, attributes and scales -/

theorem adds_createGroup : Preserves (Added S a₀) (createGroup path) := by
  intro a h
  exact (touches_createGroup a h.coherent.touched).mono (fun _ _ => h.untouched)
    fun _ _ => h.untouched

theorem adds_setAttribute {name : String} {value : AttrValue} :
    Preserves (Added S a₀) (setAttribute path name value) := by
  intro a h
  exact (touches_setAttribute a h.coherent.touched).mono (fun _ _ => h.untouched)
    fun _ _ => h.untouched

theorem adds_attachScale {scale : Path} {label : String} {axis : Nat} :
    Preserves (Added S a₀) (attachScale path scale label axis) := by
  refine preserves_attachScale (fun _ => Added.coherent) ?_
  intro a id d' m h known turned same
  have here := Tree.getElem?_of_lt known
  have found := (Tree.at?_of_node (h.coherent.ready.sound.placed here)).trans here
  have spared : Spared S a { a with mounted := m } :=
    spared_of_turned h.coherent known turned same.toSameCells
  exact ⟨spared.coherent, h.tree.trans (turned.tree.adds found same)⟩

/-! ## Datasets

A dataset is made, and then filled with steps that stay within its place, so the two together add
it. -/

/-- A step that works on the dataset at a path touches that path. -/
theorem Within.touched (h : Within id a a') (sound : a.tree.Sound)
    (node : a.tree.nodes.get? path = some (.dataset id)) : TouchedAt (· = path) a a' := by
  refine ⟨h.coherent, Tree.touched_of_at? (fun _ _ link => h.nodes ▸ link) ?_⟩
  intro q other
  unfold Tree.at?
  rw [h.nodes]
  split
  · next id' node' =>
    obtain ⟨d, here, named⟩ := sound.named node
    obtain ⟨d', here', named'⟩ := sound.named node'
    have apart : id' ≠ id := by
      rintro rfl
      cases here.symm.trans here'
      exact other (named'.symm.trans named)
    have known := Tree.lt_of_getElem? here'
    have known' : id' < a'.tree.datasets.length := h.length.symm ▸ known
    rw [Tree.getElem?_of_lt known, Tree.getElem?_of_lt known']
    exact congrArg some (h.others id' known apart)
  · rfl

theorem adds_making {next : Action Unit} (place : S path) (works : ∀ id, Works path id next)
    {type : DataType} {dims : List Nat} {extensible : Bool} {hint : Option Nat}
    {fill : Option Datum} :
    Preserves (Added S a₀) (do
      createDataset path type dims extensible hint fill
      next) := by
  intro a h
  have places (q : Path) (here : q = path) : S q := here ▸ place
  have makes {b : Archive} (coherent : b.Coherent) {d : Dataset} (eq : d.path = path)
      (made : Container.Made a.mounted d b.mounted) :
      TouchedAt (· = path) a b ∧ ∀ q, q = path → a.tree.at? q = none := by
    subst eq
    refine ⟨⟨coherent, made.touched⟩, fun q here => ?_⟩
    exact here ▸ Tree.at?_of_absent made.planted.absent
  refine ends_bind.2 ((ends_createDataset_or h.coherent).mono ?_ ?_)
  · rintro _ b ⟨coherent, chunkRows, made⟩
    obtain ⟨touched, new⟩ := makes coherent rfl made
    obtain ⟨id, node, -⟩ := Tree.at?_eq_some.1 ((made.at_ path).trans (if_pos rfl))
    have filled {b' : Archive} (within : Within id b b') : Added S a₀ b' := by
      refine h.touched (touched.trans ?_) places new
      exact within.touched coherent.ready.sound node
    exact (works id b coherent (Tree.denoted?_of_node node)).mono (fun _ _ => filled)
      fun _ _ => filled
  · rintro _ b ⟨coherent, same | ⟨chunkRows, made⟩⟩
    · have tree : b.tree = a.tree := congrArg (·.container.tree) same
      exact ⟨coherent, tree ▸ h.tree⟩
    · obtain ⟨touched, new⟩ := makes coherent rfl made
      exact h.touched touched places new

theorem ends_createDataset_occupied (coherent : a.Coherent) {d : Dataset}
    (found : a.tree.at? path = some d) {type : DataType} {dims : List Nat} {extensible : Bool}
    {hint : Option Nat} {fill : Option Datum} :
    Ends (createDataset path type dims extensible hint fill) a (fun _ _ => False)
      (fun _ _ => True) := by
  refine (ends_createDataset_made coherent).imp ?_
  rintro _ b ⟨-, chunkRows, made⟩
  cases (Tree.at?_of_absent made.planted.absent).symm.trans found

section
variable {e : ElementType}

theorem works_find {operation : String} {rank : Nat} {next : DatasetId → Action Unit}
    (h : Works path id (next id)) : Works path id (find path operation rank e >>= next) := by
  intro a coherent denotes
  refine ends_bind.2 (ends_bind.2 (ends_get.2 (ends_liftExcept.2
    ⟨fun id' found => ?_, fun _ _ => coherent.within⟩)))
  obtain rfl : id' = id := Option.some.inj
    ((coherent.of_lookupTyped found).1.symm.trans denotes)
  exact h a coherent denotes

theorem works_writeScalar {v : e.Value} : Works path id (writeScalar path e v) := works_find .put

theorem works_writeVector {values : List e.Value} : Works path id (writeVector path e values) :=
  works_find (.get fun _ => .ite .put (.bind (.throw _) fun _ => .put))

theorem works_writeMatrix {m : Matrix e.Value} {transpose : Bool} :
    Works path id (writeMatrix path e m transpose) :=
  works_find .putMatrix

end

end Archive
end StudyArchive
