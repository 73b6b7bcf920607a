import StudyArchive.Proofs.Archive.Denoted
import StudyArchive.Proofs.Container.Abreast
/-
# Archives abreast

What appends and setters do to two archives that differ in data only: they find the same datasets,
refuse for the same reasons, and put the same data into the same cells.  What is remembered of
datasets may differ, as long as it is right.
-/

namespace StudyArchive.Archive

variable {a₀ b₀ a b : Archive} {path : Path} {id : DatasetId} {e : ElementType} {α : Type}

/-- Two archives, reached from two others, that differ in data, and in what they remember, only. -/
structure Abreast (a₀ b₀ a b : Archive) : Prop where
  mounted : Mounted.Abreast a₀.mounted b₀.mounted a.mounted b.mounted
  left : ∀ path id, a.handles.get? path = some id → a.tree.denoted? path = some id
  right : ∀ path id, b.handles.get? path = some id → b.tree.denoted? path = some id

namespace Abreast

variable (h : Abreast a₀ b₀ a b)

include h

theorem coherent : a.Coherent ∧ b.Coherent := by
  obtain ⟨v, w, isOpen, isOpen', -⟩ := h.mounted.writers
  exact ⟨⟨⟨h.mounted.trees.left, v, isOpen⟩, h.left⟩,
    ⟨⟨h.mounted.trees.right, w, isOpen'⟩, h.right⟩⟩

theorem blank (id : DatasetId) : (a.dataset id).blank = (b.dataset id).blank :=
  (h.mounted.trees.each id).blank

theorem denoted?_left (path : Path) : a.tree.denoted? path = a₀.tree.denoted? path :=
  Tree.denoted?_congr h.mounted.trees.kept path

theorem denoted?_right (path : Path) : b.tree.denoted? path = a₀.tree.denoted? path :=
  Tree.denoted?_congr (h.mounted.trees.nodes.trans h.mounted.trees.kept) path

theorem known (denotes : a₀.tree.denoted? path = some id) : id < a.tree.datasets.length :=
  h.mounted.trees.left.lt_of_denoted? ((h.denoted?_left path).trans denotes)

theorem contains_eq (path : Path) : b.contains path = a.contains path := by
  unfold contains
  rw [show b.tree.nodes = a.tree.nodes from h.mounted.trees.nodes]

/-! ## Finding

The namespace and the shape of the datasets are the same in both, so each lookup finds the same
dataset, or is refused alike. -/

theorem lookup_eq (path : Path) (operation : String) :
    b.lookup path operation = a.lookup path operation := by
  rw [h.coherent.1.lookup_eq, h.coherent.2.lookup_eq, Tree.openDataset_eq, Tree.openDataset_eq,
    h.denoted?_left, h.denoted?_right]

theorem dims_eq (path : Path) : b.dims path = a.dims path := by
  unfold dims
  rw [h.lookup_eq]
  refine bind_congr fun id => ?_
  rw [Dataset.dims_eq_of_blank (h.blank id)]

theorem lookupTyped_eq (path : Path) (operation : String) (rank : Nat) (e : ElementType) :
    b.lookupTyped path operation rank e = a.lookupTyped path operation rank e := by
  unfold lookupTyped lookupRank expectRank expectType Dataset.rank
  simp only [h.lookup_eq, Dataset.dims_eq_of_blank (h.blank _),
    Dataset.type_eq_of_blank (h.blank _), Dataset.path_eq_of_blank (h.blank _)]

/-- What follows finding a dataset works on one that a path denotes. -/
theorem find {operation : String} {rank : Nat} {next : DatasetId → Action α}
    (each : ∀ id, a₀.tree.denoted? path = some id →
      Together (Abreast a₀ b₀) (next id) (next id) a b) :
    Together (Abreast a₀ b₀) (find path operation rank e >>= next)
      (Archive.find path operation rank e >>= next) a b := by
  simp only [Archive.find, bind_assoc]
  refine .get ?_
  rw [h.lookupTyped_eq]
  refine .check h fun id found => each id ?_
  obtain ⟨id', ranked, found⟩ := exists_of_bind_eq_ok found
  obtain ⟨id'', looked, ranked⟩ := exists_of_bind_eq_ok ranked
  obtain ⟨⟨⟩, -, ranked⟩ := exists_of_bind_eq_ok ranked
  obtain ⟨⟨⟩, -, found⟩ := exists_of_bind_eq_ok found
  cases ranked
  cases found
  exact (h.denoted?_left path).symm.trans (h.coherent.1.denoted?_of_lookup looked)

/-! ## Growing and putting

The two steps that change anything: each of them goes alongside itself in the other archive. -/

theorem onContainer {act : Container.Action α}
    (steps : Together (Mounted.Abreast a₀.mounted b₀.mounted) act act a.mounted b.mounted) :
    Together (Abreast a₀ b₀) (onContainer act) (Archive.onContainer act) a b := by
  have there {m n : Mounted} (mounted : Mounted.Abreast a₀.mounted b₀.mounted m n) :
      Abreast a₀ b₀ { a with mounted := m } { b with mounted := n } := by
    refine ⟨mounted, fun q id kept => ?_, fun q id kept => ?_⟩
    · have denotes := (h.denoted?_left q).symm.trans (h.left q id kept)
      exact (Tree.denoted?_congr mounted.trees.kept q).trans denotes
    · have denotes := (h.denoted?_right q).symm.trans (h.right q id kept)
      exact (Tree.denoted?_congr (mounted.trees.nodes.trans mounted.trees.kept) q).trans denotes
  cases steps with
  | ok left right related =>
    refine .ok (by rw [Archive.onContainer, left]) ?_ (there related)
    rw [Archive.onContainer, right]
  | error left right related =>
    refine .error (by rw [Archive.onContainer, left]) ?_ (there related)
    rw [Archive.onContainer, right]

theorem put (denotes : a₀.tree.denoted? path = some id) (operation : String) (s : Selection)
    (data : List Datum) :
    Together (Abreast a₀ b₀) (put id operation s data) (Archive.put id operation s data) a b :=
  h.onContainer (Container.together_write h.mounted (h.known denotes) operation s data)

/-- What is remembered where a path denotes a dataset is right. -/
theorem remember (denotes : a₀.tree.denoted? path = some id) :
    Abreast a₀ b₀ { a with handles := a.handles.insert path id } b ∧
      Abreast a₀ b₀ a { b with handles := b.handles.insert path id } := by
  refine ⟨⟨h.mounted, fun q id' kept => ?_, h.right⟩, ⟨h.mounted, h.left, fun q id' kept => ?_⟩⟩
  · rcases Table.eq_or_get?_of_insert kept with ⟨rfl, rfl⟩ | old
    · exact (h.denoted?_left q).trans denotes
    · exact h.left q id' old
  · rcases Table.eq_or_get?_of_insert kept with ⟨rfl, rfl⟩ | old
    · exact (h.denoted?_right q).trans denotes
    · exact h.right q id' old

theorem grow (denotes : a₀.tree.denoted? path = some id) (operation : String) :
    Together (Abreast a₀ b₀) (grow path id operation) (Archive.grow path id operation) a b := by
  unfold Archive.grow
  refine .get ?_
  simp only [Dataset.extensible_eq_of_blank (h.blank id), Dataset.dims_eq_of_blank (h.blank id)]
  refine .ite (fun _ => ?_) fun _ => .error rfl rfl h
  refine (h.onContainer (Container.together_extend h.mounted (h.known denotes) _)).bind
    fun _ a' b' h' => .get ?_
  -- One of the archives may remember the dataset already.
  have both := (h'.remember denotes).1.remember denotes
  split <;> split
  · exact together_pure h'
  · exact .ok rfl rfl (h'.remember denotes).2
  · exact .ok rfl rfl (h'.remember denotes).1
  · exact .ok rfl rfl both.2

theorem putScalar (denotes : a₀.tree.denoted? path = some id) (operation : String)
    (lead : List Nat) (v : e.Value) :
    Together (Abreast a₀ b₀) (putScalar id operation lead v) (Archive.putScalar id operation lead v)
      a b := h.put denotes ..

theorem putVector (denotes : a₀.tree.denoted? path = some id) (operation : String)
    (lead : List Nat) (values : List e.Value) :
    Together (Abreast a₀ b₀) (putVector id operation lead values)
      (Archive.putVector id operation lead values) a b := h.put denotes ..

/-! ## Matrices -/

theorem putRows (denotes : a₀.tree.denoted? path = some id) (operation : String)
    (lead : List Nat) (width row : Nat) (rows : List (List e.Value)) :
    Together (Abreast a₀ b₀) (putRows id operation lead width row rows)
      (Archive.putRows id operation lead width row rows) a b := by
  induction rows generalizing row a b with
  | nil => exact together_pure h
  | cons values rest ih => exact (h.put denotes ..).bind fun _ a' b' h' => ih h' (row + 1)

theorem putMatrix (denotes : a₀.tree.denoted? path = some id) (operation : String)
    (lead : List Nat) (m : Matrix e.Value) (transpose : Bool) :
    Together (Abreast a₀ b₀) (putMatrix id operation lead m transpose)
      (Archive.putMatrix id operation lead m transpose) a b := by
  unfold Archive.putMatrix
  refine .get ?_
  simp only [Dataset.dims_eq_of_blank (h.blank id), Dataset.path_eq_of_blank (h.blank id)]
  refine .ite (fun _ => ?_) fun _ => .error rfl rfl h
  exact .ite (fun _ => h.put denotes ..) fun _ => h.putRows denotes ..

theorem putEach (denotes : a₀.tree.denoted? path = some id) (operation : String)
    (lead : List Nat) (transpose : Bool) (k : Nat) (matrices : List (Matrix e.Value)) :
    Together (Abreast a₀ b₀) (putEach id operation lead transpose k matrices)
      (Archive.putEach id operation lead transpose k matrices) a b := by
  induction matrices generalizing k a b with
  | nil => exact together_pure h
  | cons m rest ih => exact (h.putMatrix denotes ..).bind fun _ a' b' h' => ih h' (k + 1)

theorem putMatrices (denotes : a₀.tree.denoted? path = some id) (operation : String)
    (lead : List Nat) (matrices : List (Matrix e.Value)) (transpose : Bool) :
    Together (Abreast a₀ b₀) (putMatrices id operation lead matrices transpose)
      (Archive.putMatrices id operation lead matrices transpose) a b := by
  unfold Archive.putMatrices
  refine .get ?_
  simp only [Dataset.dims_eq_of_blank (h.blank id), Dataset.path_eq_of_blank (h.blank id)]
  exact .ite (fun _ => h.putEach denotes ..) fun _ => .error rfl rfl h

/-! ## Appending and setting -/

theorem appendScalar (path : Path) (v : e.Value) :
    Together (Abreast a₀ b₀) (appendScalar path e v) (Archive.appendScalar path e v) a b :=
  h.find fun _ denotes => (h.grow denotes _).bind fun _ _ _ h' => h'.putScalar denotes ..

theorem appendVector (path : Path) (values : List e.Value) :
    Together (Abreast a₀ b₀) (appendVector path e values) (Archive.appendVector path e values)
      a b := by
  refine h.find fun id denotes => .get ?_
  unfold checkTrailing
  rw [Dataset.dims_eq_of_blank (h.blank id), Dataset.path_eq_of_blank (h.blank id)]
  exact .check h fun _ _ => (h.grow denotes _).bind fun _ _ _ h' => h'.putVector denotes ..

theorem reserveRow (path : Path) :
    Together (Abreast a₀ b₀) (reserveRow path) (Archive.reserveRow path) a b := by
  unfold Archive.reserveRow
  refine .get ?_
  rw [h.lookup_eq]
  refine .check h fun id looked => h.grow ?_ _
  exact (h.denoted?_left path).symm.trans (h.coherent.1.denoted?_of_lookup looked)

theorem setVector (path : Path) (values : List e.Value) (index : Nat) (row : Bool) :
    Together (Abreast a₀ b₀) (setVector path e values index row)
      (Archive.setVector path e values index row) a b := by
  refine h.find fun id denotes => .get ?_
  unfold checkTrailing
  simp only [Dataset.dims_eq_of_blank (h.blank id), Dataset.path_eq_of_blank (h.blank id)]
  refine .ite (fun _ => .check h fun _ _ => h.putVector denotes ..) fun _ => ?_
  refine .ite (fun _ => ?_) fun _ => .error rfl rfl h
  exact .ite (fun _ => h.put denotes ..) fun _ => .error rfl rfl h

theorem setMatrix (path : Path) (m : Matrix e.Value) (index : Nat) (transpose : Bool) :
    Together (Abreast a₀ b₀) (setMatrix path e m index transpose)
      (Archive.setMatrix path e m index transpose) a b :=
  h.find fun _ denotes => h.putMatrix denotes ..

theorem setMatrices (path : Path) (matrices : List (Matrix e.Value)) (index : Nat)
    (transpose : Bool) :
    Together (Abreast a₀ b₀) (setMatrices path e matrices index transpose)
      (Archive.setMatrices path e matrices index transpose) a b :=
  h.find fun _ denotes => h.putMatrices denotes ..

end Abreast
end StudyArchive.Archive
