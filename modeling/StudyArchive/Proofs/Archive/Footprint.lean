import StudyArchive.Proofs.Archive.Scales
import StudyArchive.Proofs.Archive.Sharing
/-
# Footprints

What a step of an archive may change is told by places: it is confined to them if no dataset changes
its extents or a cell that none of them denoted (`Archive.Confined`).  This is a property of the
step in whatever archive, whoever shares it.  It is closed under the ways in which steps are put
together, because no step gives an old dataset a new name; so it is proved once for each operation
on datasets.
-/

namespace StudyArchive

namespace Dataset

variable {d d' d'' : Dataset}

/-- Two states of one dataset with the same extents and cells. -/
structure SameCells (d d' : Dataset) : Prop where
  path : d'.path = d.path
  dims : d'.dims = d.dims
  cells : ∀ index, d'.cell index = d.cell index

theorem SameCells.refl (d : Dataset) : SameCells d d := ⟨rfl, rfl, fun _ => rfl⟩

theorem SameCells.trans (h : SameCells d d') (h' : SameCells d' d'') : SameCells d d'' :=
  ⟨h'.path.trans h.path, h'.dims.trans h.dims,
    fun index => (h'.cells index).trans (h.cells index)⟩

/-- Two states of one dataset with the same type, extents and cells. -/
structure SameData (d d' : Dataset) : Prop extends SameCells d d' where
  type : d'.type = d.type

theorem SameData.refl (d : Dataset) : SameData d d := ⟨.refl d, rfl⟩

theorem SameData.trans (h : SameData d d') (h' : SameData d' d'') : SameData d d'' :=
  ⟨h.toSameCells.trans h'.toSameCells, h'.type.trans h.type⟩

theorem sameData_markScale (d : Dataset) (name : String) : SameData d (d.markScale name) :=
  ⟨⟨rfl, rfl, fun _ => rfl⟩, rfl⟩

theorem sameData_of_attachScale {axis : Nat} {s : AttachedScale}
    (h : d.attachScale axis s = .ok d') : SameData d d' := by
  unfold attachScale at h
  split at h
  · cases h
  · split at h
    all_goals
      cases h
      exact ⟨⟨rfl, rfl, fun _ => rfl⟩, rfl⟩

end Dataset

section
variable {t t' : Tree} {path q : Path} {id new : DatasetId} (h : Tree.Planted t path t')
  (sound : t.Sound) (made : t'.nodes.get? path = some (.dataset new))

include h sound made

/-- A new dataset is none of the old ones: they lie where something was. -/
theorem Tree.Planted.length_le : t.datasets.length ≤ new := by
  refine Nat.le_of_not_lt fun known => ?_
  have node := sound.placed (getElem?_of_lt known)
  obtain ⟨d, found, here⟩ := h.sound.named (h.kept node)
  obtain ⟨d', found', there⟩ := h.sound.named made
  cases found.symm.trans found'
  rw [← here, there, h.absent] at node
  cases node

/-- A new dataset gives no other one a new name. -/
theorem Tree.Planted.denotes (known : id < t.datasets.length) (denotes : t'.denoted? q = some id) :
    t.denoted? q = some id := by
  have other : new ≠ id := by
    rintro rfl
    exact Nat.not_lt_of_le (h.length_le sound made) known
  have follow (steps : Nat) (own q : Path)
      (found : t'.follow steps q = some (own, .dataset id)) :
      t.follow steps q = some (own, .dataset id) := by
    induction steps generalizing q with
    | zero => cases found
    | succ steps ih =>
      rw [Tree.follow] at found ⊢
      by_cases here : q = path
      · rw [here, made] at found
        cases found
        exact absurd rfl other
      · rcases h.nodes q here with same | ⟨-, group, -⟩
        · rw [same] at found
          split at found
          · cases found
          · exact ih _ found
          · exact found
        · rw [group] at found
          cases found
  unfold Tree.denoted? Tree.resolve? at denotes ⊢
  split at denotes
  · next own id' found =>
    cases denotes
    rw [follow _ own q found]
  · cases denotes

end

namespace Archive

variable {a a' a'' : Archive} {S T : Path → Prop} {path : Path} {id : DatasetId} {d : Dataset}
  {α β : Type}

/-- An archive in which datasets that places do not denote have their extents and cells, and in
which nothing else than new datasets has a new name. -/
structure Spared (S : Path → Prop) (a a' : Archive) : Prop where
  coherent : a'.Coherent
  length : a.tree.datasets.length ≤ a'.tree.datasets.length
  denotes : ∀ path id, id < a.tree.datasets.length →
    (a'.tree.denoted? path = some id ↔ a.tree.denoted? path = some id)
  same : ∀ id, id < a.tree.datasets.length → (∀ path, S path → a.tree.denoted? path ≠ some id) →
    Dataset.SameCells (a.dataset id) (a'.dataset id)

theorem Coherent.spared (coherent : a.Coherent) : Spared S a a :=
  ⟨coherent, Nat.le_refl _, fun _ _ _ => Iff.rfl, fun _ _ _ => .refl _⟩

theorem Spared.trans (h : Spared S a a') (h' : Spared S a' a'') : Spared S a a'' where
  coherent := h'.coherent
  length := Nat.le_trans h.length h'.length
  denotes path id known :=
    (h'.denotes path id (Nat.lt_of_lt_of_le known h.length)).trans (h.denotes path id known)
  same id known apart := by
    refine (h.same id known apart).trans
      (h'.same id (Nat.lt_of_lt_of_le known h.length) fun path place denotes => ?_)
    exact apart path place ((h.denotes path id known).1 denotes)

/-- Steps that are confined to places. -/
def Confined (S : Path → Prop) (act : Action α) : Prop :=
  ∀ a : Archive, a.Coherent → Ends act a (fun _ => Spared S a) (fun _ => Spared S a)

namespace Confined

theorem pure (v : α) : Confined S (Pure.pure v : Action α) :=
  fun _ coherent => ends_pure.2 coherent.spared

theorem throw (e : StorageError) : Confined S (throw e : Action α) :=
  fun _ coherent => ends_throw.2 coherent.spared

theorem liftExcept (x : Except StorageError α) : Confined S (liftExcept x : Action α) :=
  fun _ coherent => ends_liftExcept.2 ⟨fun _ _ => coherent.spared, fun _ _ => coherent.spared⟩

theorem bind {act : Action α} {next : α → Action β} (h : Confined S act)
    (h' : ∀ v, Confined S (next v)) : Confined S (act >>= next) := by
  intro a coherent
  refine ends_bind.2 ((h a coherent).mono (fun v a₁ spared => ?_) fun _ _ bad => bad)
  exact (h' v a₁ spared.coherent).mono (fun _ _ => spared.trans) fun _ _ => spared.trans

theorem get {next : Archive → Action α} (h : ∀ a, Confined S (next a)) :
    Confined S (get >>= next) :=
  fun a coherent => ends_bind.2 (ends_get.2 (h a a coherent))

theorem ite {c : Prop} [Decidable c] {yes no : Action α} (h : Confined S yes)
    (h' : Confined S no) : Confined S (if c then yes else no) := by
  split
  · exact h
  · exact h'

theorem forM {f : β → Action PUnit} {l : List β} (h : ∀ x ∈ l, Confined S (f x)) :
    Confined S (l.forM f) := by
  induction l with
  | nil => exact pure PUnit.unit
  | cons x l ih =>
    exact bind (h x List.mem_cons_self) fun _ =>
      ih fun y mem => h y (List.mem_cons_of_mem x mem)

/-- A step that is done with what there is, if there is anything. -/
theorem optional {f : β → Action Unit} (o : Option β) (h : ∀ x, Confined S (f x)) :
    Confined S (o.elim (Pure.pure ()) f) := by
  cases o with
  | none => exact pure ()
  | some x => exact h x

theorem forIn {f : β → PUnit → Action (ForInStep PUnit)} {l : List β}
    (h : ∀ x ∈ l, ∀ u, Confined S (f x u)) : Confined S (ForIn.forIn l PUnit.unit f) := by
  induction l with
  | nil => exact pure PUnit.unit
  | cons x l ih =>
    rw [List.forIn_cons]
    refine bind (h x List.mem_cons_self _) fun step => ?_
    cases step with
    | done u => exact pure u
    | yield u => exact ih fun y mem => h y (List.mem_cons_of_mem x mem)

end Confined

/-! ## One dataset

A step that works on a dataset that is known changes this one only.  `Within` says so of two
states and `Works` of a step; both are closed under one step after the other. -/

/-- An archive in which at most one dataset is another one. -/
structure Within (id : DatasetId) (a a' : Archive) : Prop where
  coherent : a'.Coherent
  nodes : a'.tree.nodes = a.tree.nodes
  length : a'.tree.datasets.length = a.tree.datasets.length
  others : ∀ other, other < a.tree.datasets.length → other ≠ id →
    a'.dataset other = a.dataset other

theorem Coherent.within (coherent : a.Coherent) : Within id a a :=
  ⟨coherent, rfl, rfl, fun _ _ _ => rfl⟩

theorem Within.trans (h : Within id a a') (h' : Within id a' a'') : Within id a a'' :=
  ⟨h'.coherent, h'.nodes.trans h.nodes, h'.length.trans h.length, fun other known apart =>
    (h'.others other (h.length ▸ known) apart).trans (h.others other known apart)⟩

theorem Altered.within {d' : Dataset} (h : Altered a path id d' a') (coherent : a.Coherent)
    (denotes : a.tree.denoted? path = some id) : Within id a a' :=
  ⟨h.coherent coherent denotes, h.nodes, h.length, h.others⟩

theorem Within.spared (h : Within id a a') (place : S path)
    (denotes : a.tree.denoted? path = some id) : Spared S a a' where
  coherent := h.coherent
  length := h.length.ge
  denotes q _ _ := by rw [Tree.denoted?_congr h.nodes q]
  same other known apart := by
    have differ : other ≠ id := by
      rintro rfl
      exact apart path place denotes
    rw [h.others other known differ]
    exact .refl _

/-- Steps that change nothing but the dataset that a path denotes. -/
def Works (path : Path) (id : DatasetId) (act : Action α) : Prop :=
  ∀ a : Archive, a.Coherent → a.tree.denoted? path = some id →
    Ends act a (fun _ => Within id a) (fun _ => Within id a)

namespace Works

theorem pure (v : α) : Works path id (Pure.pure v : Action α) :=
  fun _ coherent _ => ends_pure.2 coherent.within

theorem throw (e : StorageError) : Works path id (throw e : Action α) :=
  fun _ coherent _ => ends_throw.2 coherent.within

theorem liftExcept (x : Except StorageError α) : Works path id (liftExcept x : Action α) :=
  fun _ coherent _ =>
    ends_liftExcept.2 ⟨fun _ _ => coherent.within, fun _ _ => coherent.within⟩

theorem bind {act : Action α} {next : α → Action β} (h : Works path id act)
    (h' : ∀ v, Works path id (next v)) : Works path id (act >>= next) := by
  intro a coherent denotes
  refine ends_bind.2 ((h a coherent denotes).mono (fun v a₁ within => ?_) fun _ _ bad => bad)
  have denotes₁ := (Tree.denoted?_congr within.nodes path).trans denotes
  exact (h' v a₁ within.coherent denotes₁).mono (fun _ _ => within.trans) fun _ _ => within.trans

theorem get {next : Archive → Action α} (h : ∀ a, Works path id (next a)) :
    Works path id (get >>= next) :=
  fun a coherent denotes => ends_bind.2 (ends_get.2 (h a a coherent denotes))

theorem ite {c : Prop} [Decidable c] {yes no : Action α} (h : Works path id yes)
    (h' : Works path id no) : Works path id (if c then yes else no) := by
  split
  · exact h
  · exact h'

/-- Whatever is put into a dataset, no other one changes. -/
theorem put {operation : String} {s : Selection} {data : List Datum} :
    Works path id (put id operation s data) := by
  intro a coherent denotes
  have ready := coherent.ready
  have here := Tree.getElem?_of_lt (ready.sound.lt_of_denoted? denotes)
  have node := ready.sound.placed here
  have turned {d' : Dataset} {m : Mounted}
      (h : Container.Turned a.mounted (a.tree.dataset id).path d' m) :
      Within id a { a with mounted := m } := by
    have altered : Altered a path id d' { a with mounted := m } := altered_of_turned ready here h
    exact altered.within coherent denotes
  refine ends_onContainer.2 ((Container.ends_write_or ready node
    ((Tree.at?_of_node node).trans here)).mono ?_ ?_)
  · rintro _ m ⟨d', -, h⟩
    exact turned h
  · rintro _ m (rfl | ⟨d', -, h⟩)
    · exact coherent.within
    · exact turned h

theorem grow {operation : String} :
    Works path id (grow path id operation) := by
  intro a coherent denotes
  have here := Tree.getElem?_of_lt (coherent.ready.sound.lt_of_denoted? denotes)
  cases extensible : (a.dataset id).extensible with
  | true =>
    refine (ends_grow_altered coherent.ready here path extensible operation).mono ?_ ?_
    · rintro _ _ ⟨-, -, d', -, altered⟩
      exact altered.within coherent denotes
    · rintro _ _ ⟨-, d', -, altered⟩
      exact altered.within coherent denotes
  | false =>
    unfold Archive.grow
    simp only [ends_bind, ends_get, extensible, Bool.false_eq_true, if_false, ends_throw]
    exact coherent.within

section
variable {e : ElementType} {operation : String} {lead : List Nat}

theorem putRows {width row : Nat} {rows : List (List e.Value)} :
    Works path id (putRows id operation lead width row rows) := by
  induction rows generalizing row with
  | nil => exact pure _
  | cons values rest ih => exact bind put fun _ => ih

theorem putMatrix {m : Matrix e.Value} {transpose : Bool} :
    Works path id (putMatrix id operation lead m transpose) := by
  unfold Archive.putMatrix
  refine get fun a => ?_
  have puts : Works path id (if transpose then
      Archive.put id operation ⟨lead ++ [0, 0], lead.map (fun _ => 1) ++ diskShape m transpose⟩
        (m.toColumnMajor.map e.toDatum)
      else Archive.putRows id operation lead m.cols 0 m.rowList) :=
    ite put putRows
  exact ite puts (bind (throw _) fun _ => puts)

theorem putEach {transpose : Bool} {k : Nat} {matrices : List (Matrix e.Value)} :
    Works path id (putEach id operation lead transpose k matrices) := by
  induction matrices generalizing k with
  | nil => exact pure _
  | cons m rest ih => exact bind putMatrix fun _ => ih

theorem putMatrices {matrices : List (Matrix e.Value)} {transpose : Bool} :
    Works path id (putMatrices id operation lead matrices transpose) := by
  unfold Archive.putMatrices
  refine get fun a => ?_
  exact ite putEach (bind (throw _) fun _ => putEach)

end

end Works

/-! ## Operations on the dataset at a place

Each operation finds a dataset by its path and then works on it.  The path denotes the same
dataset after whatever was made before, so the operation is confined to the path. -/

/-- Ways to look for the dataset that a path denotes. -/
def Finds (path : Path) (look : Archive → Except StorageError DatasetId) : Prop :=
  ∀ a : Archive, a.Coherent → ∀ id, look a = .ok id → a.tree.denoted? path = some id

theorem finds_lookup {operation : String} : Finds path (·.lookup path operation) :=
  fun _ coherent _ looked => coherent.denoted?_of_lookup looked

theorem finds_lookupRank {operation : String} {rank : Nat} :
    Finds path (·.lookupRank path operation rank) := by
  intro a coherent id found
  obtain ⟨id', looked, found⟩ := exists_of_bind_eq_ok found
  obtain ⟨_, -, found⟩ := exists_of_bind_eq_ok found
  cases found
  exact coherent.denoted?_of_lookup looked

theorem finds_lookupTyped {operation : String} {rank : Nat} {e : ElementType} :
    Finds path (·.lookupTyped path operation rank e) := by
  intro a coherent id found
  obtain ⟨id', looked, found⟩ := exists_of_bind_eq_ok found
  obtain ⟨_, -, found⟩ := exists_of_bind_eq_ok found
  cases found
  exact finds_lookupRank a coherent _ looked

/-- What is done to the dataset that was found is done at its place. -/
theorem confined_found {look : Archive → Except StorageError DatasetId}
    {next : DatasetId → Action α} (place : S path) (finds : Finds path look)
    (h : ∀ id, Works path id (next id)) :
    Confined S (do
      let id ← liftExcept (look (← get))
      next id) := by
  intro a coherent
  refine ends_bind.2 (ends_get.2 (ends_bind.2 (ends_liftExcept.2
    ⟨fun id found => ?_, fun _ _ => coherent.spared⟩)))
  have denotes := finds a coherent id found
  exact (h id a coherent denotes).mono (fun _ _ within => within.spared place denotes)
    fun _ _ within => within.spared place denotes

theorem confined_find {operation : String} {rank : Nat} {e : ElementType}
    {next : DatasetId → Action α} (place : S path) (h : ∀ id, Works path id (next id)) :
    Confined S (find path operation rank e >>= next) := by
  intro a coherent
  have finds : Finds path (·.lookupTyped path operation rank e) := finds_lookupTyped
  have found := confined_found place finds h a coherent
  unfold find
  simp only [ends_bind] at found ⊢
  exact found

section
variable {e : ElementType} (place : S path)

include place

theorem confined_appendScalar {v : e.Value} : Confined S (appendScalar path e v) :=
  confined_find place fun _ => .bind .grow fun _ => .put

theorem confined_appendVector {values : List e.Value} :
    Confined S (appendVector path e values) :=
  confined_find place fun _ =>
    .get fun _ => .bind (.liftExcept _) fun _ => .bind .grow fun _ => .put

theorem confined_appendMatrix {m : Matrix e.Value} {transpose : Bool} :
    Confined S (appendMatrix path e m transpose) :=
  confined_find place fun _ =>
    .get fun _ => .bind (.liftExcept _) fun _ => .bind .grow fun _ => .putMatrix

theorem confined_appendMatrices {matrices : List (Matrix e.Value)} {transpose : Bool} :
    Confined S (appendMatrices path e matrices transpose) :=
  confined_find place fun _ =>
    .get fun _ => .bind (.liftExcept _) fun _ => .bind .grow fun _ => .putMatrices

theorem confined_reserveRow : Confined S (reserveRow path) :=
  confined_found place finds_lookup fun _ => .grow

theorem confined_setScalar {v : e.Value} {index : Nat} : Confined S (setScalar path e v index) :=
  confined_find place fun _ => .put

theorem confined_setVector {values : List e.Value} {index : Nat} {row : Bool} :
    Confined S (setVector path e values index row) := by
  have column (id : DatasetId) (height : Nat) : Works path id (do
      unless values.length = height do
        throw (.shapeMismatch path "set_vector" s!"column of {height}" s!"{values.length} values")
      put id "set_vector" ⟨[0, index], [height, 1]⟩ (values.map e.toDatum)) :=
    .ite .put (.bind (.throw _) fun _ => .put)
  refine confined_find place fun id => .get fun a => .ite ?_ ?_
  · exact .bind (.liftExcept _) fun _ => .put
  · exact .ite (column id _) (.bind (.throw _) fun _ => column id _)

theorem confined_setMatrix {m : Matrix e.Value} {index : Nat} {transpose : Bool} :
    Confined S (setMatrix path e m index transpose) :=
  confined_find place fun _ => .putMatrix

theorem confined_setMatrices {matrices : List (Matrix e.Value)} {index : Nat} {transpose : Bool} :
    Confined S (setMatrices path e matrices index transpose) :=
  confined_find place fun _ => .putMatrices

theorem confined_writeScalar {v : e.Value} : Confined S (writeScalar path e v) :=
  confined_find place fun _ => .put

theorem confined_writeVector {values : List e.Value} : Confined S (writeVector path e values) :=
  confined_find place fun _ => .get fun _ => .ite .put (.bind (.throw _) fun _ => .put)

theorem confined_writeMatrix {m : Matrix e.Value} {transpose : Bool} :
    Confined S (writeMatrix path e m transpose) :=
  confined_find place fun _ => .putMatrix

theorem confined_setRecord {v : Datum} {index : Nat} : Confined S (setRecord path v index) :=
  confined_found place finds_lookupRank fun _ => .put

theorem confined_writeSlab {s : Selection} {values : List Datum} :
    Confined S (writeSlab path s values) :=
  confined_found place finds_lookup fun _ => .put

theorem confined_writeRecords {values : List Datum} : Confined S (writeRecords path values) :=
  confined_found place finds_lookupRank fun _ => .put

end

/-! ## Making datasets and attaching scales

A new dataset is nobody's yet, so to make one is confined to any places; so is to attach a scale,
which changes no cell. -/

/-- A new dataset is put beside the old ones: they are named by their own paths before and after. -/
theorem Coherent.kept_of_made {d : Dataset} {m : Mounted} (coherent : a.Coherent)
    (made : Container.Made a.mounted d m) (known : id < a.tree.datasets.length) :
    m.container.tree.datasets[id]? = some (a.dataset id) := by
  have found := Tree.getElem?_of_lt known
  have node := coherent.ready.sound.placed found
  have apart : (a.tree.dataset id).path ≠ d.path := by
    intro same
    rw [same, made.planted.absent] at node
    cases node
  have there := made.at_ (a.tree.dataset id).path
  rw [if_neg apart, Tree.at?_of_node (made.planted.kept node), Tree.at?_of_node node] at there
  exact there.trans found

theorem spared_of_made {d : Dataset} {m : Mounted} (coherent : a.Coherent)
    (made : Container.Made a.mounted d m) : Spared S a { a with mounted := m } := by
  have sound := coherent.ready.sound
  have here : m.container.tree.at? d.path = some d := by rw [made.at_, if_pos rfl]
  obtain ⟨new, node, -⟩ := Tree.at?_eq_some.1 here
  have kept {id : DatasetId} (known : id < a.tree.datasets.length) :
      m.container.tree.datasets[id]? = some (a.dataset id) := coherent.kept_of_made made known
  have keeps : Tree.Keeps a.tree m.container.tree := fun _ _ node _ => made.planted.kept node
  refine ⟨⟨made.ready, fun q id handled => ?_⟩, ?_, fun q id known => ?_, fun id known _ => ?_⟩
  · exact keeps.denoted? (coherent.handles q id handled)
  · refine Nat.le_of_not_lt fun fewer => ?_
    exact Nat.lt_irrefl _ (Tree.lt_of_getElem? (kept fewer))
  · exact ⟨made.planted.denotes sound node known, keeps.denoted?⟩
  · have same : Archive.dataset { a with mounted := m } id = a.dataset id :=
      Tree.dataset_of_getElem? (kept known)
    rw [same]
    exact .refl _

/-- To remember where a dataset lies changes nothing that is stored. -/
theorem Spared.remembered (h : Spared S a a') (denotes : a'.tree.denoted? path = some id) :
    Spared S a { a' with handles := a'.handles.insert path id } := by
  refine ⟨⟨h.coherent.ready, fun q id' kept => ?_⟩, h.length, h.denotes, h.same⟩
  rw [Table.get?_insert] at kept
  split at kept
  · next same =>
    cases kept
    exact same ▸ denotes
  · exact h.coherent.handles q id' kept

theorem ends_createDataset_spared (coherent : a.Coherent) {type : DataType} {dims : List Nat}
    {extensible : Bool} {hint : Option Nat} {fill : Option Datum} :
    Ends (createDataset path type dims extensible hint fill) a
      (fun _ a' => Spared S a a' ∧
        ∃ new, a.tree.datasets.length ≤ new ∧ a'.tree.denoted? path = some new)
      (fun _ a' => Spared S a a') := by
  unfold createDataset
  simp only [ends_bind, ends_get]
  refine ends_onContainer.2 ((Container.ends_createDataset coherent.ready ..).mono ?_ ?_)
  · rintro id m ⟨made, node⟩
    have spared : Spared S a { a with mounted := m } := spared_of_made coherent made
    have new := made.planted.length_le coherent.ready.sound node
    have denotes := Tree.denoted?_of_node node
    split
    · exact ends_modify.2 ⟨spared.remembered denotes, id, new, denotes⟩
    · exact ends_pure.2 ⟨spared, id, new, denotes⟩
  · rintro _ m (rfl | made)
    · exact coherent.spared
    · exact spared_of_made coherent made

theorem confined_createDataset {type : DataType} {dims : List Nat} {extensible : Bool}
    {hint : Option Nat} {fill : Option Datum} :
    Confined S (createDataset path type dims extensible hint fill) :=
  fun _ coherent => (ends_createDataset_spared coherent).mono (fun _ _ h => h.1) fun _ _ h => h

theorem confined_createEmptyOf {type : DataType} {dims : List Nat} {hint : Option Nat}
    {fill : Option Datum} : Confined S (createEmptyOf path type dims hint fill) :=
  fun a coherent => ends_createEmptyOf (fun _ => coherent.spared)
    (confined_createDataset a coherent)

theorem confined_createEmpty {e : ElementType} {dims : List Nat} {fill : Option e.Value} :
    Confined S (createEmpty path e dims fill) := confined_createEmptyOf

theorem confined_createCompound {dims : List Nat} {fields : List Field} :
    Confined S (createCompound path dims fields) := by
  unfold createCompound
  exact .ite (.bind (.throw _) fun _ => confined_createEmptyOf) confined_createEmptyOf

/-- A dataset that is another state of itself has its extents and cells. -/
theorem spared_of_turned {d' : Dataset} {m : Mounted} (coherent : a.Coherent)
    (known : id < a.tree.datasets.length)
    (turned : Container.Turned a.mounted (a.dataset id).path d' m)
    (same : Dataset.SameCells (a.dataset id) d') : Spared S a { a with mounted := m } := by
  have altered : Altered a .root id d' { a with mounted := m } :=
    altered_of_turned coherent.ready (Tree.getElem?_of_lt known) turned
  refine ⟨⟨altered.ready, fun q id' kept => ?_⟩, altered.length.ge, fun q _ _ => ?_,
    fun other known _ => ?_⟩
  · exact (Tree.denoted?_congr altered.nodes q).trans (coherent.handles q id' kept)
  · rw [Tree.denoted?_congr altered.nodes q]
  · by_cases here : other = id
    · subst here
      rw [altered.here]
      exact same
    · rw [altered.others other known here]
      exact .refl _

section
variable {scale : Path} {label : String} {axis : Nat}

/-- Attaching a scale keeps what naming the one dataset and giving the other one a scale keep. -/
theorem preserves_attachScale_steps {P : Archive → Prop} (coherent : ∀ a, P a → a.Coherent)
    (named : ∀ a id m, P a → a.tree.denoted? scale = some id →
      Container.Turned a.mounted (a.dataset id).path ((a.dataset id).markScale label) m →
      P { a with mounted := m })
    (scaled : ∀ a id scaleId d' m, P a → a.tree.denoted? path = some id →
      a.tree.denoted? scale = some scaleId →
      (a.dataset id).attachScale axis ⟨(a.dataset scaleId).path, label⟩ = .ok d' →
      Container.Turned a.mounted (a.dataset id).path d' m → P { a with mounted := m }) :
    Preserves P (attachScale path scale label axis) := by
  intro a here
  unfold attachScale
  refine ends_bind.2 (ends_get.2 (ends_bind.2 (ends_liftExcept.2 ⟨fun id found => ?_,
    fun _ _ => here⟩)))
  refine ends_bind.2 (ends_get.2 (ends_bind.2 (ends_liftExcept.2 ⟨fun scaleId found' => ?_,
    fun _ _ => here⟩)))
  have ready := (coherent a here).ready
  have denotes := (coherent a here).denoted?_of_lookup found
  have denotes' := (coherent a here).denoted?_of_lookup found'
  -- Whether or not the scale is named first, the two datasets are there.
  have attaches {b : Archive} (goes : P b) (nodes : b.tree.nodes = a.tree.nodes) :
      Ends (do let _ ← onContainer (Container.attachScale id scaleId label axis)) b
        (fun _ => P) (fun _ => P) := by
    have ready := (coherent b goes).ready
    have still := (Tree.denoted?_congr nodes path).trans denotes
    have still' := (Tree.denoted?_congr nodes scale).trans denotes'
    have turned {m : Mounted} (h : ∃ d', (b.dataset id).attachScale axis
        ⟨(b.dataset scaleId).path, label⟩ = .ok d' ∧
          Container.Turned b.mounted (b.dataset id).path d' m) : P { b with mounted := m } := by
      obtain ⟨d', attached, h⟩ := h
      exact scaled b id scaleId d' m goes still still' attached h
    refine ends_bind.2 (ends_onContainer.2 ((Container.ends_attachScale ready
      (Tree.getElem?_of_lt (ready.sound.lt_of_denoted? still))
      (Tree.getElem?_of_lt (ready.sound.lt_of_denoted? still')) label axis).mono ?_ ?_))
    · exact fun _ m h => ends_pure.2 (turned h)
    · rintro _ m (⟨-, -, rfl⟩ | ⟨-, h⟩)
      · exact goes
      · exact turned h
  refine ends_bind.2 (ends_get.2 (ends_ite.2 ⟨fun _ => ?_, fun _ => attaches here rfl⟩))
  have marked {m : Mounted} (h : Container.Turned a.mounted (a.dataset scaleId).path
      ((a.dataset scaleId).markScale label) m) : P { a with mounted := m } :=
    named a scaleId m here denotes' h
  refine ends_bind.2 (ends_onContainer.2 ((Container.ends_markScale ready
    (Tree.getElem?_of_lt (ready.sound.lt_of_denoted? denotes')) label).mono ?_ ?_))
  · exact fun _ m h => attaches (marked h) h.tree.nodes
  · exact fun _ m h => marked h.2

/-- Attaching a scale keeps what is true of archives in use whichever way their datasets are
labelled. -/
theorem preserves_attachScale {P : Archive → Prop} (coherent : ∀ a, P a → a.Coherent)
    (labelled : ∀ a id d' m, P a → id < a.tree.datasets.length →
      Container.Turned a.mounted (a.dataset id).path d' m → Dataset.SameData (a.dataset id) d' →
      P { a with mounted := m }) :
    Preserves P (attachScale path scale label axis) := by
  have known {a : Archive} (here : P a) {q : Path} {id : DatasetId}
      (denotes : a.tree.denoted? q = some id) : id < a.tree.datasets.length :=
    (coherent a here).ready.sound.lt_of_denoted? denotes
  refine preserves_attachScale_steps coherent ?_ ?_
  · intro a id m here denotes turned
    exact labelled a id _ m here (known here denotes) turned (Dataset.sameData_markScale _ label)
  · intro a id scaleId d' m here denotes _ attached turned
    exact labelled a id d' m here (known here denotes) turned
      (Dataset.sameData_of_attachScale attached)

end

/-- Attaching a scale changes no extents and no cell. -/
theorem confined_attachScale {scale : Path} {label : String} {axis : Nat} :
    Confined S (attachScale path scale label axis) := by
  intro a coherent
  have keeps : Preserves (Spared S a) (attachScale path scale label axis) := by
    refine preserves_attachScale (fun _ => Spared.coherent) ?_
    intro b id d' m spared known turned same
    exact spared.trans (spared_of_turned spared.coherent known turned same.toSameCells)
  exact keeps a coherent.spared

/-- Making a link changes no dataset; but it may be a new name for one. -/
theorem ends_createLink_coherent (coherent : a.Coherent) (link target : Path) :
    Ends (createLink link target) a (fun _ a' => a'.Coherent) (fun _ a' => a'.Coherent) := by
  have kept {m : Mounted} (h : m.Ready ∧ Tree.Keeps a.tree m.container.tree) :
      Archive.Coherent { a with mounted := m } :=
    ⟨h.1, fun q id handled => h.2.denoted? (coherent.handles q id handled)⟩
  have aimed : (Mutation.createLink link target).isAimed a.tree := rfl
  exact ends_onContainer.2 ((Mutation.ends_run_keeps coherent.ready aimed).mono
    (fun _ _ => kept) fun _ _ => kept)

end Archive
end StudyArchive
