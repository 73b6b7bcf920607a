import StudyArchive.Proofs.Archive.Reads
import StudyArchive.Proofs.Archive.Scales
import StudyArchive.Proofs.Container.Records
/-
# Calls of an archive

An archive remembers the growing datasets that it made or gave a row, by the paths that it was asked
for.  A path may be a soft link, and nothing that is remembered is ever taken back before the
archive is closed.  Whatever is asked of it, it can rely on that (`Archive.lookup_transparent`): a
remembered path goes on to denote its dataset, and a growing dataset stays one (`Tree.Retains`).
-/

namespace StudyArchive

/-- Whatever comes of a change, the datasets are there still, in whatever state. -/
theorem Mutation.retains_after (m : Mounted) (μ : Mutation) :
    Tree.Retains m.container.tree (after m μ).container.tree := by
  refine tree_after (Tree.Retains.refl _) (fun r t _ => Tree.retains_of_apply) ?_ μ
  intro id operation s values d' _ written
  exact Tree.retains_updateDataset (Dataset.alike_of_write written).1

/-- A container that was reached is closed, or it can be changed. -/
theorem Container.Reached.ready_or_closed {m : Mounted} (reached : Container.Reached m) :
    m.Ready ∨ m.container.writer = none := by
  cases isOpen : m.container.writer with
  | none => exact .inr rfl
  | some w => exact .inl ⟨reached.rooted.toSound, w, isOpen⟩

theorem Container.ends_createDataset_closed {m : Mounted} (closed : m.container.writer = none)
    (path : Path) (type : DataType) (dims : List Nat) (extensible : Bool) (chunkRows : Nat)
    (fill : Datum) :
    Ends (createDataset path type dims extensible chunkRows fill) m (fun _ _ => False)
      (fun _ _ => True) := by
  unfold createDataset commit
  by_cases fits : fill.conforms type <;> simp [fits, isClosed, closed]

namespace Archive

variable {a a' : Archive} {path : Path} {id : DatasetId}

/-! ## Calls -/

/-- What can be asked of an archive that may change it. -/
inductive Call where
  | createEmptyOf (path : Path) (type : DataType) (dims : List Nat) (chunkHint : Option Nat)
      (fill : Option Datum)
  | createFixed (path : Path) (e : ElementType) (dims : List Nat) (fill : Option e.Value)
  | createCompound (path : Path) (dims : List Nat) (fields : List Field)
  | createGroup (path : Path)
  | createLink (link target : Path)
  | attachScale (dataset scale : Path) (label : String) (axis : Nat)
  | setAttribute (path : Path) (name : String) (value : AttrValue)
  | typed (w : TypedWrite)
  | reserveRow (path : Path)
  | writeSlab (path : Path) (s : Selection) (values : List Datum)
  | flush

/-- Make a call; a row that is reserved is not told. -/
def Call.run : Call → Action Unit
  | createEmptyOf path type dims chunkHint fill =>
    Archive.createEmptyOf path type dims chunkHint fill
  | createFixed path e dims fill => Archive.createFixed path e dims fill
  | createCompound path dims fields => Archive.createCompound path dims fields
  | createGroup path => Archive.createGroup path
  | createLink link target => Archive.createLink link target
  | attachScale dataset scale label axis => Archive.attachScale dataset scale label axis
  | setAttribute path name value => Archive.setAttribute path name value
  | typed w => w.run
  | reserveRow path => (fun _ => ()) <$> Archive.reserveRow path
  | writeSlab path s values => Archive.writeSlab path s values
  | flush => Archive.flush

/-- An archive that was opened, and of which anything was asked since, with or without success; it
may have been closed on the way, and others may have changed the disk. -/
inductive Asked : Archive → Prop
  | opened {disk : Disk} {config : StorageConfig} {stamp : Stamp} {a : Archive}
      (h : (openFile disk config stamp).result = .ok a) : Asked a
  | called {a : Archive} (h : Asked a) (c : Call) : Asked (stateAfter (c.run a))
  | closed {a : Archive} (h : Asked a) : Asked a.close
  | disturbed {a : Archive} (h : Asked a) (disk : Disk) :
      Asked { a with mounted := ⟨disk, a.mounted.container⟩ }

/-! ## What is remembered

A memory is right as long as every path in it denotes the dataset that is remembered and that
dataset grows.  Changes of the container keep this because no link is ever turned. -/

/-- An archive that remembers growing datasets only, each by a path that denotes it. -/
structure Transparent (a : Archive) : Prop extends Standing a where
  grows : ∀ path id, a.handles.get? path = some id → (a.dataset id).extensible = true

theorem Standing.lt_of_denoted? (h : a.Standing) (denotes : a.tree.denoted? path = some id) :
    id < a.tree.datasets.length :=
  h.container.rooted.toSound.lt_of_denoted? denotes

namespace Transparent

/-- A container in which everything lies where it lay, whatever became of it. -/
theorem step (h : a.Transparent) {m : Mounted} (reached : Container.Reached m)
    (keeps : Tree.Keeps a.tree m.container.tree) (retains : Tree.Retains a.tree m.container.tree) :
    Transparent { a with mounted := m } := by
  refine ⟨h.toStanding.step reached keeps, fun path id kept => ?_⟩
  obtain ⟨-, alike⟩ := retains id (h.lt_of_denoted? (h.handles path id kept))
  exact alike.extensible.trans (h.grows path id kept)

theorem remembered (h : a.Transparent) (denotes : a.tree.denoted? path = some id)
    (grows : (a.dataset id).extensible = true) :
    Transparent { a with handles := a.handles.insert path id } := by
  refine ⟨⟨h.container, fun q id' kept => ?_⟩, fun q id' kept => ?_⟩
  · rcases Table.eq_or_get?_of_insert kept with ⟨rfl, rfl⟩ | old
    · exact denotes
    · exact h.handles q id' old
  · rcases Table.eq_or_get?_of_insert kept with ⟨-, rfl⟩ | old
    · exact grows
    · exact h.grows q id' old

theorem changed (h : a.Transparent) (μ : Mutation) :
    Transparent { a with mounted := μ.after a.mounted } :=
  h.step (h.container.changed μ) (Mutation.keeps_after a.mounted μ)
    (Mutation.retains_after a.mounted μ)

theorem flushed (h : a.Transparent) :
    Transparent { a with mounted := stateAfter (Container.flush a.mounted) } := by
  have tree : (stateAfter (Container.flush a.mounted)).container.tree = a.tree :=
    Container.tree_flush a.mounted
  exact h.step h.container.flushed (Tree.keeps_of_nodes (congrArg Tree.nodes tree))
    (Tree.retains_of_datasets [] (by rw [tree, List.append_nil]))

end Transparent

/-- Facts that no change of the container takes away. -/
def Lasting (I : Archive → Prop) : Prop :=
  ∀ a μ, I a → I { a with mounted := Mutation.after a.mounted μ }

/-- Facts about archives that remember right, which no call takes away: neither by what it does to
the container nor by what it remembers. -/
structure Robust (I : Archive → Prop) : Prop where
  transparent : ∀ a, I a → a.Transparent
  changed : Lasting I
  remembered : ∀ a path id, I a → a.tree.denoted? path = some id →
    (a.dataset id).extensible = true → I { a with handles := a.handles.insert path id }
  flushed : ∀ a, I a → I { a with mounted := stateAfter (Container.flush a.mounted) }

theorem robust_transparent : Robust Transparent :=
  ⟨fun _ h => h, fun _ μ h => h.changed μ, fun _ _ _ h => h.remembered, fun _ h => h.flushed⟩

/-- What is true of every tree that keeps all that was there, and of the datasets whatever became of
them, is true after every call. -/
theorem robust_of_tree {P : Tree → Prop}
    (later : ∀ t t', P t → Tree.Keeps t t' → Tree.Retains t t' → P t') :
    Robust fun a => a.Transparent ∧ P a.tree where
  transparent _ h := h.1
  changed a μ h :=
    ⟨h.1.changed μ, later _ _ h.2 (Mutation.keeps_after _ μ) (Mutation.retains_after _ μ)⟩
  remembered _ _ _ h denotes grows := ⟨h.1.remembered denotes grows, h.2⟩
  flushed a h := by
    refine ⟨h.1.flushed, ?_⟩
    show P (stateAfter (Container.flush a.mounted)).container.tree
    rw [Container.tree_flush]
    exact h.2

/-- A path denotes a dataset. -/
def At (I : Archive → Prop) (path : Path) (id : DatasetId) (a : Archive) : Prop :=
  I a ∧ a.tree.denoted? path = some id

theorem Robust.at {I : Archive → Prop} (robust : Robust I) : Lasting (At I path id) :=
  fun a μ h => ⟨robust.changed a μ h.1, (Mutation.keeps_after a.mounted μ).denoted? h.2⟩

/-! ## Steps that keep what lasts

One lemma for each step that calls are made of, for anything that all changes of a container keep.
-/

section
variable {I : Archive → Prop} (lasting : Lasting I)

include lasting

theorem preserves_mutation (μ : Mutation) : Preserves I (onContainer μ.run) := by
  intro a here
  have after : I { a with mounted := μ.after a.mounted } := lasting a μ here
  exact ends_onContainer.2
    (ends_of_stateAfter (P := fun m => I { a with mounted := m }) after)

theorem preserves_told {α : Type} {act : Container.Action α} (μ : Mutation)
    (told : μ.run = (fun _ => ()) <$> act) : Preserves I (onContainer act) := by
  intro a here
  have ends := ends_onContainer.1 (preserves_mutation lasting μ a here)
  rw [told] at ends
  exact ends_onContainer.2 (ends_map.1 ends)

theorem preserves_put {operation : String} {s : Selection} {data : List Datum} :
    Preserves I (put id operation s data) :=
  preserves_mutation lasting (.write id operation s data)

variable {e : ElementType} {operation : String} {lead : List Nat}

theorem preserves_putRows {width row : Nat} {rows : List (List e.Value)} :
    Preserves I (putRows id operation lead width row rows) := by
  induction rows generalizing row with
  | nil => exact .pure _
  | cons values rest ih => exact .bind (preserves_put lasting) fun _ => ih

theorem preserves_putMatrix {m : Matrix e.Value} {transpose : Bool} :
    Preserves I (putMatrix id operation lead m transpose) :=
  .get fun _ => .guarded (.ite (preserves_put lasting) (preserves_putRows lasting))

theorem preserves_putEach {transpose : Bool} {k : Nat} {matrices : List (Matrix e.Value)} :
    Preserves I (putEach id operation lead transpose k matrices) := by
  induction matrices generalizing k with
  | nil => exact .pure _
  | cons m rest ih => exact .bind (preserves_putMatrix lasting) fun _ => ih

theorem preserves_putMatrices {matrices : List (Matrix e.Value)} {transpose : Bool} :
    Preserves I (putMatrices id operation lead matrices transpose) :=
  .get fun _ => .guarded (preserves_putEach lasting)

end

section
variable {I : Archive → Prop} (robust : Robust I)

include robust

/-- A dataset that gets a row is a growing one; it may be remembered. -/
theorem preserves_grow {operation : String} :
    Preserves (At I path id) (grow path id operation) := by
  unfold grow
  intro a here
  refine ends_bind.2 (ends_get.2 (ends_ite.2 ⟨fun extensible => ?_, fun _ =>
    ends_bind.2 (ends_throw.2 here)⟩))
  -- The dataset is there after the change, and grows as it did.
  have there : Preserves (fun b => At I path id b ∧ (b.dataset id).extensible = true)
      (onContainer (Container.extend id ((a.dataset id).dims.head?.getD 0 + 1))) := by
    refine preserves_mutation ?_ (.extend id _)
    rintro b μ ⟨here, grows⟩
    have known := (robust.transparent b here.1).lt_of_denoted? here.2
    obtain ⟨-, alike⟩ := Mutation.retains_after b.mounted μ id known
    exact ⟨robust.at b μ here, alike.extensible.trans grows⟩
  refine ends_bind.2 ((there a ⟨here, extensible⟩).mono ?_ fun _ _ bad => bad.1)
  rintro _ a₁ ⟨here₁, grows⟩
  refine ends_bind.2 (ends_get.2 (ends_ite.2 ⟨fun _ => ends_pure.2 here₁, fun _ => ?_⟩))
  exact ends_bind.2 (ends_modify.2 (ends_pure.2
    ⟨robust.remembered a₁ path id here₁.1 here₁.2 grows, here₁.2⟩))

/-- A growing dataset that was made is remembered by its path. -/
theorem preserves_createDataset {type : DataType} {dims : List Nat} {extensible : Bool}
    {hint : Option Nat} {fill : Option Datum} :
    Preserves I (createDataset path type dims extensible hint fill) := by
  intro a here
  unfold createDataset
  simp only [ends_bind, ends_get]
  generalize (if extensible = true then _ else _) = chunkRows
  have kept := ends_onContainer.1 (preserves_told robust.changed (.createDataset path type
    dims extensible chunkRows (fill.getD (.zero type))) rfl a here)
  have made : Ends (Container.createDataset path type dims extensible chunkRows
      (fill.getD (.zero type))) a.mounted
      (fun id m => m.container.tree.denoted? path = some id ∧
        (m.container.tree.dataset id).extensible = extensible) (fun _ _ => True) := by
    rcases (robust.transparent a here).container.ready_or_closed with ready | closed
    · refine (Container.ends_createDataset ready ..).mono ?_ fun _ _ _ => trivial
      rintro id m ⟨made, node⟩
      have there := (made.at_ path).trans (if_pos rfl)
      rw [Tree.at?_of_node node] at there
      exact ⟨Tree.denoted?_of_node node, by rw [Tree.dataset_of_getElem? there]; rfl⟩
    · exact (Container.ends_createDataset_closed closed ..).mono (fun _ _ => False.elim)
        fun _ _ _ => trivial
  refine ends_onContainer.2 ((kept.and made).mono ?_ fun _ _ bad => bad.1)
  rintro id m ⟨here, denotes, grows⟩
  split
  · next extensible =>
    exact ends_modify.2 (robust.remembered _ path id here denotes (grows.trans extensible))
  · exact ends_pure.2 here

/-- What is done with the dataset that was found at a path. -/
theorem preserves_found {α : Type} {look : Archive → Except StorageError DatasetId}
    {next : DatasetId → Action α}
    (finds : ∀ a : Archive, a.Standing → ∀ id, look a = .ok id → a.tree.denoted? path = some id)
    (h : ∀ id, Preserves (At I path id) (next id)) :
    Preserves I (do
      let id ← liftExcept (look (← get))
      next id) := by
  intro a here
  refine ends_bind.2 (ends_get.2 (ends_bind.2 (ends_liftExcept.2
    ⟨fun id found => ?_, fun _ _ => here⟩)))
  have denotes := finds a (robust.transparent a here).toStanding id found
  exact (h id a ⟨here, denotes⟩).mono (fun _ _ => And.left) fun _ _ => And.left

end

section
variable {operation : String} {rank : Nat} {e : ElementType}

theorem Standing.denoted?_of_lookup (h : a.Standing)
    (looked : a.lookup path operation = .ok id) : a.tree.denoted? path = some id := by
  rw [lookup_eq_of_handles h.handles] at looked
  exact Tree.denoted?_of_open looked

theorem Standing.denoted?_of_lookupRank (h : a.Standing)
    (found : a.lookupRank path operation rank = .ok id) : a.tree.denoted? path = some id := by
  obtain ⟨_, looked, found⟩ := exists_of_bind_eq_ok found
  obtain ⟨_, -, found⟩ := exists_of_bind_eq_ok found
  cases found
  exact h.denoted?_of_lookup looked

theorem preserves_find {I : Archive → Prop} (robust : Robust I) {α : Type}
    {next : DatasetId → Action α} (h : ∀ id, Preserves (At I path id) (next id)) :
    Preserves I (find path operation rank e >>= next) := by
  have finds (a : Archive) (standing : a.Standing) (id : DatasetId)
      (found : a.lookupTyped path operation rank e = .ok id) : a.tree.denoted? path = some id := by
    obtain ⟨_, looked, found⟩ := exists_of_bind_eq_ok found
    obtain ⟨_, -, found⟩ := exists_of_bind_eq_ok found
    cases found
    exact standing.denoted?_of_lookupRank looked
  intro a here
  have found := preserves_found robust finds h a here
  unfold find
  simp only [ends_bind] at found ⊢
  exact found

end

/-! ## Each call -/

section
variable {I : Archive → Prop} (robust : Robust I)

include robust

/-- What is robust is true after a typed write, whatever comes of it. -/
theorem TypedWrite.preserves_run (w : TypedWrite) : Preserves I w.run := by
  cases w with
  | appendScalar path e v =>
    exact preserves_find robust fun _ =>
      .bind (preserves_grow robust) fun _ => preserves_put robust.at
  | appendVector path e values =>
    exact preserves_find robust fun _ => .get fun _ => .bind (.liftExcept _) fun _ =>
      .bind (preserves_grow robust) fun _ => preserves_put robust.at
  | appendMatrix path e m transpose =>
    exact preserves_find robust fun _ => .get fun _ => .bind (.liftExcept _) fun _ =>
      .bind (preserves_grow robust) fun _ => preserves_putMatrix robust.at
  | appendMatrices path e matrices transpose =>
    exact preserves_find robust fun _ => .get fun _ => .bind (.liftExcept _) fun _ =>
      .bind (preserves_grow robust) fun _ => preserves_putMatrices robust.at
  | setScalar path e v index =>
    exact preserves_find robust fun _ => preserves_put robust.at
  | setVector path e values index row =>
    refine preserves_find robust fun id => .get fun _ => .ite ?_ ?_
    · exact .bind (.liftExcept _) fun _ => preserves_put robust.at
    · exact .guarded (.guarded (preserves_put robust.at))
  | setMatrix path e m index transpose =>
    exact preserves_find robust fun _ => preserves_putMatrix robust.at
  | setMatrices path e matrices index transpose =>
    exact preserves_find robust fun _ => preserves_putMatrices robust.at
  | writeScalar path e v => exact preserves_find robust fun _ => preserves_put robust.at
  | writeVector path e values =>
    exact preserves_find robust fun _ => .get fun _ => .guarded (preserves_put robust.at)
  | writeMatrix path e m transpose =>
    exact preserves_find robust fun _ => preserves_putMatrix robust.at
  | setRecord path v index =>
    exact preserves_found robust (fun _ h _ => h.denoted?_of_lookupRank)
      fun _ => preserves_put robust.at
  | writeRecords path values =>
    exact preserves_found robust (fun _ h _ => h.denoted?_of_lookupRank)
      fun _ => preserves_put robust.at

theorem preserves_createEmptyOf {type : DataType} {dims : List Nat} {hint : Option Nat}
    {fill : Option Datum} : Preserves I (createEmptyOf path type dims hint fill) :=
  fun a here => ends_createEmptyOf (fun _ => here) (preserves_createDataset robust a here)

/-- What is robust is true after every call, whatever comes of it. -/
theorem Call.preserves_run (c : Call) : Preserves I c.run := by
  cases c with
  | createEmptyOf path type dims hint fill => exact preserves_createEmptyOf robust
  | createFixed path e dims fill => exact preserves_createDataset robust
  | createCompound path dims fields =>
    show Preserves I (Archive.createCompound path dims fields)
    unfold Archive.createCompound
    exact .ite (.bind (.throw _) fun _ => preserves_createEmptyOf robust)
      (preserves_createEmptyOf robust)
  | createGroup path => exact preserves_mutation robust.changed (.createGroup path)
  | createLink link target => exact preserves_mutation robust.changed (.createLink link target)
  | attachScale dataset scale label axis =>
    have attaches (id scaleId : DatasetId) : Preserves I
        (do let _ ← onContainer (Container.attachScale id scaleId label axis)) :=
      .bind (preserves_told robust.changed (.attachScale id scaleId label axis) rfl)
        fun _ => .pure _
    refine .get fun _ => .bind (.liftExcept _) fun id => .get fun _ => .bind (.liftExcept _)
      fun scaleId => .get fun _ =>
        .ite (.bind ?_ fun _ => attaches id scaleId) (attaches id scaleId)
    exact preserves_mutation robust.changed (.markScale scaleId label)
  | setAttribute path name value =>
    exact preserves_mutation robust.changed (.setAttribute path name value)
  | typed w => exact w.preserves_run robust
  | reserveRow path =>
    intro a here
    have reserves : Preserves I (Archive.reserveRow path) :=
      preserves_found robust (fun _ h _ => h.denoted?_of_lookup) fun _ => preserves_grow robust
    exact ends_map.2 (reserves a here)
  | writeSlab path s values =>
    exact preserves_found robust (fun _ h _ => h.denoted?_of_lookup)
      fun _ => preserves_put robust.at
  | flush =>
    intro a here
    exact ends_onContainer.2
      (ends_of_stateAfter (P := fun m => I { a with mounted := m }) (robust.flushed a here))

end

theorem transparent_of_openFile {disk : Disk} {config : StorageConfig} {stamp : Stamp}
    (h : (openFile disk config stamp).result = .ok a) : a.Transparent := by
  refine good_of_openFile (fun a name value here => ?_) h fun c opened => ?_
  · have kept := preserves_mutation robust_transparent.changed (.setAttribute .root name value)
    exact (kept a here).mono (fun _ _ here => here) fun _ _ _ => trivial
  · exact ⟨⟨.opened opened, fun path id kept => by cases kept⟩, fun path id kept => by cases kept⟩

theorem Asked.transparent (asked : a.Asked) : a.Transparent := by
  induction asked with
  | opened h => exact transparent_of_openFile h
  | called _ c ih => exact (c.preserves_run robust_transparent).after ih
  | closed _ ih =>
    exact ⟨⟨ih.container.closed, fun path id kept => by cases kept⟩,
      fun path id kept => by cases kept⟩
  | disturbed _ disk ih =>
    exact ih.step (ih.container.disturbed disk) (Tree.keeps_of_nodes rfl) (Tree.Retains.refl _)

/-- Whatever was asked of an archive since it was opened: to look a path up gives what the container
finds there, or what it says when it finds nothing; and all that is remembered are growing datasets
that are there. -/
theorem lookup_transparent (asked : a.Asked) :
    (∀ path operation, a.lookup path operation = a.tree.openDataset path operation) ∧
    ∀ path id, a.handles.get? path = some id →
      a.tree.denoted? path = some id ∧ id < a.tree.datasets.length ∧
      (a.dataset id).extensible = true := by
  have transparent := asked.transparent
  refine ⟨lookup_eq_of_handles transparent.handles, fun path id kept => ?_⟩
  have denotes := transparent.handles path id kept
  exact ⟨denotes, transparent.lt_of_denoted? denotes, transparent.grows path id kept⟩

/-- Make a growing column and two links, one of them to the column and one to nowhere, and append to
both. -/
def appendThroughLinks : List Call :=
  [.createEmptyOf (.ofText "/v") (.scalar .int64) [0] none none,
    .createLink (.ofText "/l") (.ofText "/v"),
    .typed (.appendScalar (.ofText "/l") .int64 (5 : Int64)),
    .createLink (.ofText "/m") (.ofText "/n"),
    .typed (.appendScalar (.ofText "/m") .int64 (5 : Int64))]

/-- An archive after calls, whatever came of them. -/
def afterCalls (a : Archive) (calls : List Call) : Archive :=
  calls.foldl (fun a c => stateAfter (c.run a)) a

theorem Asked.calls (asked : a.Asked) (calls : List Call) : (a.afterCalls calls).Asked := by
  induction calls generalizing a with
  | nil => exact asked
  | cons c calls ih => exact ih (asked.called c)

theorem lookup_transparent_of_links : ∃ a₀, (openFile default {} default).result = .ok a₀ ∧
    ∃ a, a = a₀.afterCalls appendThroughLinks ∧ a.Asked ∧
      a.handles.get? (.ofText "/l") = some 0 ∧ (a.dataset 0).extensible = true ∧
      a.handles.get? (.ofText "/m") = none ∧
      ∀ path operation, a.lookup path operation = a.tree.openDataset path operation := by
  have ready : (openFile default {} default).result.toOption.any (fun a =>
      (a.afterCalls appendThroughLinks).handles.get? (.ofText "/l") = some 0 ∧
        (a.afterCalls appendThroughLinks).handles.get? (.ofText "/m") = none) := by
    decide +kernel
  obtain ⟨a₀, opened, ready⟩ := (Option.any_eq_true ..).1 ready
  obtain ⟨kept, absent⟩ := of_decide_eq_true ready
  have opened := eq_ok_of_toOption opened
  have asked := (Asked.opened opened).calls appendThroughLinks
  obtain ⟨same, remembered⟩ := lookup_transparent asked
  exact ⟨a₀, opened, _, rfl, asked, kept, (remembered _ _ kept).2.2, absent, same⟩

end Archive
end StudyArchive
