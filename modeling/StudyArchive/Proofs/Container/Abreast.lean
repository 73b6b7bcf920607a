import StudyArchive.Proofs.Container.Bare
/-
# Containers abreast

Writing and growing look at a container's namespace and at what its datasets are, never at their
data.  So two containers that differ in data only go on side by side: the same steps succeed, and
each cell is left alone in both or gets the same value in both.  `Mounted.Abreast` says so of two
containers that were reached from two others, and the steps keep it (`Container.together_write`,
`Container.together_extend`).
-/

namespace StudyArchive

/-! ## Datasets -/

namespace Dataset

variable {d₀ e₀ d e d' : Dataset}

/-- A dataset without its data. -/
def blank (d : Dataset) : Dataset := { d with chunks := ∅ }

/-- Two datasets that differ in data only.  Of what became of two others, nothing but extents and
data changed, and a cell either is in both what it was, or is the same in both. -/
structure Abreast (d₀ e₀ d e : Dataset) : Prop where
  blank : d.blank = e.blank
  shape : d.blank = { d₀.blank with dims := d.dims }
  spans : ∀ index, d.Spans index ↔ d₀.Spans index
  cells : ∀ index, d.Spans index →
    (d.cell index = d₀.cell index ∧ e.cell index = e₀.cell index) ∨ d.cell index = e.cell index

theorem abreast_self (blank : d.blank = e.blank) : Abreast d e d e :=
  ⟨blank, rfl, fun _ => .rfl, fun _ _ => .inl ⟨rfl, rfl⟩⟩

section
variable (same : d.blank = e.blank)

include same

theorem dims_eq_of_blank : d.dims = e.dims := by
  simpa only [Dataset.blank] using congrArg Dataset.dims same

theorem path_eq_of_blank : d.path = e.path := by
  simpa only [Dataset.blank] using congrArg Dataset.path same

theorem type_eq_of_blank : d.type = e.type := by
  simpa only [Dataset.blank] using congrArg Dataset.type same

theorem extensible_eq_of_blank : d.extensible = e.extensible := by
  simpa only [Dataset.blank] using congrArg Dataset.extensible same

theorem spans_iff_of_blank {index : List Nat} : d.Spans index ↔ e.Spans index := by
  unfold Spans rank
  rw [dims_eq_of_blank same]

/-- Datasets that differ in data only are bare the same. -/
theorem bare_eq_of_blank : d.bare = e.bare := by
  show d.blank.bare = e.blank.bare
  rw [same]

end

theorem blank_of_write {operation : String} {s : Selection} {values : List Datum}
    (h : d.write operation s values = .ok d') : d'.blank = d.blank := by
  obtain ⟨chunks, eq⟩ := setCells_eq d s.cells values
  rw [(write_eq_ok h).2.2, eq]
  rfl

namespace Abreast

/-- A write that one of the datasets takes, the other one takes, and else they refuse it for the
same reason. -/
theorem write (h : Abreast d₀ e₀ d e) (sound : d.Chunked) (sound' : e.Chunked)
    (operation : String) (s : Selection) (values : List Datum) :
    (∃ d' e', d.write operation s values = .ok d' ∧ e.write operation s values = .ok e' ∧
      Abreast d₀ e₀ d' e') ∨
    ∃ err, d.write operation s values = .error err ∧ e.write operation s values = .error err := by
  have checks := checkSelection_eq_of_bare (bare_eq_of_blank h.blank) operation s
  cases checked : d.checkSelection operation s with
  | error err =>
    have checked' := checks.symm.trans checked
    exact .inr ⟨err, by simp only [Dataset.write, checked]; rfl,
      by simp only [Dataset.write, checked']; rfl⟩
  | ok _ =>
    have checked' := checks.symm.trans checked
    by_cases count : s.cells.length = values.length
    · obtain ⟨d', written⟩ := exists_write_eq_ok checked count
      obtain ⟨e', written'⟩ := exists_write_eq_ok checked' count
      have dims := (alike_of_write written).2
      have spans_iff (index : List Nat) : d'.Spans index ↔ d.Spans index := by
        unfold Spans rank
        rw [dims]
      refine .inl ⟨d', e', written, written', ?_, ?_, fun index =>
        (spans_iff index).trans (h.spans index), fun index spans => ?_⟩
      · rw [blank_of_write written, blank_of_write written', h.blank]
      · rw [blank_of_write written, dims]
        exact h.shape
      · have here := (spans_iff index).1 spans
        by_cases mem : index ∈ s.cells
        · obtain ⟨k, at_⟩ := List.getElem?_of_mem mem
          have value : values[k]? = some _ :=
            List.getElem?_eq_getElem (count ▸ (List.getElem?_eq_some_iff.1 at_).1)
          refine .inr ?_
          rw [cell_of_write sound written at_ value, cell_of_write sound' written' at_ value]
        · rw [cell_of_write_of_not_mem sound written here mem,
            cell_of_write_of_not_mem sound' written' ((spans_iff_of_blank h.blank).1 here) mem]
          exact h.cells index here
    · refine .inr ⟨_, by simp only [Dataset.write, checked, bind, Except.bind, ne_eq, count,
        not_false_eq_true, if_true]; rfl, ?_⟩
      simp only [Dataset.write, checked', bind, Except.bind, ne_eq, count, not_false_eq_true,
        if_true, path_eq_of_blank h.blank]

theorem extend (h : Abreast d₀ e₀ d e) (extent : Nat) :
    (∃ d' e', d.extend extent = .ok d' ∧ e.extend extent = .ok e' ∧ Abreast d₀ e₀ d' e') ∨
    ∃ err, d.extend extent = .error err ∧ e.extend extent = .error err := by
  have dims := dims_eq_of_blank h.blank
  have grows := extensible_eq_of_blank h.blank
  cases grown : d.extend extent with
  | error err =>
    refine .inr ⟨err, rfl, ?_⟩
    unfold Dataset.extend at grown ⊢
    rw [← dims, ← grows, ← path_eq_of_blank h.blank]
    split at grown
    · next extensible eq =>
      rw [extensible]
      split at grown
      · next small => exact (if_pos small).trans grown
      · cases grown
    · next other => exact grown
  | ok d' =>
    obtain ⟨old, rest, extensible, eq, low, rfl⟩ := extend_eq_ok grown
    have grown' : e.extend extent = .ok { e with dims := extent :: rest } := by
      unfold Dataset.extend
      rw [← grows, extensible, ← dims, eq]
      simp only [if_neg (Nat.not_lt_of_le low)]
    have spans_iff (index : List Nat) :
        ({ d with dims := extent :: rest } : Dataset).Spans index ↔ d.Spans index := by
      unfold Spans rank
      rw [eq]
      rfl
    refine .inl ⟨_, _, rfl, grown', ?_, ?_, fun index => (spans_iff index).trans (h.spans index),
      fun index spans => ?_⟩
    · show { d.blank with dims := extent :: rest } = { e.blank with dims := extent :: rest }
      rw [h.blank]
    · show { d.blank with dims := extent :: rest } = _
      rw [h.shape]
    · rw [cell_of_extend grown, cell_of_extend grown']
      exact h.cells index ((spans_iff index).1 spans)

end Abreast
end Dataset

/-! ## Trees

The nodes are the same and the datasets have the same blanks; what has to be followed is where
their cells agree. -/

namespace Tree

variable {t₀ u₀ t u : Tree} {id : DatasetId} {d e : Dataset}

/-- Two trees, reached from two others, that differ in data only: their namespace is what it was,
and their datasets are abreast. -/
structure Abreast (t₀ u₀ t u : Tree) : Prop where
  left : t.Sound
  right : u.Sound
  kept : t.nodes = t₀.nodes
  nodes : u.nodes = t.nodes
  length : u.datasets.length = t.datasets.length
  each : ∀ id, Dataset.Abreast (t₀.dataset id) (u₀.dataset id) (t.dataset id) (u.dataset id)

theorem dataset_updateDataset (known : id < t.datasets.length) (d : Dataset) (other : DatasetId) :
    (t.updateDataset id d).dataset other = if id = other then d else t.dataset other := by
  unfold dataset updateDataset
  simp only [List.getElem?_set]
  split
  · rfl
  · rfl

theorem abreast_self (left : t.Sound) (right : u.Sound) (nodes : u.nodes = t.nodes)
    (length : u.datasets.length = t.datasets.length)
    (blanks : ∀ id, (t.dataset id).blank = (u.dataset id).blank) : Abreast t u t u :=
  ⟨left, right, rfl, nodes, length, fun id => Dataset.abreast_self (blanks id)⟩

namespace Abreast

theorem known (h : Abreast t₀ u₀ t u) (known : id < t.datasets.length) :
    id < u.datasets.length := h.length.symm ▸ known

theorem updateDataset (h : Abreast t₀ u₀ t u) (known : id < t.datasets.length)
    (path : d.path = (t.dataset id).path) (sound : d.Sound) (sound' : e.Sound)
    (abreast : Dataset.Abreast (t₀.dataset id) (u₀.dataset id) d e) :
    Abreast t₀ u₀ (t.updateDataset id d) (u.updateDataset id e) where
  left := h.left.updateDataset known path sound
  right := by
    refine h.right.updateDataset (h.known known) ?_ sound'
    rw [← Dataset.path_eq_of_blank abreast.blank, path, Dataset.path_eq_of_blank (h.each id).blank]
  kept := h.kept
  nodes := h.nodes
  length := by simpa [Tree.updateDataset] using h.length
  each other := by
    rw [dataset_updateDataset known, dataset_updateDataset (h.known known)]
    split
    · next same => exact same ▸ abreast
    · exact h.each other

end Abreast

/-- Two trees with the same objects in the same places, and the same datasets, cell by cell. -/
structure SameContents (t u : Tree) : Prop where
  nodes : u.nodes = t.nodes
  length : u.datasets.length = t.datasets.length
  blanks : ∀ id, (t.dataset id).blank = (u.dataset id).blank
  cells : ∀ id index, (t.dataset id).Spans index →
    (t.dataset id).cell index = (u.dataset id).cell index

namespace SameContents

theorem refl (t : Tree) : SameContents t t := ⟨rfl, rfl, fun _ => rfl, fun _ _ _ => rfl⟩

theorem trans {v : Tree} (h : SameContents t u) (h' : SameContents u v) : SameContents t v where
  nodes := h'.nodes.trans h.nodes
  length := h'.length.trans h.length
  blanks id := (h.blanks id).trans (h'.blanks id)
  cells id index spans := (h.cells id index spans).trans
    (h'.cells id index ((Dataset.spans_iff_of_blank (h.blanks id)).1 spans))

end SameContents

/-- Trees abreast of two with the same contents have the same contents. -/
theorem Abreast.sameContents (h : Abreast t₀ u₀ t u) (same : SameContents t₀ u₀) :
    SameContents t u where
  nodes := h.nodes
  length := h.length
  blanks id := (h.each id).blank
  cells id index spans := by
    rcases (h.each id).cells index spans with ⟨left, right⟩ | both
    · rw [left, right]
      exact same.cells id index (((h.each id).spans index).1 spans)
    · exact both

theorem Sound.apply_extend (sound : t.Sound) (known : id < t.datasets.length) (file : String)
    (extent : Nat) :
    t.apply file (.extend (t.dataset id).path extent) =
      (t.dataset id).extend extent >>= fun d => .ok (t.updateDataset id d) := by
  simp only [Tree.apply, sound.openDataset known, bind, Except.bind, pure, Except.pure]

end Tree

/-! ## Containers

The log takes a record in both, or in neither, since the files differ in nothing that an append
looks at. -/

/-- Two open containers over files of one name, reached from two others, that differ in data
only. -/
structure Mounted.Abreast (m₀ n₀ m n : Mounted) : Prop where
  trees : Tree.Abreast m₀.container.tree n₀.container.tree m.container.tree n.container.tree
  isOpen : ∃ w, m.container.writer = some w
  kept : m.names = m₀.names
  names : n.names = m.names

/-- Either container may take a tree, if these are abreast. -/
theorem Mounted.Abreast.setTree {m₀ n₀ m n : Mounted} (h : Mounted.Abreast m₀ n₀ m n) {t u : Tree}
    (trees : Tree.Abreast m₀.container.tree n₀.container.tree t u) :
    Mounted.Abreast m₀ n₀ { m with container := { m.container with tree := t } }
      { n with container := { n.container with tree := u } } :=
  ⟨trees, h.isOpen, h.kept, h.names⟩

theorem Mounted.Abreast.file {m₀ n₀ m n : Mounted} (h : Mounted.Abreast m₀ n₀ m n) :
    n.container.file = m.container.file := congrArg Prod.fst h.names

theorem Mounted.Abreast.writers {m₀ n₀ m n : Mounted} (h : Mounted.Abreast m₀ n₀ m n) :
    ∃ v w, m.container.writer = some v ∧ n.container.writer = some w ∧ w.file = v.file := by
  obtain ⟨v, isOpen⟩ := h.isOpen
  have names : n.container.writer.map (·.file) = m.container.writer.map (·.file) :=
    congrArg Prod.snd h.names
  rw [isOpen] at names
  obtain ⟨w, isOpen', file⟩ := Option.map_eq_some_iff.1 names
  exact ⟨v, w, isOpen, isOpen', file⟩

namespace Container

variable {m₀ n₀ m n : Mounted} {id : DatasetId}

/-- The log of one container takes the records that the other one's takes. -/
theorem together_append (h : Mounted.Abreast m₀ n₀ m n) (r : Record) :
    Together (Mounted.Abreast m₀ n₀) (append r) (append r) m n := by
  refine together_append_of h h.isOpen h.names r fun m' n' left right isOpen kept kept' => ?_
  refine ⟨?_, isOpen, kept.trans h.kept, (kept'.trans h.names).trans kept.symm⟩
  rw [left, right]
  exact h.trees

/-- Writing to one container is like writing to the other one. -/
theorem together_write (h : Mounted.Abreast m₀ n₀ m n)
    (known : id < m.container.tree.datasets.length) (operation : String) (s : Selection)
    (values : List Datum) :
    Together (Mounted.Abreast m₀ n₀) (write id operation s values) (write id operation s values)
      m n := by
  have each := h.trees.each id
  have sound := h.trees.left.each (Tree.getElem?_of_lt known)
  have sound' := h.trees.right.each (Tree.getElem?_of_lt (h.trees.known known))
  have blank : (m.container.dataset id).blank = (n.container.dataset id).blank := each.blank
  unfold write
  refine .get ?_
  have bare := Dataset.bare_eq_of_blank blank
  simp only [Dataset.checkSelection_eq_of_bare bare, Dataset.payload_eq_of_bare bare h.file,
    Dataset.path_eq_of_bare bare]
  refine .check h fun _ _ => .check h fun bytes _ => ?_
  rcases each.write sound.toChunked sound'.toChunked operation s values with
    ⟨d', e', written, written', abreast⟩ | ⟨err, refused, refused'⟩
  · have path := (Dataset.alike_of_write written).1.path
    have trees := h.trees.updateDataset known path (sound.write written) (sound'.write written')
      abreast
    rw [show (m.container.dataset id).write operation s values = _ from written,
      show (n.container.dataset id).write operation s values = _ from written']
    show Together _ (setTree _ >>= fun _ => append _) (setTree _ >>= fun _ => append _) m n
    exact .bind (together_modify (h.setTree trees)) fun _ m' n' h' => together_append h' _
  · rw [show (m.container.dataset id).write operation s values = _ from refused,
      show (n.container.dataset id).write operation s values = _ from refused']
    exact together_throw h

/-- Growing a dataset of one container is like growing it in the other one. -/
theorem together_extend (h : Mounted.Abreast m₀ n₀ m n)
    (known : id < m.container.tree.datasets.length) (extent : Nat) :
    Together (Mounted.Abreast m₀ n₀) (extend id extent) (extend id extent) m n := by
  have each := h.trees.each id
  have sound := h.trees.left.each (Tree.getElem?_of_lt known)
  have sound' := h.trees.right.each (Tree.getElem?_of_lt (h.trees.known known))
  have blank : (m.container.dataset id).blank = (n.container.dataset id).blank := each.blank
  have applied : m.container.tree.apply m.container.file
      (.extend (n.container.dataset id).path extent) = _ :=
    Dataset.path_eq_of_blank blank ▸ h.trees.left.apply_extend known m.container.file extent
  have applied' : n.container.tree.apply n.container.file
      (.extend (n.container.dataset id).path extent) = _ :=
    h.trees.right.apply_extend (h.trees.known known) n.container.file extent
  obtain ⟨v, w, isOpen, isOpen', -⟩ := h.writers
  have closed : m.container.isClosed = false := by simp [isClosed, isOpen]
  have closed' : n.container.isClosed = false := by simp [isClosed, isOpen']
  unfold extend
  refine .get ?_
  simp only [Dataset.extensible_eq_of_blank blank, Dataset.path_eq_of_blank blank]
  refine .ite (fun _ => ?_) fun _ => .error rfl rfl h
  unfold commit
  refine .get ?_
  simp only [closed, closed', Bool.false_eq_true, if_false, applied, applied']
  rcases each.extend extent with ⟨d', e', grown, grown', abreast⟩ | ⟨err, refused, refused'⟩
  · have path : d'.path = (m.container.tree.dataset id).path := by
      obtain ⟨_, _, _, _, _, rfl⟩ := Dataset.extend_eq_ok grown
      rfl
    have trees := h.trees.updateDataset known path (sound.extend grown) (sound'.extend grown')
      abreast
    rw [grown, grown']
    show Together _ (setTree _ >>= fun _ => append _) (setTree _ >>= fun _ => append _) m n
    exact .bind (together_modify (h.setTree trees)) fun _ m' n' h' => together_append h' _
  · rw [refused, refused']
    exact together_throw h

end Container
end StudyArchive
