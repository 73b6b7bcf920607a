import StudyArchive.Evaluation.Parameters
import StudyArchive.Proofs.Archive.Sound
import StudyArchive.Proofs.Evaluation.Parts
/-
# Making the datasets of producers

Whatever is made for producers, their datasets, scales, tables of parameters and links, a dataset
that holds a part of evaluations keeps its data, and so does a scale; and a new part has no rows
(`Archive.Built`).  That is so after each record that is taken on the way (`Archive.Raised`).
-/

namespace StudyArchive

open Dataset (Alike SameRows)

/-- A dataset that was made for a part. -/
structure EvaluationPart.Fits (part : EvaluationPart) (d : Dataset) : Prop where
  extensible : d.extensible = true
  type : d.type = .scalar part.element
  fill : d.fill = part.fill
  column : part = .ids → d.dims.tail = []

theorem EvaluationPart.Fits.alike {part : EvaluationPart} {d d' : Dataset} (h : part.Fits d)
    (same : Alike d d') : part.Fits d' :=
  ⟨same.extensible.trans h.extensible, same.type.trans h.type, same.fill.trans h.fill,
    fun ids => same.tail.trans (h.column ids)⟩

/-- A tree with nothing in a part's place but a dataset made for it, and with links only where
sources are declared. -/
structure Tree.IsLaidOut (t : Tree) : Prop where
  links : ∀ path target, t.nodes.get? path = some (.link target) → IsLinkPlace path
  parts : ∀ root, IsProducerRoot root → ∀ (part : EvaluationPart) node,
    t.nodes.get? (part.path root) = some node →
      ∃ d, t.at? (part.path root) = some d ∧ part.Fits d

namespace Archive

variable {a a' a'' : Archive} {owner : Option Path} {path root : Path} {part : EvaluationPart}
  {id : DatasetId} {d d' : Dataset} {α β : Type}

/-- An archive with nothing in a part's place but a dataset made for it, and with links only where
sources are declared. -/
structure LaidOut (a : Archive) : Prop where
  sound : a.Sound
  links : ∀ path target, a.tree.nodes.get? path = some (.link target) → IsLinkPlace path
  parts : ∀ root, IsProducerRoot root → ∀ (part : EvaluationPart) node,
    a.tree.nodes.get? (part.path root) = some node →
      ∃ d, a.at? (part.path root) = some d ∧ part.Fits d

theorem LaidOut.tree (laid : a.LaidOut) : a.tree.IsLaidOut := ⟨laid.links, laid.parts⟩

theorem laidOut_of_tree (sound : a.Sound) (tree : a.tree.IsLaidOut) : a.LaidOut :=
  ⟨sound, tree.links, tree.parts⟩

theorem LaidOut.fits (laid : a.LaidOut) (hr : IsProducerRoot root)
    (found : a.at? (part.path root) = some d) : part.Fits d := by
  obtain ⟨id, node, -⟩ := Tree.at?_eq_some.1 found
  obtain ⟨d', found', fits⟩ := laid.parts root hr part _ node
  rw [found] at found'
  cases found'
  exact fits

/-- Away from the links, what an operation on a path finds lies at the path itself. -/
theorem LaidOut.node_of_lookup (laid : a.LaidOut) (direct : ¬IsLinkPlace path)
    {operation : String} (h : a.lookup path operation = .ok id) :
    a.tree.nodes.get? path = some (.dataset id) := by
  unfold lookup at h
  split at h
  · next id' kept =>
    cases h
    exact laid.sound.handles path _ kept
  · unfold Tree.openDataset at h
    cases node : a.tree.nodes.get? path with
    | none =>
      have resolved : a.tree.resolveNode? path = none := by
        show a.tree.followNode (15 + 1) path = _
        rw [Tree.followNode, node]
      rw [resolved] at h
      cases h
    | some node' =>
      have found := Tree.resolveNode?_of_get? node fun target link =>
        direct (laid.links path target (link ▸ node))
      rw [found] at h
      cases node' with
      | dataset id' =>
        cases h
        rfl
      | _ => cases h

/-! ## Building

What was built on what was there: every old part has its data, and a new one no rows. -/

/-- An archive in which more was made: parts and scales keep their data, and only those below one
producer's group may be new; new parts have no rows. -/
structure Built (owner : Option Path) (a a' : Archive) : Prop where
  laidOut : a'.LaidOut
  kept : ∀ {root}, IsProducerRoot root → ∀ {part : EvaluationPart} {d},
    a.at? (part.path root) = some d → ∃ d', a'.at? (part.path root) = some d' ∧ SameRows d d'
  made : ∀ {root}, IsProducerRoot root → ∀ {part : EvaluationPart} {d'},
    a'.at? (part.path root) = some d' →
      (∃ d, a.at? (part.path root) = some d) ∨ owner = some root ∧ d'.rows = 0
  scales : ∀ {root}, IsProducerRoot root → ∀ {q}, IsScalePlace root q → ∀ {d},
    a.at? q = some d → ∃ d', a'.at? q = some d' ∧ SameRows d d'
  fresh : ∀ {root}, IsProducerRoot root → ∀ {q}, IsScalePlace root q →
    a.tree.nodes.get? q = none → a'.tree.nodes.get? q = none ∨ owner = some root

theorem LaidOut.built_self (laid : a.LaidOut) : Built owner a a where
  laidOut := laid
  kept _ _ d found := ⟨d, found, .refl d⟩
  made _ _ d found := .inl ⟨d, found⟩
  scales _ _ _ d found := ⟨d, found, .refl d⟩
  fresh _ _ _ absent := .inl absent

theorem Built.trans (h : Built owner a a') (h' : Built owner a' a'') : Built owner a a'' where
  laidOut := h'.laidOut
  kept hr _ _ found := by
    obtain ⟨d', found', same⟩ := h.kept hr found
    obtain ⟨d'', found'', same'⟩ := h'.kept hr found'
    exact ⟨d'', found'', same.trans same'⟩
  made hr _ d'' found := by
    rcases h'.made hr found with ⟨d', found'⟩ | new
    · rcases h.made hr found' with old | ⟨eq, empty⟩
      · exact .inl old
      · obtain ⟨d₂, found₂, same⟩ := h'.kept hr found'
        rw [found] at found₂
        cases found₂
        refine .inr ⟨eq, ?_⟩
        rw [Dataset.rows, same.dims]
        exact empty
    · exact .inr new
  scales hr _ place _ found := by
    obtain ⟨d', found', same⟩ := h.scales hr place found
    obtain ⟨d'', found'', same'⟩ := h'.scales hr place found'
    exact ⟨d'', found'', same.trans same'⟩
  fresh hr _ place absent := (h.fresh hr place absent).elim (h'.fresh hr place) .inr

/-- No data of a part changes with a dataset that lies apart; if it is a scale, it must be new. -/
theorem Built.turned (h : Built owner a a') (apart : Apart path)
    (node : a'.tree.nodes.get? path = some (.dataset id)) (turned : Turned a' path d' a'')
    (new : ∀ root, IsProducerRoot root → IsScalePlace root path → a.at? path = none) :
    Built owner a a'' where
  laidOut := by
    refine ⟨turned.sound, fun q target link => h.laidOut.links q target (turned.nodes ▸ link),
      fun root hr part node' there => ?_⟩
    rw [turned.there (apart.ne hr part)]
    exact h.laidOut.parts root hr part node' (turned.nodes ▸ there)
  kept {root} hr part d found := by
    obtain ⟨d₁, found₁, same⟩ := h.kept hr found
    exact ⟨d₁, (turned.there (apart.ne hr part)).trans found₁, same⟩
  made {root} hr part d₁ found := by
    rw [turned.there (apart.ne hr part)] at found
    exact h.made hr found
  scales {root} hr q place d found := by
    obtain ⟨d₁, found₁, same⟩ := h.scales hr place found
    have ne : q ≠ path := by
      rintro rfl
      rw [new root hr place] at found
      cases found
    exact ⟨d₁, (turned.there ne).trans found₁, same⟩
  fresh hr _ place absent := (h.fresh hr place absent).imp_left (turned.nodes ▸ ·)

theorem LaidOut.built_of_relabelled (laid : a.LaidOut) {m : Mounted}
    (h : Container.Relabelled a.mounted m) : Built owner a { a with mounted := m } := by
  have old {q : Path} {d' : Dataset} (found : Archive.at? { a with mounted := m } q = some d') :
      ∃ d, a.at? q = some d := by
    obtain ⟨id, node, -⟩ := Tree.at?_eq_some.1 found
    have node : a.tree.nodes.get? q = some (.dataset id) :=
      (congrArg (SortedMap.get? · q) h.nodes).symm.trans node
    obtain ⟨d, found', -⟩ := laid.sound.ready.sound.named node
    exact ⟨d, (Tree.at?_of_node node).trans found'⟩
  refine ⟨⟨⟨h.ready, fun q id kept => ?_⟩, fun q target node => laid.links q target ?_,
    fun root hr part node there => ?_⟩, fun {_} _ _ _ found => h.at_ _ _ found,
    fun {_} _ _ _ found => .inl (old found), fun {_} _ _ _ _ found => h.at_ _ _ found,
    fun {_} _ q _ absent => .inl ((congrArg (SortedMap.get? · q) h.nodes).trans absent)⟩
  · exact (congrArg (SortedMap.get? · q) h.nodes).trans (laid.sound.handles q id kept)
  · exact (congrArg (SortedMap.get? · q) h.nodes).symm.trans node
  · obtain ⟨d, found, fits⟩ := laid.parts root hr part node
      ((congrArg (SortedMap.get? · (part.path root)) h.nodes).symm.trans there)
    obtain ⟨d', found', same⟩ := h.at_ _ _ found
    exact ⟨d', found', fits.alike same.alike⟩

/-- The place of a part is not made a group on the way to a clear place. -/
theorem at_of_planted (clear : Clear path) {m : Mounted}
    (planted : Tree.Planted a.tree path m.container.tree) (hr : IsProducerRoot root)
    {part : EvaluationPart} (apart : part.path root ≠ path) :
    m.container.tree.nodes.get? (part.path root) = a.tree.nodes.get? (part.path root) := by
  rcases planted.nodes _ apart with same | ⟨-, -, above⟩
  · exact same
  · exact absurd (clear root hr part (above.trans (List.dropLast_prefix _))) apart

/-- A new dataset at a clear place: if it is a part, it is one of the owner's. -/
theorem LaidOut.built_of_made (laid : a.LaidOut) (clear : Clear d.path) {m : Mounted}
    (made : Container.Made a.mounted d m)
    (new : ∀ root, IsProducerRoot root → ∀ part : EvaluationPart, part.path root = d.path →
      owner = some root ∧ part.Fits d ∧ d.rows = 0)
    (scale : ∀ root, IsProducerRoot root → IsScalePlace root d.path → owner = some root) :
    Built owner a { a with mounted := m } := by
  have here : m.container.tree.at? d.path = some d := by rw [made.at_, if_pos rfl]
  have there {q : Path} (apart : q ≠ d.path) : m.container.tree.at? q = a.at? q := by
    rw [made.at_, if_neg apart]
    rfl
  have kept {q : Path} {d₁ : Dataset} (found : a.at? q = some d₁) :
      ∃ d', m.container.tree.at? q = some d' ∧ SameRows d₁ d' := by
    refine ⟨d₁, (there ?_).trans found, .refl d₁⟩
    rintro rfl
    obtain ⟨id, node, -⟩ := Tree.at?_eq_some.1 found
    cases made.planted.absent.symm.trans node
  refine ⟨⟨⟨made.ready, fun q id kept => ?_⟩, fun q target node => ?_,
    fun root hr part node found => ?_⟩, fun {root} hr part d₁ found => kept found,
    fun {root} hr part d₁ found => ?_, fun {root} hr q place d₁ found => kept found,
    fun {root} hr q place absent => ?_⟩
  · exact made.planted.kept (laid.sound.handles q id kept)
  · by_cases same : q = d.path
    · obtain ⟨id, dataset, -⟩ := Tree.at?_eq_some.1 here
      rw [same] at node
      cases dataset.symm.trans node
    · rcases made.planted.nodes q same with kept | ⟨-, group, -⟩
      · exact laid.links q target (kept.symm.trans node)
      · cases group.symm.trans node
  · by_cases same : part.path root = d.path
    · rw [same]
      exact ⟨d, here, (new root hr part same).2.1⟩
    · obtain ⟨d₁, found₁, fits⟩ := laid.parts root hr part node
        ((at_of_planted clear made.planted hr same).symm.trans found)
      exact ⟨d₁, (there same).trans found₁, fits⟩
  · by_cases same : part.path root = d.path
    · obtain ⟨eq, -, empty⟩ := new root hr part same
      have found : m.container.tree.at? (part.path root) = some d₁ := found
      rw [same, here] at found
      cases found
      exact .inr ⟨eq, empty⟩
    · exact .inl ⟨d₁, (there same).symm.trans found⟩
  · by_cases same : q = d.path
    · exact .inr (scale root hr (same ▸ place))
    · rcases made.planted.nodes q same with kept | ⟨-, -, above⟩
      · exact .inl (kept.trans absent)
      · exact .inr (scale root hr (place.of_isPrefix (above.trans (List.dropLast_prefix _))))

theorem LaidOut.built_of_linked (laid : a.LaidOut) (apart : Apart path) (link : IsLinkPlace path)
    {m : Mounted} (ready : m.Ready) (planted : Tree.Planted a.tree path m.container.tree)
    (at_ : ∀ q, m.container.tree.at? q = a.at? q) : Built owner a { a with mounted := m } := by
  refine ⟨⟨⟨ready, fun q id kept => planted.kept (laid.sound.handles q id kept)⟩,
    fun q target node => ?_, fun root hr part node found => ?_⟩,
    fun {_} _ _ d found => ⟨d, (at_ _).trans found, .refl d⟩,
    fun {_} _ _ d found => .inl ⟨d, (at_ _).symm.trans found⟩,
    fun {_} _ _ _ d found => ⟨d, (at_ _).trans found, .refl d⟩,
    fun {root} hr q place absent => .inl ?_⟩
  · by_cases same : q = path
    · exact same ▸ link
    · rcases planted.nodes q same with kept | ⟨-, group, -⟩
      · exact laid.links q target (kept.symm.trans node)
      · cases group.symm.trans node
  · obtain ⟨d, found, fits⟩ := laid.parts root hr part node
      ((at_of_planted apart.clear planted hr (apart.ne hr part)).symm.trans found)
    exact ⟨d, (at_ _).trans found, fits⟩
  · have same : q ≠ path := fun same => place.not_isLinkPlace (same ▸ link)
    rcases planted.nodes q same with kept | ⟨-, -, above⟩
    · exact kept.trans absent
    · -- A link does not lie below the place of a scale.
      exact absurd link
        (place.of_isPrefix (above.trans (List.dropLast_prefix _))).not_isLinkPlace

/-- To remember where a dataset is changes nothing that is stored. -/
theorem Built.remembered (h : Built owner a a') {id : DatasetId}
    (node : a'.tree.nodes.get? path = some (.dataset id)) :
    Built owner a { a' with handles := a'.handles.insert path id } where
  laidOut := by
    refine ⟨⟨h.laidOut.sound.ready, fun q id' kept => ?_⟩, h.laidOut.links, h.laidOut.parts⟩
    rcases Table.eq_or_get?_of_insert kept with ⟨rfl, rfl⟩ | old
    · exact node
    · exact h.laidOut.sound.handles q id' old
  kept := h.kept
  made := h.made
  scales := h.scales
  fresh := h.fresh

/-! ## Record by record

The same after each record on the way, which is what a cut of the log leaves. -/

/-- A way on which more was made with each record. -/
def Raised (owner : Option Path) (a : Archive) : Archive → Prop := Passes (Built owner a) a

theorem raised_self : Raised owner a a := .refl

theorem Raised.built (h : Raised owner a a') (laid : a.LaidOut) : Built owner a a' :=
  h.last laid.built_self

theorem Raised.trans (h : Raised owner a a') (laid : a.LaidOut) (h' : Raised owner a' a'') :
    Raised owner a a'' :=
  Passes.trans h (h'.mono fun _ => (h.built laid).trans)

/-- A way on which the datasets of a producer were made, the column of identifiers first. -/
def Founded (root : Path) (a : Archive) : Archive → Prop :=
  Passes (fun b => Built (some root) a b ∧ ∃ d, b.at? (EvaluationPart.ids.path root) = some d) a

theorem Founded.raised (h : Founded root a a') : Raised (some root) a a' := h.mono fun _ => And.left

/-- Each change of an archive that is laid out is one record, unless it has no frame. -/
theorem LaidOut.ends_run (laid : a.LaidOut) {μ : Mutation} (proper : μ.isProper a.tree) :
    Ends μ.run a.mounted (fun _ => Container.Recorded a.mounted)
      (fun e m => m = a.mounted ∨ e.isUnencodable) := by
  obtain ⟨w, isOpen⟩ := laid.sound.ready.isOpen
  exact Mutation.ends_run laid.sound.ready.sound isOpen proper

/-- A change of the container by which something is made. -/
theorem Raised.ends_onContainer {b : Archive} (h : Raised owner a b) {act : Container.Action α}
    {P : Mounted → Prop} (built : ∀ m, P m → Built owner a { b with mounted := m })
    (makes : Ends act b.mounted (fun _ => P) (fun _ m => m = b.mounted ∨ P m))
    (recorded : Ends act b.mounted (fun _ => Container.Recorded b.mounted)
      (fun e m => m = b.mounted ∨ e.isUnencodable)) :
    Ends (onContainer act) b (fun _ => Raised owner a)
      (fun e b' => Raised owner a b' ∨ e.isUnencodable ∧ Built owner a b') := by
  refine Archive.ends_onContainer.2 ((makes.and recorded).mono ?_ ?_)
  · exact fun _ m ⟨there, record⟩ => .step h record (built m there)
  · rintro e m ⟨there, rfl | unencodable⟩
    · exact .inl h
    · rcases there with rfl | there
      · exact .inl h
      · exact .inr ⟨unencodable, built m there⟩

end Archive
end StudyArchive
