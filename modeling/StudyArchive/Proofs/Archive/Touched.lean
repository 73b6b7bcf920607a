import StudyArchive.Proofs.Archive.Targets
/-
# What was touched

Whoever looks for datasets by their own paths, and for the scales on their axes, sees of a step of
an archive which places it touched: at every other place the same dataset lies, with the same cells
and the same scales, whatever is said of it besides; and no link is new (`Tree.TouchedAt`).  Making
a dataset touches its place, and attaching a scale that of the dataset it is attached to, by
whatever path the scale was asked for (`Archive.ends_attachScale_touched`).
-/

namespace StudyArchive

/-- Two states of one dataset that differ in what is said of it, if at all. -/
structure Dataset.Redescribed (d d' : Dataset) : Prop extends SameCells d d' where
  type : d'.type = d.type
  scales : d'.scales = d.scales

namespace Dataset.Redescribed

variable {d d' d'' : Dataset}

theorem refl (d : Dataset) : Redescribed d d := ⟨.refl d, rfl, rfl⟩

theorem trans (h : Redescribed d d') (h' : Redescribed d' d'') : Redescribed d d'' :=
  ⟨h.toSameCells.trans h'.toSameCells, h'.type.trans h.type, h'.scales.trans h.scales⟩

theorem sameData (h : Redescribed d d') : SameData d d' := ⟨h.toSameCells, h.type⟩

theorem scalesAt (h : Redescribed d d') (axis : Nat) : d'.scalesAt axis = d.scalesAt axis :=
  congrArg (·[axis]?.getD []) h.scales

end Dataset.Redescribed

namespace Tree

variable {t t' t'' : Tree} {S T : Path → Prop} {p q path : Path} {id : DatasetId} {d d' : Dataset}

/-- A tree in which only some places may have got another dataset, and nothing a new link. -/
structure TouchedAt (S : Path → Prop) (t t' : Tree) : Prop where
  links : ∀ q target, t'.nodes.get? q = some (.link target) → t.nodes.get? q = some (.link target)
  absent : ∀ q, ¬S q → t.at? q = none → t'.at? q = none
  kept : ∀ q d, ¬S q → t.at? q = some d → ∃ d', t'.at? q = some d' ∧ d.Redescribed d'

namespace TouchedAt

theorem refl (S : Path → Prop) (t : Tree) : TouchedAt S t t :=
  ⟨fun _ _ link => link, fun _ _ none => none, fun _ d _ found => ⟨d, found, .refl d⟩⟩

theorem trans (h : TouchedAt S t t') (h' : TouchedAt S t' t'') : TouchedAt S t t'' where
  links q target link := h.links q target (h'.links q target link)
  absent q other none := h'.absent q other (h.absent q other none)
  kept q d other found := by
    obtain ⟨d', found', same⟩ := h.kept q d other found
    obtain ⟨d'', found'', same'⟩ := h'.kept q d' other found'
    exact ⟨d'', found'', same.trans same'⟩

theorem mono (h : TouchedAt S t t') (more : ∀ q, S q → T q) : TouchedAt T t t' where
  links := h.links
  absent q other := h.absent q fun place => other (more q place)
  kept q d other := h.kept q d fun place => other (more q place)

/-- A dataset at a place that was not touched lay there before. -/
theorem back (h : TouchedAt S t t') (other : ¬S q) (found : t'.at? q = some d') :
    ∃ d, t.at? q = some d ∧ d.Redescribed d' := by
  cases there : t.at? q with
  | none =>
    rw [h.absent q other there] at found
    cases found
  | some d =>
    obtain ⟨d₁, found₁, same⟩ := h.kept q d other there
    cases found₁.symm.trans found
    exact ⟨d, rfl, same⟩

end TouchedAt

theorem touched_of_at?
    (links : ∀ q target, t'.nodes.get? q = some (.link target) →
      t.nodes.get? q = some (.link target))
    (same : ∀ q, ¬S q → t'.at? q = t.at? q) : TouchedAt S t t' where
  links := links
  absent q other none := (same q other).trans none
  kept q d other found := ⟨d, (same q other).trans found, .refl d⟩

theorem Turned.touched (h : Turned t path d' t') : TouchedAt (· = path) t t' :=
  touched_of_at? (fun _ _ link => h.nodes ▸ link) fun _ => h.there

/-- Where only what is said of a dataset changed, nothing was touched. -/
theorem Turned.touched_none (h : Turned t path d' t') (found : t.at? path = some d)
    (same : d.Redescribed d') (S : Path → Prop) : TouchedAt S t t' where
  links _ _ link := h.nodes ▸ link
  absent q _ none := by
    have other : q ≠ path := by
      rintro rfl
      cases none.symm.trans found
    exact (h.there other).trans none
  kept q e _ there := by
    by_cases here : q = path
    · subst here
      cases found.symm.trans there
      exact ⟨d', h.here, same⟩
    · exact ⟨e, (h.there here).trans there, .refl e⟩

/-- Groups that come, or are described, where no dataset lies touch nothing. -/
theorem touched_of_groups (datasets : t'.datasets = t.datasets)
    (nodes : ∀ q, t'.nodes.get? q = t.nodes.get? q ∨ t.at? q = none ∧ t'.IsGroup q)
    (S : Path → Prop) : TouchedAt S t t' := by
  refine touched_of_at? (fun q target link => ?_) fun q _ => ?_
  · rcases nodes q with same | ⟨-, _, group⟩
    · exact same ▸ link
    · cases link.symm.trans group
  · unfold at?
    rcases nodes q with same | ⟨none, _, group⟩
    · rw [same, datasets]
    · rw [group]
      exact none.symm

theorem Grown.touched {goal : List String} (h : Grown goal t t') (S : Path → Prop) :
    TouchedAt S t t' :=
  touched_of_groups h.datasets (fun q => (h.nodes q).imp id fun new =>
    ⟨at?_of_absent new.1, _, new.2.1⟩) S

theorem Sound.touched_of_setAttribute (sound : t.Sound) {name : String} {value : AttrValue}
    (h : t.setAttribute path name value = .ok t') (S : Path → Prop) : TouchedAt S t t' := by
  rcases setAttribute_eq_ok h with ⟨attributes, node, rfl⟩ | ⟨id, node, rfl⟩
  · have datasets : (t.putNode path (.group (attributes.insert name value))).datasets =
        t.datasets := rfl
    refine touched_of_groups datasets (fun q => ?_) S
    by_cases here : path = q
    · subst here
      refine .inr ⟨?_, _, (get?_putNode ..).trans (if_pos rfl)⟩
      unfold at?
      rw [node]
    · exact .inl ((get?_putNode ..).trans (if_neg here))
  · obtain ⟨d, there, named⟩ := sound.named node
    have turned : Turned t path { d with attributes := d.attributes.insert name value } _ :=
      sound.turned_updateDataset node named ((sound.each there).setAttributes _)
    rw [dataset_of_getElem? there]
    exact turned.touched_none ((at?_of_node node).trans there)
      ⟨⟨rfl, rfl, fun _ => rfl⟩, rfl, rfl⟩ S

/-! ## Places without links

If nothing at or above a place is a link, then what the place denotes lies there itself, and a
dataset that was made under it lies there too. -/

/-- A tree in which no link lies at a path or leads there. -/
def Unlinked (t : Tree) (p : Path) : Prop :=
  ∀ q target, t.nodes.get? q = some (.link target) → q ≠ p ∧ target ≠ p

instance (t : Tree) (p : Path) : Decidable (t.Unlinked p) :=
  decidable_of_iff (t.nodes.entries.all fun e => match e.2 with
    | .link target => e.1 ≠ p ∧ target ≠ p
    | _ => true) <| by
      simp only [List.all_eq_true, Unlinked]
      refine ⟨fun each q target link => ?_, fun free e mem => ?_⟩
      · simpa using each _ (SortedMap.mem_entries_iff.2 link)
      · obtain ⟨q, node⟩ := e
        cases node with
        | link target => simpa using free q target (SortedMap.mem_entries_iff.1 mem)
        | group _ => rfl
        | dataset _ => rfl

theorem TouchedAt.unlinked (h : TouchedAt S t t') (free : t.Unlinked p) : t'.Unlinked p :=
  fun q target link => free q target (h.links q target link)

/-- Nothing else than the path itself leads to a place without links. -/
theorem Unlinked.eq_of_follow (free : t.Unlinked p) {steps : Nat} {node : Node}
    (leads : t.follow steps q = some (p, node)) : q = p := by
  induction steps generalizing q with
  | zero => cases leads
  | succ steps ih =>
    rw [follow] at leads
    split at leads
    · cases leads
    · next target link => exact absurd (ih leads) (free q target link).2
    · cases leads
      rfl

/-- A dataset at a place without links is denoted by its own path only. -/
theorem Unlinked.eq_of_denoted? (free : t.Unlinked p) (sound : t.Sound)
    (denotes : t.denoted? q = some id) (there : t.datasets[id]? = some d) (here : d.path = p) :
    q = p := by
  unfold denoted? resolve? at denotes
  split at denotes
  · next own id' leads =>
    cases denotes
    obtain ⟨d', there', named⟩ := sound.named (get?_of_follow leads).1
    cases there.symm.trans there'
    rw [← named, here] at leads
    exact free.eq_of_follow leads
  · cases denotes

end Tree

theorem Container.Made.touched {m m' : Mounted} {d : Dataset} (h : Made m d m') :
    Tree.TouchedAt (· = d.path) m.container.tree m'.container.tree := by
  refine Tree.touched_of_at? (fun q target link => ?_) fun q other => ?_
  · by_cases here : q = d.path
    · subst here
      obtain ⟨id, node, -⟩ := Tree.at?_eq_some.1 ((h.at_ d.path).trans (if_pos rfl))
      cases link.symm.trans node
    · rcases h.planted.nodes q here with same | ⟨-, group, -⟩
      · exact same ▸ link
      · cases link.symm.trans group
  · exact (h.at_ q).trans (if_neg other)

namespace Archive

variable {a a' a'' : Archive} {S : Path → Prop} {path dataset scale : Path} {d : Dataset}

/-- An archive in use after a step that touched some places at most. -/
structure TouchedAt (S : Path → Prop) (a a' : Archive) : Prop where
  coherent : a'.Coherent
  tree : Tree.TouchedAt S a.tree a'.tree

theorem Coherent.touched (coherent : a.Coherent) : TouchedAt S a a := ⟨coherent, .refl _ _⟩

theorem TouchedAt.trans (h : TouchedAt S a a') (h' : TouchedAt S a' a'') : TouchedAt S a a'' :=
  ⟨h'.coherent, h.tree.trans h'.tree⟩

/-- After a step that is confined the archive is in use, besides what else is known. -/
theorem Confined.ends_coherent {α : Type} {act : Action α} (confined : Confined S act)
    (coherent : a.Coherent) {good : α → Archive → Prop} (h : Ends act a good fun _ _ => True) :
    Ends act a (fun v a' => a'.Coherent ∧ good v a') fun _ _ => True :=
  ((confined a coherent).and h).mono (fun _ _ h => ⟨h.1.coherent, h.2⟩) fun _ _ _ => trivial

/-! ## Groups and attributes -/

/-- Changes that ask for a tree in which nothing was touched. -/
theorem ends_untouched (coherent : a.Coherent) {μ : Mutation} (aside : μ.isAside)
    (asked : ∀ t, μ.asked a.container = .ok t → Tree.TouchedAt S a.tree t) :
    Ends (onContainer μ.run) a (fun _ => TouchedAt S a) (fun _ => TouchedAt S a) :=
  (ends_asked coherent aside (.refl S _) asked).mono (fun _ _ h => ⟨h.1, h.2⟩)
    fun _ _ h => ⟨h.1, h.2⟩

theorem touches_createGroup : Preserves (TouchedAt S a) (createGroup path) := by
  intro b h
  refine (ends_untouched h.coherent (μ := .createGroup path) rfl ?_).mono (fun _ _ => h.trans)
    fun _ _ => h.trans
  exact fun _ asked => (Tree.grown_of_ensureGroup asked).touched S

theorem touches_setAttribute {name : String} {value : AttrValue} :
    Preserves (TouchedAt S a) (setAttribute path name value) := by
  intro b h
  refine (ends_untouched h.coherent (μ := .setAttribute path name value) rfl ?_).mono
    (fun _ _ => h.trans) fun _ _ => h.trans
  intro t asked
  simp only [Mutation.asked] at asked
  split at asked
  · exact h.coherent.ready.sound.touched_of_setAttribute asked S
  · cases asked

/-! ## Datasets -/

/-- A new dataset; where the step fails, it may be there all the same. -/
theorem ends_createDataset_or (coherent : a.Coherent) {type : DataType} {dims : List Nat}
    {extensible : Bool} {hint : Option Nat} {fill : Option Datum} :
    Ends (createDataset path type dims extensible hint fill) a
      (fun _ a' => a'.Coherent ∧ ∃ chunkRows, Container.Made a.mounted
        (.new path type dims extensible chunkRows (fill.getD (.zero type))) a'.mounted)
      (fun _ a' => a'.Coherent ∧ (a'.mounted = a.mounted ∨ ∃ chunkRows, Container.Made a.mounted
        (.new path type dims extensible chunkRows (fill.getD (.zero type))) a'.mounted)) := by
  have made : Ends (createDataset path type dims extensible hint fill) a
      (fun _ a' => ∃ chunkRows, Container.Made a.mounted
        (.new path type dims extensible chunkRows (fill.getD (.zero type))) a'.mounted)
      (fun _ a' => a'.mounted = a.mounted ∨ ∃ chunkRows, Container.Made a.mounted
        (.new path type dims extensible chunkRows (fill.getD (.zero type))) a'.mounted) := by
    unfold createDataset
    simp only [ends_bind, ends_get]
    generalize (if extensible = true then _ else _) = chunkRows
    refine ends_onContainer.2 ((Container.ends_createDataset coherent.ready ..).mono ?_ ?_)
    · rintro id m ⟨made, -⟩
      split
      · exact ends_modify.2 ⟨chunkRows, made⟩
      · exact ends_pure.2 ⟨chunkRows, made⟩
    · exact fun _ m => Or.imp_right fun made => ⟨chunkRows, made⟩
  exact ((confined_createDataset (S := fun _ => False) a coherent).and made).mono
    (fun _ _ h => ⟨h.1.coherent, h.2⟩) fun _ _ h => ⟨h.1.coherent, h.2⟩

theorem ends_createDataset_made (coherent : a.Coherent) {type : DataType} {dims : List Nat}
    {extensible : Bool} {hint : Option Nat} {fill : Option Datum} :
    Ends (createDataset path type dims extensible hint fill) a
      (fun _ a' => a'.Coherent ∧ ∃ chunkRows, Container.Made a.mounted
        (.new path type dims extensible chunkRows (fill.getD (.zero type))) a'.mounted)
      (fun _ _ => True) :=
  (ends_createDataset_or coherent).mono (fun _ _ made => made) fun _ _ _ => trivial

theorem ends_createDataset_closed (closed : a.container.writer = none) {type : DataType}
    {dims : List Nat} {extensible : Bool} {hint : Option Nat} {fill : Option Datum} :
    Ends (createDataset path type dims extensible hint fill) a (fun _ _ => False)
      (fun _ _ => True) := by
  unfold createDataset
  simp only [ends_bind, ends_get]
  refine ends_onContainer.2 ((Container.ends_createDataset_closed closed ..).mono ?_ ?_)
  · exact fun _ _ => False.elim
  · exact fun _ _ _ => trivial

/-! ## Scales

The axis belongs to the dataset at the end of the links, so it is that dataset's own place that is
touched. -/

/-- A tree in which a scale was attached to the dataset at a path.  It was attached under its own
path, whichever path it was asked for by, and the dataset may have become a scale itself before. -/
structure Attached (t : Tree) (dataset : Path) (d : Dataset) (scale : Path) (s : AttachedScale)
    (axis : Nat) (t' : Tree) : Prop where
  touched : Tree.TouchedAt (· = dataset) t t'
  own : ∃ id e, t.denoted? scale = some id ∧ t.datasets[id]? = some e ∧ e.path = s.scale
  here : ∃ d₁ d', d.Redescribed d₁ ∧ d₁.attachScale axis s = .ok d' ∧ t'.at? dataset = some d'

/-- Attaching a scale in a container in which the dataset and the scale are where they were in a
tree, whatever more is said of them. -/
theorem ends_attachScale_in {t : Tree} (sound : t.Sound) {m : Mounted} (ready : m.Ready)
    (nodes : m.container.tree.nodes = t.nodes)
    (touched : Tree.TouchedAt (fun _ => False) t m.container.tree) {id scaleId : DatasetId}
    (node : t.nodes.get? dataset = some (.dataset id)) (here : t.datasets[id]? = some d)
    (denotes : t.denoted? scale = some scaleId) (label : String) (axis : Nat) :
    Ends (Container.attachScale id scaleId label axis) m
      (fun _ m' => ∃ own, Attached t dataset d scale ⟨own, label⟩ axis m'.container.tree)
      (fun _ _ => True) := by
  have found := (Tree.at?_of_node node).trans here
  have here' := Tree.getElem?_of_lt (sound.lt_of_denoted? denotes)
  have node' := sound.placed here'
  obtain ⟨d₁, found₁, same⟩ := touched.kept dataset d not_false found
  obtain ⟨e₁, found₁', same'⟩ := touched.kept _ _ not_false ((Tree.at?_of_node node').trans here')
  have there := (Tree.at?_of_node (nodes ▸ node)).symm.trans found₁
  have there' := (Tree.at?_of_node (nodes ▸ node')).symm.trans found₁'
  refine (Container.ends_attachScale ready there there' label axis).mono ?_ fun _ _ _ => trivial
  rintro _ m' ⟨d', attaches, turned⟩
  rw [same.path.trans (sound.path_of_at? found)] at turned
  exact ⟨e₁.path, (touched.mono fun _ => False.elim).trans turned.tree.touched,
    ⟨scaleId, _, denotes, here', same'.path.symm⟩, d₁, d', same, attaches, turned.tree.here⟩

/-- Attaching a scale touches the dataset that it is attached to, and nothing else. -/
theorem ends_attachScale_touched (coherent : a.Coherent) (found : a.tree.at? dataset = some d)
    (label : String) (axis : Nat) :
    Ends (attachScale dataset scale label axis) a
      (fun _ a' => a'.Coherent ∧ ∃ own, Attached a.tree dataset d scale ⟨own, label⟩ axis a'.tree)
      (fun _ _ => True) := by
  obtain ⟨id, node, here⟩ := Tree.at?_eq_some.1 found
  have looked := coherent.lookup_eq_ok (Tree.denoted?_of_node node) "attach_scale"
  have sound := coherent.ready.sound
  have attached : Ends (attachScale dataset scale label axis) a
      (fun _ a' => ∃ own, Attached a.tree dataset d scale ⟨own, label⟩ axis a'.tree)
      (fun _ _ => True) := by
    unfold attachScale
    simp only [ends_bind, ends_get, looked, ends_liftExcept_ok]
    refine ends_liftExcept.2 ⟨fun scaleId looked' => ?_, fun _ _ => trivial⟩
    have denotes := coherent.denoted?_of_lookup looked'
    have here' := Tree.getElem?_of_lt (sound.lt_of_denoted? denotes)
    split
    · refine ends_bind.2 (ends_onContainer.2 ((Container.ends_markScale coherent.ready here'
        label).mono (fun _ m turned => ?_) fun _ _ _ => trivial))
      have touched := turned.tree.touched_none ((Tree.at?_of_node (sound.placed here')).trans here')
        ⟨(Dataset.sameData_markScale _ label).toSameCells, rfl, rfl⟩ fun _ => False
      exact ends_bind.2 (ends_onContainer.2 ((ends_attachScale_in sound turned.ready
        turned.tree.nodes touched node here denotes label axis).imp fun _ _ h => ends_pure.2 h))
    · exact ends_bind.2 (ends_onContainer.2 ((ends_attachScale_in sound coherent.ready rfl
        (.refl _ _) node here denotes label axis).imp fun _ _ h => ends_pure.2 h))
  exact (confined_attachScale (S := fun _ => False)).ends_coherent coherent attached

end Archive
end StudyArchive
