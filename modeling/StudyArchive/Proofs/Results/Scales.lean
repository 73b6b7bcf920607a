import StudyArchive.Proofs.Archive.Labels
import StudyArchive.Proofs.Results.Storing
/-
# Scales of results

A scale of a result is stored at a place that its label and its result name, or its execution, if
anything is to share it.  Where something lies at that place, nothing is stored, and a scale that is
on the axis is not attached again; so a scale may well name another one's data, and with success.
What it takes for a scale to be found with its own data is that it has its place for itself
(`DimScale.HasOwnPlace`): then it is found by its label when the request is done, and holds what the
request said (`Shelf.scales_hold_data`).
-/

namespace StudyArchive

open Archive Dataset

/-! ## Places

Scales lie below a name of their own, so none of them is in the place of a result. -/

theorem MethodRun.head?_resultPath (r : MethodRun) (location : List String) :
    (r.resultPath location).segments.head? = some "methods" := by
  have below {p : Path} (top : p.segments.head? = some "methods") (child : String) :
      (p.join child).segments.head? = some "methods" := by
    rw [Path.segments_join, List.head?_append, top]
    rfl
  have named : (Path.root.join "methods").segments.head? = some "methods" := by
    rw [Path.segments_join_of_isSegment _ (by decide)]
    rfl
  have top : r.path.segments.head? = some "methods" := below (below (below named _) _) _
  unfold resultPath
  generalize r.path = p at top
  induction location generalizing p with
  | nil => exact top
  | cons child location ih => exact ih _ (below top child)

theorem DimScale.head?_path (s : DimScale) (r : MethodRun) (result : Path) :
    (s.path r result).segments.head? = some Path.scalesName := by
  rw [path, Path.segments_join, Path.segments_scaleMirror]
  rfl

/-- Scales lie elsewhere than results. -/
theorem DimScale.path_ne (s : DimScale) (r : MethodRun) (result : Path) (location : List String) :
    s.path r result ≠ r.resultPath location := by
  intro same
  have top := s.head?_path r result
  rw [same, r.head?_resultPath] at top
  exact absurd top (by decide)

/-! ## A scale among the others

The scales of a result are put one after the other.  One of them may be in the way of a later one
only if they have a place in common. -/

/-- A place that no link has to do with, and at which there is no dataset or one that holds given
data. -/
structure Tree.Suits (t : Tree) (own : Path) (data : ScaleData) : Prop where
  unlinked : t.Unlinked own
  held : ∀ d, t.at? own = some d → data.HeldBy d

theorem Tree.Suits.touched {t t' : Tree} {S : Path → Prop} {own : Path} {data : ScaleData}
    (suits : t.Suits own data) (h : TouchedAt S t t') (other : ¬S own) : t'.Suits own data where
  unlinked := h.unlinked suits.unlinked
  held d' found := by
    obtain ⟨d, there, same⟩ := h.back other found
    exact (suits.held d there).redescribed same

/-- At a path that denotes a dataset lies a link or that dataset. -/
theorem Tree.node_of_denoted? {t : Tree} {own : Path} {id : DatasetId}
    (denotes : t.denoted? own = some id) :
    (∃ target, t.nodes.get? own = some (.link target)) ∨
      t.nodes.get? own = some (.dataset id) := by
  unfold denoted? resolve? at denotes
  split at denotes
  · next leads =>
    cases denotes
    rw [maxLinkDepth, follow] at leads
    split at leads
    · cases leads
    · next target link => exact .inl ⟨target, link⟩
    · next found =>
      cases leads
      exact .inr found
  · cases denotes

/-- The dataset that a path without links denotes lies there. -/
theorem Tree.Unlinked.node_of_denoted? {t : Tree} {own : Path} {id : DatasetId}
    (free : t.Unlinked own) (denotes : t.denoted? own = some id) :
    t.nodes.get? own = some (.dataset id) := by
  refine (Tree.node_of_denoted? denotes).resolve_left ?_
  rintro ⟨target, link⟩
  exact absurd rfl (free own target link).1

namespace DimScale

/-- Scales of one result that do not come into each other's way: if the second one goes to the
place of the first, it brings the same data there, and on the axis of the first it has the same
label just if it has the same place. -/
structure Agrees (r : MethodRun) (result : Path) (s o : DimScale) : Prop where
  data : o.path r result = s.path r result → o.data = s.data
  label : o.axis = s.axis → (o.path r result = s.path r result ↔ o.label = s.label)

theorem Agrees.self {r : MethodRun} {result : Path} {s : DimScale} : s.Agrees r result s :=
  ⟨fun _ => rfl, fun _ => iff_of_true rfl rfl⟩

theorem Agrees.of_apart {r : MethodRun} {result : Path} {s o : DimScale} (axis : o.axis ≠ s.axis)
    (place : o.path r result ≠ s.path r result) : s.Agrees r result o :=
  ⟨fun same => absurd same place, fun same => absurd same axis⟩

/-- A scale that has its place for itself in an archive and among the scales of its request. -/
structure HasOwnPlace (a : Archive) (r : MethodRun) (result : Path) (scales : List DimScale)
    (s : DimScale) : Prop where
  suits : a.tree.Suits (s.path r result) s.data
  agrees : ∀ o ∈ scales, s.Agrees r result o

end DimScale

namespace Shelf

variable {a a' : Archive} {r : MethodRun} {location : List String} {s o : DimScale} {path : Path}
  {S : Path → Prop}

/-- What is true of a scale from the time that its result is there: its place is free or holds its
data, and its label stands for it. -/
structure Along (r : MethodRun) (result : Path) (s : DimScale) (a : Archive) : Prop where
  coherent : a.Coherent
  suits : a.tree.Suits (s.path r result) s.data
  means : ∃ d, a.tree.at? result = some d ∧ d.Means s.axis s.label (s.path r result)

/-- A scale that is on its axis. -/
structure Done (r : MethodRun) (result : Path) (s : DimScale) (a : Archive) : Prop where
  bears : ∃ d, a.tree.at? result = some d ∧ d.Bears s.axis (s.path r result)
  there : ∃ e, a.tree.at? (s.path r result) = some e

theorem Along.touched {result : Path} (h : Along r result s a) (touched : TouchedAt S a a')
    (apart : ¬S result) (other : ¬S (s.path r result)) : Along r result s a' := by
  obtain ⟨d, found, means⟩ := h.means
  obtain ⟨d', found', same⟩ := touched.tree.kept result d apart found
  exact ⟨touched.coherent, h.suits.touched touched.tree other, d', found', means.redescribed same⟩

theorem Done.touched {result : Path} (h : Done r result s a) (touched : TouchedAt S a a')
    (apart : ¬S result) (other : ¬S (s.path r result)) : Done r result s a' := by
  obtain ⟨⟨d, found, bears⟩, e, there⟩ := h
  obtain ⟨d', found', same⟩ := touched.tree.kept result d apart found
  obtain ⟨e', there', -⟩ := touched.tree.kept _ e other there
  exact ⟨⟨d', found', bears.redescribed same⟩, e', there'⟩

/-- What is true along a step on the scales of a result: what was true before it, and a scale that
was on its axis is there still. -/
def Goes (r : MethodRun) (result : Path) (s : DimScale) (a a' : Archive) : Prop :=
  Along r result s a' ∧ (Done r result s a → Done r result s a')

theorem Goes.trans {a'' : Archive} {result : Path} (h : Goes r result s a a')
    (h' : Goes r result s a' a'') : Goes r result s a a'' :=
  ⟨h'.1, h'.2 ∘ h.2⟩

/-! ## One scale -/

section
variable {result : Path} (elsewhere : ∀ o : DimScale, o.path r result ≠ result)
  (h : Along r result s a) (agrees : s.Agrees r result o)

include elsewhere h agrees

/-- A scale that is stored in its own place leaves that of another one, or brings its data there. -/
theorem goes_of_stored (stored : Stored a (o.path r result) o.data.element o.data.dims
    o.data.cells a') : Goes r result s a a' := by
  have apart : result ≠ o.path r result := (elsewhere o).symm
  by_cases here : s.path r result = o.path r result
  · obtain ⟨e, found, held, -⟩ := stored.here
    obtain ⟨d, there, means⟩ := h.means
    obtain ⟨d', there', same⟩ := stored.tree.kept _ d apart there
    rw [agrees.data here.symm] at held
    rw [← here] at found
    have suits : a'.tree.Suits (s.path r result) s.data := by
      refine ⟨stored.tree.unlinked h.suits.unlinked, fun d₁ found₁ => ?_⟩
      cases found.symm.trans found₁
      exact held
    refine ⟨⟨stored.coherent, suits, d', there', means.redescribed same⟩, ?_⟩
    rintro ⟨⟨d₁, there₁, bears⟩, -⟩
    cases there.symm.trans there₁
    exact ⟨⟨d', there', bears.redescribed same⟩, e, found⟩
  · exact ⟨h.touched stored.toTouchedAt apart here, fun done =>
      done.touched stored.toTouchedAt apart here⟩

/-- A scale that is attached keeps the meaning of another one's label, and is on its axis itself. -/
theorem goes_of_attached {d : Dataset} {own : Path} (coherent : a'.Coherent)
    (found : a.tree.at? result = some d)
    (attached : Attached a.tree result d (o.path r result) ⟨own, o.label⟩ o.axis a'.tree) :
    Goes r result s a a' ∧ (o = s → Done r result s a') := by
  have apart : s.path r result ≠ result := elsewhere s
  have sound := h.coherent.ready.sound
  obtain ⟨id, e, denotes, there, named⟩ := attached.own
  obtain ⟨d₁, d', same, attaches, found'⟩ := attached.here
  obtain ⟨d₀, found₀, means⟩ := h.means
  cases found.symm.trans found₀
  have lies (asked : o.path r result = s.path r result) :
      own = s.path r result ∧ a.tree.at? (s.path r result) = some e := by
    have node := h.suits.unlinked.node_of_denoted? (asked ▸ denotes)
    have found := (Tree.at?_of_node node).trans there
    exact ⟨named.symm.trans (sound.path_of_at? found), found⟩
  -- The scale is attached under the place of `s` just if it was asked for there.
  have own_iff : own = s.path r result ↔ o.path r result = s.path r result :=
    ⟨fun eq => h.suits.unlinked.eq_of_denoted? sound denotes there (named.trans eq),
      fun asked => (lies asked).1⟩
  have agree (axis : o.axis = s.axis) : own = s.path r result ↔ o.label = s.label :=
    own_iff.trans (agrees.label axis)
  refine ⟨⟨⟨coherent, h.suits.touched attached.touched apart, d', found',
    (means.redescribed same).attachScale attaches agree⟩, ?_⟩, ?_⟩
  · rintro ⟨⟨d₂, found₂, bears⟩, e', there'⟩
    cases found.symm.trans found₂
    obtain ⟨e'', there'', -⟩ := attached.touched.kept _ e' apart there'
    exact ⟨⟨d', found', (bears.redescribed same).attachScale attaches⟩, e'', there''⟩
  · rintro rfl
    obtain ⟨own_eq, there'⟩ := lies rfl
    obtain ⟨e'', there'', -⟩ := attached.touched.kept _ e apart there'
    exact ⟨⟨d', found', own_eq ▸ bears_of_attachScale attaches⟩, e'', there''⟩

/-- A scale of the result is put in its place and attached. -/
theorem ends_putScale : Ends (putScale r result o) a
    (fun _ a' => Goes r result s a a' ∧ (o = s → Done r result s a')) (fun _ _ => True) := by
  have attaches {b : Archive} (goes : Goes r result s a b) :
      Ends (attachScale result (o.path r result) o.label o.axis) b
        (fun _ a' => Goes r result s a a' ∧ (o = s → Done r result s a')) (fun _ _ => True) := by
    obtain ⟨d, found, -⟩ := goes.1.means
    refine (ends_attachScale_touched goes.1.coherent found o.label o.axis).imp ?_
    rintro _ a' ⟨coherent, own, attached⟩
    obtain ⟨more, done⟩ := goes_of_attached elsewhere goes.1 agrees coherent found attached
    exact ⟨goes.trans more, done⟩
  have stores {b : Archive} (stored : Stored a (o.path r result) o.data.element o.data.dims
      o.data.cells b) := attaches (goes_of_stored elsewhere h agrees stored)
  unfold putScale
  refine ends_bind.2 (ends_get.2 (ends_ite.2 ⟨fun _ => attaches ⟨h, id⟩, fun _ => ?_⟩))
  cases data : o.data with
  | vector e values =>
    rw [data] at stores
    exact (ends_putVector h.coherent values).bind fun _ _ => stores
  | matrix e m =>
    rw [data] at stores
    exact (ends_putMatrix h.coherent m false).bind fun _ _ => stores

end

/-! ## All scales of a result -/

theorem touches_describe (attributes : List Attribute) :
    Preserves (TouchedAt S a) (describe path attributes) := .forM fun _ => touches_setAttribute

section
variable {result : Path} (elsewhere : ∀ o : DimScale, o.path r result ≠ result)

include elsewhere

/-- The scales of a result are put in their places and attached one after the other. -/
theorem ends_putScales (h : Along r result s a) {scales : List DimScale}
    (agrees : ∀ o ∈ scales, s.Agrees r result o) :
    Ends (scales.forM (putScale r result)) a
      (fun _ a' => Goes r result s a a' ∧ (s ∈ scales → Done r result s a'))
      (fun _ _ => True) := by
  induction scales generalizing a with
  | nil => exact ends_pure.2 ⟨⟨h, id⟩, fun mem => absurd mem List.not_mem_nil⟩
  | cons o scales ih =>
    have first := ends_putScale elsewhere h (agrees o List.mem_cons_self)
    refine first.bind ?_
    rintro _ b ⟨goes, done⟩
    refine (ih goes.1 fun o mem => agrees o (List.mem_cons_of_mem _ mem)).imp ?_
    rintro _ a' ⟨more, among⟩
    refine ⟨goes.trans more, fun mem => ?_⟩
    rcases List.mem_cons.1 mem with rfl | mem
    · exact more.2 (done rfl)
    · exact among mem

/-- After a result was labelled and described each of its scales that had its place for itself is
on its axis. -/
theorem ends_annotate (h : Along r result s a) {scales : List DimScale}
    (agrees : ∀ o ∈ scales, s.Agrees r result o) (mem : s ∈ scales) (attributes : List Attribute) :
    Ends (annotate r result scales attributes) a
      (fun _ a' => Along r result s a' ∧ Done r result s a') (fun _ _ => True) := by
  refine (ends_putScales elsewhere h agrees).bind ?_
  rintro _ b ⟨⟨along, -⟩, done⟩
  refine (touches_describe (S := fun _ => False) attributes b along.coherent.touched).mono ?_
    fun _ _ _ => trivial
  exact fun _ a' touched => ⟨along.touched touched id id, (done mem).touched touched id id⟩

end

/-! ## Requests -/

theorem ends_onArchive {α : Type} {act : Archive.Action α} {shelf : Shelf}
    {good : α → Shelf → Prop} {bad : StorageError → Shelf → Prop} :
    Ends (onArchive act) shelf good bad ↔
      Ends act shelf.archive (fun v a => good v { shelf with archive := a })
        (fun e a => bad e { shelf with archive := a }) := by
  constructor
  · intro h
    refine ends_of_forall (fun v a ran => h.good_of_eq ?_) (fun e a ran => h.bad_of_eq ?_) <;>
      unfold onArchive <;> rw [ran]
  · intro h
    refine ends_of_forall (fun v s ran => ?_) (fun e s ran => ?_) <;> unfold onArchive at ran
    · split at ran
      · next eq =>
        cases ran
        exact h.good_of_eq eq
      · cases ran
    · split at ran
      · cases ran
      · next eq =>
        cases ran
        exact h.bad_of_eq eq

/-- A step of the archive keeps on a shelf what it keeps. -/
theorem preserves_onArchive {α : Type} {I : Archive → Prop} {act : Archive.Action α}
    (h : Preserves I act) : Preserves (fun shelf => I shelf.archive) (onArchive act) :=
  fun shelf here => ends_onArchive.2 (h shelf.archive here)

/-- What making groups and setting attributes keep, making the group of a method keeps. -/
theorem preserves_meet {I : Archive → Prop} (group : ∀ path, Preserves I (createGroup path))
    (said : ∀ path name value, Preserves I (setAttribute path name value)) (r : MethodRun) :
    Preserves (fun shelf => I shelf.archive) (meet r) := by
  have makes : Preserves (fun shelf : Shelf => I shelf.archive) (do
      modify fun s : Shelf => { s with known := s.known ++ [r.id] }
      onArchive (Archive.createGroup r.methodPath)
      onArchive (Archive.setAttribute r.methodPath "method_name" (.text r.method))) :=
    .bind (fun _ here => ends_modify.2 here) fun _ =>
      .bind (preserves_onArchive (group _)) fun _ => preserves_onArchive (said _ _ _)
  exact .get fun _ => .ite (.pure _) makes

theorem touches_meet : Preserves (fun shelf => TouchedAt S a shelf.archive) (meet r) :=
  preserves_meet (fun _ => touches_createGroup) (fun _ _ _ => touches_setAttribute) r

theorem preserves_meet_closed (r : MethodRun) :
    Preserves (fun shelf => shelf.archive.container.isClosed = true) (meet r) := by
  have stays {μ : Mutation} (notWrite : μ.isWrite = false) :
      Preserves (fun a : Archive => a.container.isClosed = true) (onContainer μ.run) := by
    intro a closed
    refine ends_onContainer.2 ((Mutation.ends_run_of_closed closed notWrite).mono ?_ ?_) <;>
    · rintro _ _ rfl
      exact closed
  refine preserves_meet (I := fun a => a.container.isClosed = true) (fun path => ?_)
    (fun path name value => ?_) r
  · exact stays (μ := .createGroup path) rfl
  · exact stays (μ := .setAttribute path name value) rfl

/-- Steps that make the dataset of a result; a closed archive gets none. -/
structure Makes (result : Path) (make : Archive.Action Unit) : Prop where
  stored : ∀ b : Archive, b.Coherent →
    Ends make b (fun _ b' => ∃ e dims data, Stored b result e dims data b') (fun _ _ => True)
  refused : ∀ b : Archive, b.container.writer = none →
    Ends make b (fun _ _ => False) (fun _ _ => True)

/-- Where no dataset can be made, no value is stored. -/
theorem ends_putValue_refused
    (refused : ∀ type dims extensible hint fill, Ends
      (createDataset path type dims extensible hint fill) a (fun _ _ => False) fun _ _ => True)
    (transpose : Bool) (value : ResultValue) :
    Ends (putValue path transpose value) a (fun _ _ => False) (fun _ _ => True) := by
  cases value with
  | _ => exact (refused _ _ _ _ _).bind fun _ _ => False.elim

theorem makes_putValue (path : Path) (transpose : Bool) (value : ResultValue) :
    Makes path (putValue path transpose value) where
  stored _ coherent := by
    refine (ends_putValue coherent transpose value).imp ?_
    rintro _ b' ⟨e, dims, data, stored, -⟩
    exact ⟨e, dims, data, stored⟩
  refused _ closed :=
    ends_putValue_refused (fun _ _ _ _ _ => ends_createDataset_closed closed) transpose value

theorem makes_createEmptyOf (path : Path) (e : ElementType) (dims : List Nat)
    (hint : Option Nat) (fill : Option Datum) :
    Makes path (createEmptyOf path (.scalar e) dims hint fill) where
  stored _ coherent := by
    refine ends_createEmptyOf (fun _ => trivial) ((ends_createDataset_stored coherent).imp ?_)
    rintro _ b' ⟨data, stored⟩
    exact ⟨e, dims, data, stored⟩
  refused _ closed := ends_createEmptyOf (fun _ => trivial) (ends_createDataset_closed closed)

theorem ends_makes_closed {shelf : Shelf} {result : Path} {make : Archive.Action Unit}
    {rest : Action Unit} (makes : Makes result make)
    (closed : shelf.archive.container.writer = none) :
    Ends (do meet r; onArchive make; rest) shelf (fun _ _ => False) (fun _ _ => True) := by
  have closed : shelf.archive.container.isClosed = true := by
    simp [Container.isClosed, closed]
  refine ends_bind.2 ((preserves_meet_closed r shelf closed).mono ?_ fun _ _ _ => trivial)
  intro _ met closed
  have closed : met.archive.container.writer = none := by
    simpa [Container.isClosed] using closed
  exact ends_bind.2 (ends_onArchive.2 ((makes.refused _ closed).imp (fun _ _ => False.elim)))

/-- A result that is made, labelled and described. -/
theorem ends_labelled {shelf : Shelf} {result : Path} {make : Archive.Action Unit}
    {scales : List DimScale} (elsewhere : ∀ o : DimScale, o.path r result ≠ result)
    (transparent : shelf.archive.Transparent) (makes : Makes result make)
    (own : s.HasOwnPlace shelf.archive r result scales) (mem : s ∈ scales)
    (attributes : List Attribute) :
    Ends (do meet r; onArchive make; onArchive (annotate r result scales attributes)) shelf
      (fun _ shelf' => Along r result s shelf'.archive ∧ Done r result s shelf'.archive)
      (fun _ _ => True) := by
  rcases transparent.container.ready_or_closed with ready | closed
  · have coherent : shelf.archive.Coherent := ⟨ready, transparent.handles⟩
    refine ends_bind.2 ((touches_meet (S := fun _ => False) shelf coherent.touched).mono ?_
      fun _ _ _ => trivial)
    intro _ met touched
    refine ends_bind.2 (ends_onArchive.2 ((makes.stored _ touched.coherent).imp ?_))
    rintro _ b ⟨e, dims, data, stored⟩
    obtain ⟨d, found, -, unscaled⟩ := stored.here
    have suits := (own.suits.touched touched.tree id).touched stored.tree (elsewhere s)
    have means : d.Means s.axis s.label (s.path r result) := by
      intro o mem
      rw [unscaled] at mem
      cases mem
    exact ends_onArchive.2 (ends_annotate elsewhere ⟨stored.coherent, suits, d, found, means⟩
      own.agrees mem attributes)
  · exact (ends_makes_closed makes closed).imp fun _ _ => False.elim

end Shelf

/-- Requests that make a result with scales. -/
inductive ResultRequest.Labels (r : MethodRun) (location : List String) (scales : List DimScale) :
    ResultRequest → Prop
  | insert (value : ResultValue) (attributes : List Attribute) (transpose : Bool) :
      Labels r location scales (.insert r location value scales attributes transpose)
  | reserve (e : ElementType) (dims : List Nat) (attributes : List Attribute) :
      Labels r location scales (.reserve r location e dims scales attributes)

/-- Whatever was asked of an archive before, and whatever scales a request brings: if the request
succeeds, a scale of it that had its place for itself is found by its label on its axis of the
result, and where it lies the reader of its rank gets exactly its data. -/
theorem Shelf.scales_hold_data {shelf shelf' : Shelf} {request : ResultRequest} {r : MethodRun}
    {location : List String} {scales : List DimScale} (asked : shelf.archive.Asked)
    (labels : request.Labels r location scales) (done : serve request shelf = .ok () shelf') :
    ∀ s ∈ scales, s.HasOwnPlace shelf.archive r (r.resultPath location) scales →
      shelf'.archive.scaleByLabel (r.resultPath location) s.axis s.label =
        .ok (s.path r (r.resultPath location)) ∧
      s.data.ReadsBack shelf'.archive (s.path r (r.resultPath location)) := by
  intro s mem own
  have elsewhere (o : DimScale) := o.path_ne r (r.resultPath location) location
  obtain ⟨along, labelled⟩ : Along r (r.resultPath location) s shelf'.archive ∧
      Done r (r.resultPath location) s shelf'.archive := by
    cases labels with
    | insert value attributes transpose =>
      exact (ends_labelled elsewhere asked.transparent (makes_putValue _ transpose value) own mem
        attributes).good_of_eq done
    | reserve e dims attributes =>
      exact (ends_labelled elsewhere asked.transparent (makes_createEmptyOf _ e dims none
        (filling e)) own mem attributes).good_of_eq done
  obtain ⟨⟨d, found, bears⟩, e, there⟩ := labelled
  obtain ⟨d', found', means⟩ := along.means
  cases found.symm.trans found'
  exact ⟨scaleByLabel_eq_ok along.coherent found means bears,
    (along.suits.held e there).readsBack along.coherent there⟩

/-- A new archive, in which no method was seen. -/
def Shelf.opened? : Option Shelf :=
  (openFile default {} default).result.toOption.map (⟨·, []⟩)

theorem Shelf.asked_of_opened? {shelf : Shelf} (h : opened? = some shelf) :
    shelf.archive.Asked := by
  obtain ⟨a, opened, rfl⟩ := Option.map_eq_some_iff.1 h
  exact .opened (eq_ok_of_toOption opened)

/-- An execution of a method. -/
def sampling : MethodRun := ⟨"sampling", "mc", 1⟩

/-- Scales for the rows and the columns of a matrix. -/
def sides (rows cols : String) : List DimScale :=
  [⟨0, rows, .vector .text ["x1", "x2"], false⟩, ⟨1, cols, .vector .text ["y1", "y2", "y3"], false⟩]

/-- A matrix with scales for its rows and its columns. -/
def correlations (rows cols : String) : ResultRequest :=
  .insert sampling ["corr"] (.intMatrix (.filled 2 3 (7 : Int64))) (sides rows cols) [] false

theorem labels_correlations (rows cols : String) :
    (correlations rows cols).Labels sampling ["corr"] (sides rows cols) :=
  .insert (.intMatrix (.filled 2 3 (7 : Int64))) [] false

theorem Shelf.scales_hold_data_of_two : ∃ shelf shelf', opened? = some shelf ∧
    serve (correlations "inputs" "outputs") shelf = .ok () shelf' ∧ shelf.archive.Asked ∧
    (∀ s ∈ sides "inputs" "outputs", s.HasOwnPlace shelf.archive sampling
      (sampling.resultPath ["corr"]) (sides "inputs" "outputs")) ∧
    ∀ s ∈ sides "inputs" "outputs",
      shelf'.archive.scaleByLabel (sampling.resultPath ["corr"]) s.axis s.label =
        .ok (s.path sampling (sampling.resultPath ["corr"])) ∧
      s.data.ReadsBack shelf'.archive (s.path sampling (sampling.resultPath ["corr"])) := by
  have ready : opened?.any (fun shelf =>
      (okState? (serve (correlations "inputs" "outputs") shelf)).isSome ∧
        ∀ s ∈ sides "inputs" "outputs",
          shelf.archive.tree.Unlinked (s.path sampling (sampling.resultPath ["corr"])) ∧
          shelf.archive.tree.at? (s.path sampling (sampling.resultPath ["corr"])) = none) := by
    decide +kernel
  obtain ⟨shelf, opened, ready⟩ := (Option.any_eq_true ..).1 ready
  obtain ⟨served, free⟩ := of_decide_eq_true ready
  obtain ⟨shelf', served⟩ := Option.isSome_iff_exists.1 served
  obtain ⟨_, served⟩ := exists_ok_of_okState? served
  have asked := asked_of_opened? opened
  have agree : ∀ s ∈ sides "inputs" "outputs", ∀ o ∈ sides "inputs" "outputs",
      s.Agrees sampling (sampling.resultPath ["corr"]) o := by
    intro s mem o mem'
    simp only [sides, List.mem_cons, List.not_mem_nil, or_false] at mem mem'
    rcases mem with rfl | rfl <;> rcases mem' with rfl | rfl
    · exact .self
    · exact .of_apart (by decide) (by decide)
    · exact .of_apart (by decide) (by decide)
    · exact .self
  have own : ∀ s ∈ sides "inputs" "outputs", s.HasOwnPlace shelf.archive sampling
      (sampling.resultPath ["corr"]) (sides "inputs" "outputs") := by
    intro s mem
    obtain ⟨unlinked, absent⟩ := free s mem
    refine ⟨⟨unlinked, fun d found => ?_⟩, agree s mem⟩
    cases absent.symm.trans found
  exact ⟨shelf, shelf', opened, served, asked, own, fun s mem =>
    scales_hold_data asked (labels_correlations _ _) served s mem (own s mem)⟩

/-- Two scales that have one label, on different dimensions, go to one place, and the second one's
data are nowhere. -/
theorem Shelf.drops_scale_data : ¬ ∀ (shelf shelf' : Shelf) (request : ResultRequest)
    (r : MethodRun) (location : List String) (scales : List DimScale), shelf.archive.Asked →
    request.Labels r location scales → serve request shelf = .ok () shelf' →
    ∀ s ∈ scales, s.shared = false → ∃ own,
      shelf'.archive.scaleByLabel (r.resultPath location) s.axis s.label = .ok own ∧
      s.data.ReadsBack shelf'.archive own := by
  intro law
  have ready : opened?.any (fun shelf =>
      (okState? (serve (correlations "variables" "variables") shelf)).any fun shelf' =>
        (shelf'.archive.scaleByLabel (sampling.resultPath ["corr"]) 1 "variables").toOption.any
          fun own => (shelf'.archive.readVector own .text).toOption.any
            fun held => decide ((held : List String) = ["x1", "x2"])) := by
    decide +kernel
  obtain ⟨shelf, opened, ready⟩ := (Option.any_eq_true ..).1 ready
  obtain ⟨shelf', served, ready⟩ := (Option.any_eq_true ..).1 ready
  obtain ⟨own, found, ready⟩ := (Option.any_eq_true ..).1 ready
  obtain ⟨held, read, first⟩ := (Option.any_eq_true ..).1 ready
  have first : held = ["x1", "x2"] := of_decide_eq_true first
  obtain ⟨_, served⟩ := exists_ok_of_okState? served
  obtain ⟨own', found', reads⟩ := law shelf shelf' _ _ _ _ (asked_of_opened? opened)
    (labels_correlations _ _) served ⟨1, "variables", .vector .text ["y1", "y2", "y3"], false⟩
    (List.mem_cons_of_mem _ List.mem_cons_self) rfl
  cases (eq_ok_of_toOption found).symm.trans found'
  have second : held = ["y1", "y2", "y3"] :=
    Except.ok.inj ((eq_ok_of_toOption read).symm.trans reads)
  exact absurd (first.symm.trans second) (by decide)

end StudyArchive
