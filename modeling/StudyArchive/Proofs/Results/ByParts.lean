import StudyArchive.Proofs.Results.Preallocating
/-
# Results that come in parts

A result may be kept with one request, or piece by piece: first room is kept for it, and then each
element of a vector, or each row or column of a matrix, is put into its place.  Where the one
request succeeds the pieces do, in whatever order they come, and lead to a dataset with the same
extents and cells (`Shelf.insert_by_parts`).  There are three differences (`Shelf.parts_differ`): no
room is kept for rows without cells, room for no rows at all grows, and a column may be too long for
the log where no row is.
-/

namespace StudyArchive

open Archive Dataset

namespace Shelf

variable {r : MethodRun}

/-! ## Requests -/

section
variable {α β : Type} {s s₁ : Shelf} {location : List String}

theorem onArchive_eq_ok_iff {act : Archive.Action α} {u : α} :
    onArchive act s = .ok u s₁ ↔
      ∃ a, act s.archive = .ok u a ∧ { s with archive := a } = s₁ := by
  unfold onArchive
  constructor
  · intro ran
    split at ran
    · next a eq =>
      cases ran
      exact ⟨a, eq, rfl⟩
    · cases ran
  · rintro ⟨a, eq, rfl⟩
    rw [eq]

theorem onArchive_bind {act : Archive.Action α} {next : α → Archive.Action β} :
    (do let u ← onArchive act; onArchive (next u)) s = onArchive (act >>= next) s := by
  cases ran : act s.archive with
  | ok u a =>
    rw [bind_eq_of_ok (onArchive_eq_ok_iff.2 ⟨a, ran, rfl⟩)]
    unfold onArchive
    rw [bind_eq_of_ok ran]
  | error e a =>
    have left : onArchive act s = .error e { s with archive := a } := by
      unfold onArchive
      rw [ran]
    rw [bind_eq_of_error left]
    unfold onArchive
    rw [bind_eq_of_error ran]

variable {v : ResultValue} {data : ScaleData} {row : Bool} {whole : Dataset} {grows : Bool}

/-- Parts of a value that fill its room, one after the other. -/
theorem ends_fills (is : ScaleData.ofValue? v = some data) (held : data.HeldBy whole)
    {done : List Selection} (filled : Filled (r.resultPath location) whole done grows s.archive)
    {order : List (ResultValue × Nat)}
    (listed : ∀ p ∈ order, (v.pieces row)[p.2]? = some p.1) :
    Ends ((order.map fun p => ResultRequest.fill r location p.1 p.2 row).forM serve) s
      (fun _ s' => Filled (r.resultPath location) whole
        ((order.map fun p => whole.partSelection (v.byRows row) p.2).reverse ++ done) grows
        s'.archive)
      (fun err _ => err.isUnencodable ∧ ∃ p ∈ order,
        ¬whole.HasFrame (whole.partSelection (v.byRows row) p.2)
          ((whole.partSelection (v.byRows row) p.2).cells.map whole.cell)) := by
  induction order generalizing s done with
  | nil => exact ends_pure.2 filled
  | cons p order ih =>
    obtain ⟨first, others⟩ := List.forall_mem_cons.1 listed
    refine ends_bind.2 (ends_onArchive.2 ((ends_fillPart is held filled first).mono ?_ ?_))
    · intro _ a filled
      refine (ih (s := { s with archive := a }) filled others).mono (fun _ s' filled => ?_) ?_
      · simpa using filled
      · rintro _ _ ⟨unencodable, p, mem, frameless⟩
        exact ⟨unencodable, p, List.mem_cons_of_mem _ mem, frameless⟩
    · rintro _ _ ⟨unencodable, frameless⟩
      exact ⟨unencodable, p, List.mem_cons_self, frameless⟩

end

end Shelf

/-- Room for the entries of a value, made as the value is stored, and then each part of an order. -/
def MethodRun.byParts (r : MethodRun) (location : List String) (data : ScaleData)
    (scales : List DimScale) (attributes : List Attribute) (row : Bool)
    (order : List (ResultValue × Nat)) : List ResultRequest :=
  .reserve r location data.element data.dims scales attributes ::
    order.map fun p => .fill r location p.1 p.2 row

namespace Shelf

variable {s s₁ : Shelf} {r : MethodRun} {location : List String} {v : ResultValue}
  {data : ScaleData} {scales : List DimScale} {attributes : List Attribute} {row : Bool}
  {order : List (ResultValue × Nat)}

theorem robust_sized : Robust fun a => a.Transparent ∧ a.chunkBytes < Bytes.span 8 where
  transparent _ h := h.1
  changed _ μ h := ⟨h.1.changed μ, h.2⟩
  remembered _ _ _ h denotes grows := ⟨h.1.remembered denotes grows, h.2⟩
  flushed _ h := ⟨h.1.flushed, h.2⟩

theorem coherent_of_inserted (transparent : s.archive.Transparent)
    (inserted : serve (.insert r location v scales attributes false) s = .ok () s₁) :
    s.archive.Coherent := by
  rcases transparent.container.ready_or_closed with ready | closed
  · exact ⟨ready, transparent.handles⟩
  · have makes := makes_putValue (r.resultPath location) false v
    exact ((ends_makes_closed makes closed).good_of_eq inserted).elim

/-- Where a value was kept, room can be kept for it instead.  The dataset that holds the value is
fixed, and each of its rows had a frame. -/
theorem exists_reserve (asked : s.archive.Asked) (sized : s.archive.chunkBytes < Bytes.span 8)
    (is : ScaleData.ofValue? v = some data) (full : 0 ∉ data.dims.tail)
    (inserted : serve (.insert r location v scales attributes false) s = .ok () s₁) :
    ∃ s₂ d₁, serve (.reserve r location data.element data.dims scales attributes) s = .ok () s₂ ∧
      s₁.archive.tree.at? (r.resultPath location) = some d₁ ∧ v.HeldBy d₁ false ∧
      d₁.extensible = false ∧ d₁.RowsHaveFrames ∧
      Filled (r.resultPath location) d₁ [] (data.dims.head? = some 0) s₂.archive := by
  have coherent := coherent_of_inserted asked.transparent inserted
  obtain ⟨-, d₁, found, held⟩ := (ends_insert coherent).good_of_eq inserted
  -- Both requests begin with the group of the method.
  obtain ⟨_, met, seen, stored⟩ := exists_of_step_eq_ok inserted
  obtain ⟨transparent, sized⟩ := (preserves_meet
    (fun path => (Call.createGroup path).preserves_run robust_sized)
    (fun path name value => (Call.setAttribute path name value).preserves_run robust_sized) r s
    ⟨asked.transparent, sized⟩).good_of_eq seen
  have touched := (touches_meet (S := fun _ => False) s coherent.touched).good_of_eq seen
  obtain ⟨a₁, ran, rfl⟩ := onArchive_eq_ok_iff.1 (onArchive_bind.symm.trans stored)
  obtain ⟨a₂, whole, reserved, there, fixed, framed, filled⟩ :=
    exists_reserved transparent touched.coherent sized is full ran
  obtain rfl : d₁ = whole := Option.some.inj (found.symm.trans there)
  have kept : serve (.reserve r location data.element data.dims scales attributes) s =
      .ok () { met with archive := a₂ } := by
    refine (bind_eq_of_ok seen _).trans (onArchive_bind.trans ?_)
    exact onArchive_eq_ok_iff.2 ⟨a₂, reserved, rfl⟩
  exact ⟨_, d₁, kept, found, held, fixed, framed ((ResultValue.heldBy_iff is).1 held), filled⟩

/-- Where a request to keep a vector or a matrix succeeds, no extent after the first one being 0,
room can be kept for the value instead and filled with its parts in any order: then the datasets of
the two hold the value and are the same but for the way the data are kept.  The one that was kept
room for grows just if the first extent is 0; and a column of a matrix may be too long for the
log. -/
theorem insert_by_parts (asked : s.archive.Asked) (sized : s.archive.chunkBytes < Bytes.span 8)
    (is : ScaleData.ofValue? v = some data) (full : 0 ∉ data.dims.tail)
    (listed : ∀ p, p ∈ order ↔ p ∈ (v.pieces row).zipIdx)
    (inserted : serve (.insert r location v scales attributes false) s = .ok () s₁) :
    ∃ d₁, s₁.archive.tree.at? (r.resultPath location) = some d₁ ∧ v.HeldBy d₁ false ∧
      d₁.extensible = false ∧
      Ends ((r.byParts location data scales attributes row order).forM serve) s
        (fun _ s₂ => ∃ d₂, s₂.archive.tree.at? (r.resultPath location) = some d₂ ∧
          v.HeldBy d₂ false ∧ d₂.bare = d₁.bare ∧
          d₂.extensible = decide (data.dims.head? = some 0))
        (fun err _ => row = false ∧ v.rank = 2 ∧ err.isUnencodable ∧
          ∃ c, ¬d₁.HasFrame (d₁.partSelection false c)
            ((d₁.partSelection false c).cells.map d₁.cell)) := by
  obtain ⟨s₂, d₁, kept, found, held, fixed, framed, filled⟩ :=
    exists_reserve asked sized is full inserted
  have holds := (ResultValue.heldBy_iff is).1 held
  have at_ {p : ResultValue × Nat} (mem : p ∈ order) : (v.pieces row)[p.2]? = some p.1 :=
    List.mem_zipIdx_iff_getElem?.1 ((listed p).1 mem)
  refine ⟨d₁, found, held, fixed, ends_bind_of_ok kept ?_⟩
  refine (ends_fills is holds filled fun _ => at_).mono ?_ ?_
  · intro _ s₃ filled
    refine filled.exists_held is held fun i (low : i < (v.pieces row).length) => ?_
    have mem : ((v.pieces row)[i], i) ∈ order :=
      (listed _).2 (List.mem_zipIdx_iff_getElem?.2 (List.getElem?_eq_getElem low))
    rw [List.append_nil, List.mem_reverse]
    exact List.mem_map_of_mem mem
  · rintro err _ ⟨unencodable, p, mem, frameless⟩
    cases across : v.byRows row with
    | true =>
      obtain ⟨low, -⟩ := List.getElem?_eq_some_iff.1 (at_ mem)
      rw [across] at frameless
      exact absurd (framed p.2 (ResultValue.length_pieces is holds across ▸ low)) frameless
    | false =>
      obtain ⟨down, rank⟩ := ResultValue.of_byRows_eq_false is across
      rw [across] at frameless
      exact ⟨down, rank, unencodable, p.2, frameless⟩

end Shelf

/-- A matrix of numbers that are all different. -/
def grid : Matrix Int64 := .ofFn 2 3 fun r c => .ofNat (10 * r + c)

theorem Shelf.insert_by_parts_of_columns : ∃ s s₁, opened? = some s ∧ s.archive.Asked ∧
    s.archive.chunkBytes < Bytes.span 8 ∧
    ScaleData.ofValue? (.intMatrix grid) = some (.matrix .int64 grid) ∧
    0 ∉ (ScaleData.matrix .int64 grid).dims.tail ∧
    (∀ p, p ∈ ((ResultValue.intMatrix grid).pieces false).zipIdx.reverse ↔
      p ∈ ((ResultValue.intMatrix grid).pieces false).zipIdx) ∧
    serve (.insert sampling ["m"] (.intMatrix grid) [] [] false) s = .ok () s₁ ∧
    ∃ d₁, s₁.archive.tree.at? (sampling.resultPath ["m"]) = some d₁ ∧
      (ResultValue.intMatrix grid).HeldBy d₁ false ∧ d₁.extensible = false ∧
      Ends ((sampling.byParts ["m"] (.matrix .int64 grid) [] [] false
          ((ResultValue.intMatrix grid).pieces false).zipIdx.reverse).forM serve) s
        (fun _ s₂ => ∃ d₂, s₂.archive.tree.at? (sampling.resultPath ["m"]) = some d₂ ∧
          (ResultValue.intMatrix grid).HeldBy d₂ false ∧ d₂.bare = d₁.bare ∧
          d₂.extensible = decide ((ScaleData.matrix .int64 grid).dims.head? = some 0))
        (fun err _ => false = false ∧ (ResultValue.intMatrix grid).rank = 2 ∧ err.isUnencodable ∧
          ∃ c, ¬d₁.HasFrame (d₁.partSelection false c)
            ((d₁.partSelection false c).cells.map d₁.cell)) := by
  have ready : opened?.any fun s => s.archive.chunkBytes < Bytes.span 8 ∧
      (okState? (serve (.insert sampling ["m"] (.intMatrix grid) [] [] false) s)).isSome := by
    decide +kernel
  obtain ⟨s, opened, ready⟩ := (Option.any_eq_true ..).1 ready
  obtain ⟨sized, served⟩ := of_decide_eq_true ready
  obtain ⟨s₁, served⟩ := Option.isSome_iff_exists.1 served
  obtain ⟨_, served⟩ := exists_ok_of_okState? served
  have asked := asked_of_opened? opened
  have full : 0 ∉ (ScaleData.matrix .int64 grid).dims.tail := by decide
  have listed (p : ResultValue × Nat) :
      p ∈ ((ResultValue.intMatrix grid).pieces false).zipIdx.reverse ↔
        p ∈ ((ResultValue.intMatrix grid).pieces false).zipIdx := List.mem_reverse
  exact ⟨s, s₁, opened, asked, sized, rfl, full, listed, served,
    insert_by_parts asked sized rfl full listed served⟩

/-! ## Where the parts come out differently -/

/-- What a value would have to be: wherever a request keeps it, its parts do as well, and make a
dataset of the same extents and cells that does not grow either. -/
def Shelf.SameByParts (v : ResultValue) : Prop :=
  ∀ (s s₁ : Shelf) (r : MethodRun) (location : List String) (data : ScaleData) (row : Bool)
    (order : List (ResultValue × Nat)), s.archive.Asked →
    s.archive.chunkBytes < Bytes.span 8 → ScaleData.ofValue? v = some data →
    order.Perm (v.pieces row).zipIdx →
    serve (.insert r location v [] [] false) s = .ok () s₁ →
    ∃ s₂ d₁ d₂, (r.byParts location data [] [] row order).forM serve s = .ok () s₂ ∧
      s₁.archive.tree.at? (r.resultPath location) = some d₁ ∧
      s₂.archive.tree.at? (r.resultPath location) = some d₂ ∧
      v.HeldBy d₁ false ∧ v.HeldBy d₂ false ∧ d₁.extensible = false ∧ d₂.extensible = false

/-- There are texts of any length. -/
theorem Bytes.exists_ofText (n : Nat) : ∃ w, (Bytes.ofText w).length = n := by
  induction n with
  | zero => exact ⟨"", rfl⟩
  | succ n ih =>
    obtain ⟨w, length⟩ := ih
    refine ⟨w ++ "a", ?_⟩
    rw [Bytes.ofText_append, List.length_append, length]
    rfl

/-- Two long texts fit into the log one by one, but not both at once. -/
theorem Dataset.hasFrame_long (c : Container) {d : Dataset} (type : d.type = .scalar .text)
    {text : Bytes} (named : Frame.putPath d.path = .ok text) (short : text.length ≤ 100)
    {w : String} (long : (Bytes.ofText w).length = 2 ^ 31) :
    (∀ i < 2, d.HasFrame ⟨[i, 0], [1, 1]⟩ [.text w]) ∧
      ¬d.HasFrame ⟨[0, 0], [2, 1]⟩ [.text w, .text w] := by
  have sized (m n : Nat) (low : m < 3) (low' : n < 3) : Frame.Sized [m, n] := by
    have room : 2 < Bytes.span 4 ∧ 2 < Bytes.span 8 := by decide
    refine ⟨room.1, fun k mem => ?_⟩
    simp only [List.mem_cons, List.not_mem_nil, or_false] at mem
    omega
  have size : (Datum.encodeText w).length = 4 + 2 ^ 31 := by
    rw [Datum.encodeText, List.length_append, Bytes.length_ofNat, long]
  have room : Bytes.span 4 = 2 ^ 32 := rfl
  constructor
  · intro i low
    have starts := sized i 0 (by omega) (by decide)
    have counts := sized 1 1 (by decide) (by decide)
    refine (hasFrame_texts_iff c type named starts counts [w]).2 ?_
    simp only [List.flatMap_cons, List.flatMap_nil, List.append_nil, List.length_cons,
      List.length_nil, size, Frame.overhead]
    omega
  · intro framed
    have starts := sized 0 0 (by decide) (by decide)
    have counts := sized 2 1 (by decide) (by decide)
    have fits := (hasFrame_texts_iff c type named starts counts [w, w]).1 framed
    simp only [List.flatMap_cons, List.flatMap_nil, List.append_nil, List.length_append,
      size] at fits
    omega

namespace Shelf

/-- A matrix is stored where its dataset can be made, if each of its rows has a frame. -/
theorem exists_putMatrix {a b : Archive} {path : Path} {e : ElementType} {m : Matrix e.Value}
    (coherent : a.Coherent) (made : createFixed path e [m.rows, m.cols] none a = .ok () b)
    (framed : ∀ d : Dataset, d.path = path → d.type = .scalar e → ∀ i values,
      m.rowList[i]? = some values → d.HasFrame ⟨[i, 0], [1, m.cols]⟩ (values.map e.toDatum)) :
    ∃ b', putMatrix path e m false a = .ok () b' := by
  obtain ⟨coherent', id, _, new, stands⟩ := (ends_createDataset_stands coherent).good_of_eq made
  have denotes := Tree.denoted?_of_node stands.node
  have holds : b.Holds id e [m.rows, m.cols] :=
    ⟨coherent'.ready, stands.known, congrArg Dataset.type new, congrArg Dataset.dims new⟩
  have writes := ends_writeMatrix_of_framed coherent' denotes holds
    (framed _ (congrArg Dataset.path new) holds.type)
  have put : putMatrix path e m false a = _ := bind_eq_of_ok made _
  rw [put]
  by_cases empty : m.isEmpty = true
  · exact ⟨b, congrFun (if_pos empty) b⟩
  · obtain ⟨_, b', written, -⟩ := writes.exists_ok
    exact ⟨b', (congrFun (if_neg empty) b).trans written⟩

/-- A column without a frame is not put where room is kept. -/
theorem ends_fillColumn {a b : Archive} {path : Path} {e : ElementType} {height width : Nat}
    {values : List e.Value} {c : Nat} (coherent : a.Coherent)
    (made : createEmptyOf path (.scalar e) [height, width] none (filling e) a = .ok () b)
    (frameless : ∀ d : Dataset, d.path = path → d.type = .scalar e →
      ¬d.HasFrame ⟨[0, c], [height, 1]⟩ (values.map e.toDatum)) :
    Ends (setVector path e values c false) b (fun _ _ => False) (fun _ _ => True) := by
  obtain ⟨coherent', id, _, new, stands⟩ :=
    (ends_createEmptyOf (fun _ => trivial) (ends_createDataset_stands coherent)).good_of_eq made
  have denotes := Tree.denoted?_of_node stands.node
  refine (ends_setColumn_framed coherent' denotes values c).imp fun _ _ framed => ?_
  have height : (b.dataset id).dims[0]?.getD 0 = height := by rw [new]; rfl
  rw [height] at framed
  exact frameless _ (congrArg Dataset.path new) (congrArg Dataset.type new) framed

/-- Two rows of one long text each. -/
def stack (w : String) : Matrix String := .filled 2 1 w

theorem pieces_stack (w : String) :
    (ResultValue.textMatrix (stack w)).pieces false = [.texts [w, w]] := rfl

/-- Long texts under each other are stored, each in its own record. -/
theorem exists_putStack {a b : Archive} {path : Path} {text : Bytes} (coherent : a.Coherent)
    (made : createFixed path .text [2, 1] none a = .ok () b)
    (named : Frame.putPath path = .ok text) (short : text.length ≤ 100) {w : String}
    (long : (Bytes.ofText w).length = 2 ^ 31) :
    ∃ b', putMatrix path .text (stack w) false a = .ok () b' := by
  refine exists_putMatrix (e := .text) (m := stack w) coherent made ?_
  intro d own type i values there
  have frames := (hasFrame_long a.container type (own ▸ named) short long).1
  have there : [[w], [w]][i]? = some values := there
  match i, there with
  | 0, rfl => exact frames 0 (by decide)
  | 1, rfl => exact frames 1 (by decide)

/-- The column of long texts is refused where room is kept. -/
theorem ends_fillStack {a b : Archive} {path : Path} {text : Bytes} (coherent : a.Coherent)
    (made : createEmptyOf path (.scalar .text) [2, 1] none (filling .text) a = .ok () b)
    (named : Frame.putPath path = .ok text) (short : text.length ≤ 100) {w : String}
    (long : (Bytes.ofText w).length = 2 ^ 31) :
    Ends (fillPart path 0 false (.texts [w, w])) b (fun _ _ => False) (fun _ _ => True) :=
  ends_fillColumn (e := .text) coherent made fun _ own type =>
    (hasFrame_long a.container type (own ▸ named) short long).2

/-- A new archive that makes a dataset for the rows. -/
theorem exists_room : ∃ s met b text, opened? = some s ∧ s.archive.chunkBytes < Bytes.span 8 ∧
    meet sampling s = .ok () met ∧ met.archive.Coherent ∧
    createFixed (sampling.resultPath ["m"]) .text [2, 1] none met.archive = .ok () b ∧
    Frame.putPath (sampling.resultPath ["m"]) = .ok text ∧ text.length ≤ 100 := by
  have ready : opened?.any fun s => s.archive.chunkBytes < Bytes.span 8 ∧
      (okState? (meet sampling s)).any (fun met => (okState?
        (createFixed (sampling.resultPath ["m"]) .text [2, 1] none met.archive)).isSome) ∧
      (Frame.putPath (sampling.resultPath ["m"])).toOption.any (·.length ≤ 100) := by
    decide +kernel
  obtain ⟨s, opened, ready⟩ := (Option.any_eq_true ..).1 ready
  obtain ⟨sized, ready, named⟩ := of_decide_eq_true ready
  obtain ⟨met, seen, made⟩ := (Option.any_eq_true ..).1 ready
  obtain ⟨b, made⟩ := Option.isSome_iff_exists.1 made
  obtain ⟨text, named, short⟩ := (Option.any_eq_true ..).1 named
  obtain ⟨_, seen⟩ := exists_ok_of_okState? seen
  obtain ⟨_, made⟩ := exists_ok_of_okState? made
  obtain ⟨a, file, rfl⟩ := Option.map_eq_some_iff.1 opened
  have coherent := coherent_of_openFile (eq_ok_of_toOption file)
  have touched := (touches_meet (S := fun _ => False) ⟨a, []⟩ coherent.touched).good_of_eq seen
  exact ⟨_, met, b, text, opened, sized, seen, touched.coherent, made, eq_ok_of_toOption named,
    of_decide_eq_true short⟩

theorem not_sameByParts_stack {w : String} (long : (Bytes.ofText w).length = 2 ^ 31) :
    ¬SameByParts (.textMatrix (stack w)) := by
  intro law
  obtain ⟨s, met, b, text, opened, sized, seen, coherent, made, named, short⟩ := exists_room
  obtain ⟨b', put⟩ := exists_putStack coherent made named short long
  have inserted : serve (.insert sampling ["m"] (.textMatrix (stack w)) [] [] false) s =
      .ok () { met with archive := b' } :=
    (bind_eq_of_ok seen _).trans (bind_eq_of_ok (onArchive_eq_ok_iff.2 ⟨b', put, rfl⟩) _)
  have listed : [(ResultValue.texts [w, w], 0)].Perm
      ((ResultValue.textMatrix (stack w)).pieces false).zipIdx := by
    rw [pieces_stack]
    exact .refl _
  obtain ⟨_, _, _, done, -⟩ :=
    law s _ sampling ["m"] _ false _ (asked_of_opened? opened) sized rfl listed inserted
  -- Room is kept in the archive that the matrix was put in, and then the column is refused.
  obtain ⟨_, _, reserved, filled⟩ := exists_of_step_eq_ok done
  obtain ⟨_, met', seen', reserved⟩ := exists_of_step_eq_ok reserved
  cases seen.symm.trans seen'
  obtain ⟨_, _, kept, said⟩ := exists_of_step_eq_ok reserved
  obtain ⟨c, room, rfl⟩ := onArchive_eq_ok_iff.1 kept
  cases said
  obtain ⟨_, _, filled, -⟩ := exists_of_step_eq_ok filled
  obtain ⟨_, put, -⟩ := onArchive_eq_ok_iff.1 filled
  exact (ends_fillStack coherent room named short long).good_of_eq put

/-- The parts of a value do not do as a request that a new archive serves. -/
theorem not_sameByParts {v : ResultValue} {data : ScaleData} (row : Bool)
    {order : List (ResultValue × Nat)} (is : ScaleData.ofValue? v = some data)
    (listed : order.Perm (v.pieces row).zipIdx)
    (ready : opened?.any fun s => s.archive.chunkBytes < Bytes.span 8 ∧
      (okState? (serve (.insert sampling ["m"] v [] [] false) s)).isSome ∧
      ¬(okState? ((sampling.byParts ["m"] data [] [] row order).forM serve s)).any fun s₂ =>
        (s₂.archive.tree.at? (sampling.resultPath ["m"])).any fun d => !d.extensible) :
    ¬SameByParts v := by
  intro law
  obtain ⟨s, opened, ready⟩ := (Option.any_eq_true ..).1 ready
  obtain ⟨sized, served, other⟩ := of_decide_eq_true ready
  obtain ⟨s₁, served⟩ := Option.isSome_iff_exists.1 served
  obtain ⟨_, served⟩ := exists_ok_of_okState? served
  obtain ⟨s₂, d₁, d₂, done, -, found, -, -, -, fixed⟩ :=
    law s s₁ sampling ["m"] data row order (asked_of_opened? opened) sized is listed served
  refine other ((Option.any_eq_true ..).2 ⟨s₂, congrArg okState? done, ?_⟩)
  exact (Option.any_eq_true ..).2 ⟨d₂, found, by rw [fixed]; rfl⟩

/-- Rows without cells, no rows at all, and a column that is too long for the log. -/
theorem parts_differ : ¬SameByParts (.realMatrix (.filled 3 0 .nan)) ∧ ¬SameByParts (.reals []) ∧
    ∃ w, ¬SameByParts (.textMatrix (stack w)) := by
  obtain ⟨w, long⟩ := Bytes.exists_ofText (2 ^ 31)
  refine ⟨?_, ?_, w, not_sameByParts_stack long⟩
  · exact not_sameByParts true rfl (.refl _) (by decide +kernel)
  · exact not_sameByParts true rfl (.refl _) (by decide +kernel)

end Shelf

end StudyArchive
