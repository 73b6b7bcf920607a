import StudyArchive.Proofs.Container.Reached
import StudyArchive.Proofs.Container.Records
import StudyArchive.Proofs.Log.RoundTrip
/-
# Cells are of their dataset's type

Values come into a container along three ways: as the fill of a new dataset, in a write, and out of
the log.  The first two are checked; what comes out of the log is not, but nothing else can be read
there (`Datum.gives_decode`).  So in every container that was reached, whatever log was opened and
whatever was asked for since, the fill and the written cells of every dataset are of its type
(`Container.Reached.typed`).
-/

namespace StudyArchive

/-! ## Datasets

A cell that was written holds what was given, and that was checked. -/

namespace Dataset

variable {d d' : Dataset} {index : List Nat} {v : Datum}

/-- A dataset whose fill and whose chunks hold values of its type only. -/
structure Typed (d : Dataset) : Prop where
  fill : d.fill.conforms d.type
  chunks : ∀ key chunk, d.chunks.get? key = some chunk → ∀ v ∈ chunk, v.conforms d.type

theorem typed_new {path : Path} {type : DataType} {dims : List Nat} {extensible : Bool}
    {chunkRows : Nat} {fill : Datum} (fits : fill.conforms type) :
    (Dataset.new path type dims extensible chunkRows fill).Typed := by
  refine ⟨fits, ?_⟩
  intro key chunk found
  cases found

/-- What else is changed of a dataset does not matter. -/
theorem Typed.congr (typed : d.Typed) (type : d'.type = d.type) (fill : d'.fill = d.fill)
    (chunks : d'.chunks = d.chunks) : d'.Typed := by
  constructor
  · rw [type, fill]
    exact typed.fill
  · rw [type, chunks]
    exact typed.chunks

/-- A chunk comes into being with the fill in every cell. -/
theorem Typed.setCell (typed : d.Typed) (fits : v.conforms d.type) :
    (d.setCell index v).Typed := by
  refine ⟨typed.fill, ?_⟩
  intro key chunk found w mem
  show w.conforms d.type
  have before : ∀ w ∈ (d.chunks.get? (d.chunkOf index)).getD
      (Array.replicate d.chunkLength d.fill), w.conforms d.type := by
    intro w mem
    cases there : d.chunks.get? (d.chunkOf index) with
    | none =>
      rw [there, Option.getD_none] at mem
      rw [Array.eq_of_mem_replicate mem]
      exact typed.fill
    | some old =>
      rw [there, Option.getD_some] at mem
      exact typed.chunks _ old there w mem
  by_cases here : d.chunkOf index = key
  · subst here
    have same := (SortedMap.get?_insert_self d.chunks _ _).symm.trans found
    cases same
    rcases Array.mem_or_eq_of_mem_setIfInBounds mem with old | rfl
    · exact before w old
    · exact fits
  · have same := (SortedMap.get?_insert_of_ne d.chunks _ here).symm.trans found
    exact typed.chunks key chunk same w mem

theorem Typed.setCells (typed : d.Typed) {cells : List (List Nat)} {values : List Datum}
    (fit : ∀ v ∈ values, v.conforms d.type) : (d.setCells cells values).Typed := by
  unfold Dataset.setCells
  have each : ∀ pair ∈ cells.zip values, pair.2.conforms d.type := by
    intro pair mem
    exact fit pair.2 (List.of_mem_zip mem).2
  generalize cells.zip values = pairs at each
  induction pairs generalizing d with
  | nil => exact typed
  | cons pair pairs ih =>
    have first := each pair List.mem_cons_self
    refine ih (typed.setCell first) (fun v mem => fit v mem) ?_
    intro other mem
    exact each other (List.mem_cons_of_mem pair mem)

theorem Typed.write (typed : d.Typed) {operation : String} {s : Selection} {values : List Datum}
    (fit : ∀ v ∈ values, v.conforms d.type) (h : d.write operation s values = .ok d') :
    d'.Typed := by
  rw [(write_eq_ok h).2.2]
  exact typed.setCells fit

theorem Typed.becomes (typed : d.Typed) (h : d.Becomes d') : d'.Typed := by
  cases h with
  | extended h =>
    obtain ⟨_, _, _, _, _, rfl⟩ := extend_eq_ok h
    exact typed.congr rfl rfl rfl
  | written fit h => exact typed.write fit h
  | described attributes => exact typed.congr rfl rfl rfl
  | marked name => exact typed.congr rfl rfl rfl
  | attached h =>
    obtain ⟨scales, -, rfl, -⟩ := attachScale_eq_ok h
    exact typed.congr rfl rfl rfl

/-- Whatever cell is looked at, the value is of the dataset's type. -/
theorem Typed.cell (typed : d.Typed) (index : List Nat) : (d.cell index).conforms d.type := by
  unfold Dataset.cell
  split
  · exact typed.fill
  · next chunk found =>
    cases there : chunk[d.slotOf index]? with
    | none => exact typed.fill
    | some v => exact typed.chunks _ chunk found v (Array.mem_of_getElem? there)

end Dataset

/-! ## Trees

A record's values are decoded by the type of the dataset, and the decoder gives nothing else. -/

namespace Tree

variable {t t' : Tree}

/-- A tree of typed datasets. -/
def Typed (t : Tree) : Prop := ∀ d ∈ t.datasets, d.Typed

theorem typed_empty : Tree.empty.Typed := by
  intro d mem
  cases mem

theorem Typed.dataset (typed : t.Typed) {id : DatasetId} (known : id < t.datasets.length) :
    (t.dataset id).Typed :=
  typed _ (List.mem_of_getElem? (getElem?_of_lt known))

theorem Typed.of_datasets (typed : t.Typed) (same : t'.datasets = t.datasets) : t'.Typed := by
  unfold Typed
  rw [same]
  exact typed

theorem Typed.updateDataset (typed : t.Typed) {id : DatasetId} {d : Dataset}
    (each : id < t.datasets.length → d.Typed) : (t.updateDataset id d).Typed := by
  intro other mem
  change other ∈ t.datasets.set id d at mem
  rcases Nat.lt_or_ge id t.datasets.length with known | unknown
  · rcases List.mem_or_eq_of_mem_set mem with old | rfl
    · exact typed other old
    · exact each known
  · rw [List.set_eq_of_length_le unknown] at mem
    exact typed other mem

/-- A record whose fill is of its type leaves the datasets typed. -/
theorem Typed.apply (typed : t.Typed) {file : String} {r : Record} (filled : r.isFilled)
    (h : t.apply file r = .ok t') : t'.Typed := by
  rcases datasets_of_apply h with same | ⟨_, _, _, _, _, _, rfl, more⟩ | ⟨id, d', becomes, rfl⟩
  · exact typed.of_datasets same
  · intro d mem
    rw [more] at mem
    rcases List.mem_append.1 mem with old | new
    · exact typed d old
    · rw [List.mem_singleton.1 new]
      exact Dataset.typed_new filled
  · exact typed.updateDataset fun known => (typed.dataset known).becomes becomes

theorem Typed.replay (typed : t.Typed) {file : String} {entries : List (Nat × Record)}
    (filled : ∀ e ∈ entries, e.2.isFilled) (h : t.replay file entries = .ok t') : t'.Typed := by
  induction entries generalizing t with
  | nil =>
    cases h
    exact typed
  | cons entry entries ih =>
    obtain ⟨position, record⟩ := entry
    rw [Tree.replay] at h
    split at h
    · next applied =>
      refine ih (typed.apply (filled _ List.mem_cons_self) applied) ?_ h
      intro e mem
      exact filled e (List.mem_cons_of_mem _ mem)
    · cases h

end Tree

/-! ## Containers -/

/-- Whatever is asked for, and whether it is granted or refused, the datasets are typed. -/
theorem Mutation.typed_after {m : Mounted} (typed : m.container.tree.Typed) (μ : Mutation) :
    (after m μ).container.tree.Typed := by
  refine tree_after typed (fun r t filled applied => typed.apply filled applied) ?_ μ
  intro id operation s values d' fit accepted
  exact typed.updateDataset fun known => (typed.dataset known).write fit accepted

namespace Container

variable {m : Mounted}

/-- Whatever frame a log has, the fill in its record is of the type before it. -/
theorem isFilled_of_logged (l : LoggedRecord) : l.record.isFilled := by
  obtain ⟨-, -, -, decoded⟩ := Log.head_eq_ok_iff.1 l.intact
  exact (Record.isFilled_and_isPlain_of_decode decoded).1

/-- Every dataset of a container that was reached in any way is typed. -/
theorem Reached.typed (reached : Reached m) : m.container.tree.Typed := by
  induction reached with
  | opened h =>
    obtain ⟨w, frames, logged, -⟩ := Logged.of_openFile h
    refine Tree.typed_empty.replay ?_ logged.replayed
    intro e mem
    have record : e.2 ∈ (Log.placed Header.size frames).map (·.2) := List.mem_map_of_mem mem
    rw [Log.map_placed] at record
    obtain ⟨l, -, same⟩ := List.mem_map.1 record
    rw [← same]
    exact isFilled_of_logged l
  | changed _ μ ih => exact Mutation.typed_after ih μ
  | @flushed m _ ih => rwa [tree_flush]
  | @closed m _ ih => rwa [tree_close]
  | disturbed _ _ ih => exact ih

end Container
end StudyArchive
