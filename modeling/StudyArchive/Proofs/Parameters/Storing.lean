import StudyArchive.Evaluation.Parameters
import StudyArchive.Proofs.Archive.Records
import StudyArchive.Proofs.Evaluation.Courses
import StudyArchive.Proofs.Parameters.Layout
/-
# How tables of parameters are stored

Each kind has its dataset, and the tables are stored kind by kind.  To store one is to write its
rows from the first record of the dataset on (`Archive.ends_writeTable`), so what it does depends on
what was there.  Where nothing was, the dataset is made for the table, and nothing but an
obstruction keeps the rows out of it (`Archive.tables_fit`).  Where more records were, those behind
the new ones stay (`Recording.keeps_later_records`), and whoever reads the table cannot tell them
from the new ones (`Recording.storing_keeps_a_record`).
-/

namespace StudyArchive

/-! ## Places of tables

The tables of a producer lie side by side below its group, under the names of their kinds. -/

namespace VariableKind

theorem isSegment_name (k : VariableKind) : Path.IsSegment k.name := by
  cases k <;> decide +kernel

theorem name_injective {k k' : VariableKind} (same : k.name = k'.name) : k = k' := by
  have found := congrArg ofName? same
  rw [ofName?_name, ofName?_name] at found
  exact Option.some.inj found

theorem fields_ne_nil (k : VariableKind) : k.fields ≠ [] := by
  cases k <;> decide +kernel

section
variable {group : Path} {k k' : VariableKind}

theorem segments_table (group : Path) (k : VariableKind) :
    (group.join k.name).segments = group.segments ++ [k.name] :=
  Path.segments_join_of_isSegment group k.isSegment_name

/-- The tables of a group lie side by side. -/
theorem eq_of_prefix (above : (group.join k.name).segments <+: (group.join k'.name).segments) :
    k = k' := by
  rw [segments_table, segments_table] at above
  have same := above.eq_of_length (by simp)
  exact name_injective (List.singleton_inj.1 (List.append_cancel_left same))

theorem parent?_table (group : Path) (k : VariableKind) :
    (group.join k.name).parent? = some group := by
  refine Path.parent?_eq_some.2 ⟨fun root => ?_, ?_⟩
  · have segments := segments_table group k
    rw [root] at segments
    exact List.append_ne_nil_of_right_ne_nil _ (List.cons_ne_nil _ _) segments.symm
  · rw [segments_table, List.dropLast_concat]

end

end VariableKind

namespace VariableParameters

variable {k : VariableKind}

theorem nodup_kinds (p : VariableParameters) : p.kinds.Nodup :=
  List.Nodup.filter _ (by decide)

theorem records_ne_nil (p : VariableParameters) (kind : k ∈ p.kinds) : p.records k ≠ [] :=
  of_decide_eq_true (List.mem_filter.1 kind).2

theorem isEmpty_of_mem_kinds (p : VariableParameters) (kind : k ∈ p.kinds) :
    p.isEmpty = false := by
  have some := p.records_ne_nil kind
  cases entries : p.entries with
  | nil =>
    unfold records at some
    rw [entries] at some
    exact absurd rfl some
  | cons first rest =>
    unfold isEmpty
    rw [entries]
    rfl

end VariableParameters

/-- Records whose arrays can be counted in 32 bits. -/
def ParamRecord.Countable (r : ParamRecord) : Prop := ∀ v ∈ r.values, v.arrayLength < 2 ^ 31

namespace ParamTable

variable {path : Path} {k : VariableKind} {records : List ParamRecord} {t : ParamTable}

section
variable (built : build path k records = .ok t)

include built

theorem length_rows : t.rows.length = records.length := by
  obtain ⟨-, rfl⟩ := build_eq_ok_iff.1 built
  exact List.length_map _

theorem rows_ne_nil (some : records ≠ []) : t.rows ≠ [] := by
  intro none
  have length := length_rows built
  rw [none] at length
  exact some (List.eq_nil_of_length_eq_zero length.symm)

theorem isRecord_of_mem {v : Datum} (mem : v ∈ t.rows) : ∃ values, v = .record values := by
  obtain ⟨-, rfl⟩ := build_eq_ok_iff.1 built
  obtain ⟨r, -, rfl⟩ := List.mem_map.1 mem
  exact ⟨_, rfl⟩

theorem fields_ne_nil : t.fields ≠ [] := by
  obtain ⟨-, rfl⟩ := build_eq_ok_iff.1 built
  unfold columns
  split
  · exact List.cons_ne_nil _ _
  · simpa using k.fields_ne_nil

/-- The rows of a table are elements of its type, if no array is too long to be counted. -/
theorem conforms_of_mem (countable : ∀ r ∈ records, r.Countable)
    {v : Datum} (mem : v ∈ t.rows) : v.conforms (.compound t.fields) := by
  obtain ⟨suit, rfl⟩ := build_eq_ok_iff.1 built
  obtain ⟨r, there, rfl⟩ := List.mem_map.1 mem
  refine conforms_laid (suit r there) (Nat.lt_of_le_pred (by decide) ?_)
  exact ParamRecord.longest_le fun v value => Nat.le_pred_of_lt (countable r there v value)

end

end ParamTable

namespace Archive

variable {a a' : Archive} {group path : Path} {p : VariableParameters} {k : VariableKind}
  {t : ParamTable} {S : Path → Prop}

/-! ## One table -/

/-- An archive in which the dataset of a path was made for a table, and holds it. -/
structure HoldsTable (a : Archive) (path : Path) (t : ParamTable) : Prop where
  dataset : ∃ id, a.tree.denoted? path = some id ∧
    (a.dataset id).type = .compound t.fields ∧ (a.dataset id).dims = [t.rows.length]
  records : a.readRecords path = .ok t.rows

/-- What a step leaves alone holds its table still. -/
theorem HoldsTable.onlyAt (h : a.HoldsTable path t) (coherent : a.Coherent)
    (only : OnlyAt S a a') (apart : ∀ q, S q → a.contains q = false) : a'.HoldsTable path t := by
  obtain ⟨⟨id, denotes, type, dims⟩, records⟩ := h
  have denotes' := only.denoted? coherent denotes
  have same : a'.dataset id = a.dataset id := by
    refine only.kept id (coherent.lt_of_denoted? denotes) fun q place there => ?_
    rw [denoted?_of_free (apart q place)] at there
    cases there
  refine ⟨⟨id, denotes', same ▸ type, same ▸ dims⟩, ?_⟩
  rw [← records]
  refine coherent.readRecords_congr only.coherent (denotes'.trans denotes.symm) ?_
  intro other there
  cases denotes.symm.trans there
  exact same

section
variable (coherent : a.Coherent) (some : p.records k ≠ [])

include coherent some

/-- A table that is stored is written over what was there. -/
theorem ends_writeTable :
    Ends (Recording.writeTable group p k) a
      (fun _ a' => OnlyAt (· = group.join k.name) a a' ∧
        ∃ t, ParamTable.build (group.join k.name) k (p.records k) = .ok t ∧
          a'.readRecords (group.join k.name) = .ok (t.rows ++
            ((a.readRecords (group.join k.name)).toOption.getD []).drop t.rows.length))
      (fun _ _ => True) := by
  unfold Recording.writeTable
  simp only [ends_bind, ends_get]
  refine ends_liftExcept.2 ⟨fun t built => ?_, fun _ _ => trivial⟩
  have rows := ParamTable.rows_ne_nil built some
  have records (v : Datum) (mem : v ∈ t.rows) := ParamTable.isRecord_of_mem built mem
  refine ends_ite.2 ⟨fun _ => ?_, fun free => ?_⟩
  · refine (ends_writeRecords coherent rows records).imp ?_
    intro _ a' replaced
    exact ⟨replaced.onlyAt, t, built, replaced.records⟩
  · have free : a.contains (group.join k.name) = false := by simpa using free
    refine ends_bind.2 ((ends_createList coherent free (VariableKind.parent?_table group k)
      (by simpa using rows) (ParamTable.fields_ne_nil built)).mono ?_ fun _ _ _ => trivial)
    rintro _ a₁ ⟨only, id, denotes, type, dims⟩
    refine (ends_writeRecords only.coherent rows records).imp ?_
    intro _ a' replaced
    refine ⟨only.trans replaced.onlyAt, t, built, ?_⟩
    rw [replaced.records_of_all only.coherent denotes dims (by rw [type]; rfl),
      coherent.readRecords_of_free free]
    simp

/-- Where nothing is, a table is stored whole unless it is obstructed. -/
theorem ends_writeTable_free (suit : ∀ r ∈ p.records k, r.Suits k)
    (countable : ∀ r ∈ p.records k, r.Countable)
    (free : a.contains (group.join k.name) = false) :
    Ends (Recording.writeTable group p k) a
      (fun _ a' => OnlyAt (· = group.join k.name) a a' ∧
        ∃ t, ParamTable.build (group.join k.name) k (p.records k) = .ok t ∧
          a'.HoldsTable (group.join k.name) t)
      (fun e _ => Obstructed group e) := by
  obtain ⟨t, built⟩ : ∃ t, ParamTable.build (group.join k.name) k (p.records k) = .ok t :=
    ParamTable.exists_build_iff.2 suit
  have rows := ParamTable.rows_ne_nil built some
  unfold Recording.writeTable
  simp only [ends_bind, ends_get, built, ends_liftExcept_ok, free, Bool.false_eq_true, if_false]
  refine (ends_createList coherent free (VariableKind.parent?_table group k)
    (by simpa using rows) (ParamTable.fields_ne_nil built)).imp ?_
  rintro _ a₁ ⟨only, id, denotes, type, dims⟩
  have fit (v : Datum) (mem : v ∈ t.rows) : v.conforms (a₁.dataset id).type := by
    rw [type]
    exact ParamTable.conforms_of_mem built countable mem
  refine ((ends_writeRecords only.coherent rows fun v => ParamTable.isRecord_of_mem built).and
    (ends_writeRecords_fits only.coherent denotes dims (Nat.le_refl _) fit)).mono ?_
    fun _ _ h => .frameless h.2
  rintro _ a' ⟨replaced, -⟩
  obtain ⟨type', dims'⟩ := replaced.alike id denotes
  refine ⟨only.trans replaced.onlyAt, t, rfl, ⟨id, ?_, type'.trans type, dims'.trans dims⟩, ?_⟩
  · exact replaced.onlyAt.denoted? only.coherent denotes
  · exact replaced.records_of_all only.coherent denotes dims (by rw [type]; rfl)

omit coherent

theorem ends_writeTable_closed (closed : a.container.writer = none) :
    Ends (Recording.writeTable group p k) a (fun _ _ => False) (fun _ _ => True) := by
  unfold Recording.writeTable
  simp only [ends_bind, ends_get]
  refine ends_liftExcept.2 ⟨fun t built => ?_, fun _ _ => trivial⟩
  refine ends_ite.2 ⟨fun _ => ?_, fun _ => ?_⟩
  · exact ends_writeRecords_closed closed
  · have rows := ParamTable.rows_ne_nil built some
    rw [createCompound_eq (by simpa using rows) (ParamTable.fields_ne_nil built)]
    exact ends_bind.2 ((ends_createDataset_refused closed).mono (fun _ _ => False.elim)
      fun _ _ _ => trivial)

theorem ends_writeTable_refused (closed : a.container.writer = none)
    (suit : ∀ r ∈ p.records k, r.Suits k) (free : a.contains (group.join k.name) = false) :
    Ends (Recording.writeTable group p k) a (fun _ _ => False)
      (fun e _ => e = a.container.closedError) := by
  obtain ⟨t, built⟩ : ∃ t, ParamTable.build (group.join k.name) k (p.records k) = .ok t :=
    ParamTable.exists_build_iff.2 suit
  have rows := ParamTable.rows_ne_nil built some
  unfold Recording.writeTable
  simp only [ends_bind, ends_get, built, ends_liftExcept_ok, free, Bool.false_eq_true, if_false]
  rw [createCompound_eq (by simpa using rows) (ParamTable.fields_ne_nil built)]
  exact (ends_createDataset_refused closed).imp fun _ _ => False.elim

end

/-! ## All tables -/

/-- No other kind's table is stored in the dataset of a kind's table: a link could lead there. -/
def OwnTable (a : Archive) (group : Path) (l : List VariableKind) (k : VariableKind) : Prop :=
  ∀ k' ∈ l, k' ≠ k → ∀ id, a.tree.denoted? (group.join k.name) = some id →
    a.tree.denoted? (group.join k'.name) ≠ some id

section
variable {l : List VariableKind} (coherent : a.Coherent) (nodup : l.Nodup)
  (some : ∀ k ∈ l, p.records k ≠ [])

include coherent nodup some

/-- Tables that are stored one after the other are written over what was there before the first,
each in its own dataset. -/
theorem ends_tables :
    Ends (l.forM (Recording.writeTable group p)) a
      (fun _ a' => OnlyAt (fun q => ∃ k ∈ l, q = group.join k.name) a a' ∧
        ∀ k ∈ l, a'.OwnTable group l k →
          ∃ t, ParamTable.build (group.join k.name) k (p.records k) = .ok t ∧
            a'.readRecords (group.join k.name) = .ok (t.rows ++
              ((a.readRecords (group.join k.name)).toOption.getD []).drop t.rows.length))
      (fun _ _ => True) := by
  induction l generalizing a with
  | nil => exact ends_pure.2 ⟨coherent.onlyAt, fun _ mem => absurd mem List.not_mem_nil⟩
  | cons first l ih =>
    obtain ⟨new, nodup⟩ := List.nodup_cons.1 nodup
    refine ends_bind.2 ((ends_writeTable coherent (some first List.mem_cons_self)).imp ?_)
    rintro _ a₁ ⟨only, stored⟩
    refine (ih only.coherent nodup fun k mem => some k (List.mem_cons_of_mem first mem)).imp ?_
    rintro _ a' ⟨others, rest⟩
    refine ⟨only.cons (fun k : VariableKind => group.join k.name) others, fun k mem own => ?_⟩
    rcases List.mem_cons.1 mem with rfl | mem
    · -- the table was stored first, and the others are stored elsewhere
      obtain ⟨t, built, read⟩ := stored
      refine ⟨t, built, ?_⟩
      rw [← read]
      refine others.readRecords_eq only.coherent ?_
      rintro q ⟨k', mem', rfl⟩
      exact own k' (List.mem_cons_of_mem _ mem') fun same => new (same ▸ mem')
    · -- the table is stored later, and the first one is stored elsewhere
      obtain ⟨t, built, read⟩ :=
        rest k mem fun k' mem' => own k' (List.mem_cons_of_mem first mem')
      refine ⟨t, built, ?_⟩
      have before : a₁.readRecords (group.join k.name) = a.readRecords (group.join k.name) := by
        refine only.readRecords_eq coherent ?_
        rintro q rfl id here there
        exact own first List.mem_cons_self (fun same => new (same ▸ mem)) id
          (others.denoted? only.coherent here) (others.denoted? only.coherent there)
      rw [read, before]

/-- Where nothing is at any of their paths, all the tables are stored whole, unless they are
obstructed. -/
theorem ends_tables_free (suit : ∀ k ∈ l, ∀ r ∈ p.records k, r.Suits k)
    (countable : ∀ k ∈ l, ∀ r ∈ p.records k, r.Countable)
    (free : ∀ k ∈ l, a.contains (group.join k.name) = false) :
    Ends (l.forM (Recording.writeTable group p)) a
      (fun _ a' => OnlyAt (fun q => ∃ k ∈ l, q = group.join k.name) a a' ∧
        ∀ k ∈ l, ∃ t, ParamTable.build (group.join k.name) k (p.records k) = .ok t ∧
          a'.HoldsTable (group.join k.name) t)
      (fun e _ => Obstructed group e) := by
  induction l generalizing a with
  | nil => exact ends_pure.2 ⟨coherent.onlyAt, fun _ mem => absurd mem List.not_mem_nil⟩
  | cons first l ih =>
    obtain ⟨new, nodup⟩ := List.nodup_cons.1 nodup
    have inside {k : VariableKind} (mem : k ∈ l) : k ∈ first :: l := List.mem_cons_of_mem first mem
    have here : first ∈ first :: l := List.mem_cons_self
    refine ends_bind.2 ((ends_writeTable_free coherent (some first here) (suit first here)
      (countable first here) (free first here)).imp ?_)
    rintro _ a₁ ⟨only, t, built, held⟩
    have free₁ (k : VariableKind) (mem : k ∈ l) : a₁.contains (group.join k.name) = false := by
      rcases only.free _ (free k (inside mem)) with none | ⟨_, rfl, above⟩
      · exact none
      · exact absurd (VariableKind.eq_of_prefix above ▸ mem) new
    refine (ih only.coherent nodup (fun k mem => some k (inside mem))
      (fun k mem => suit k (inside mem)) (fun k mem => countable k (inside mem)) free₁).imp ?_
    rintro _ a' ⟨others, rest⟩
    refine ⟨only.cons (fun k : VariableKind => group.join k.name) others, fun k mem => ?_⟩
    rcases List.mem_cons.1 mem with rfl | mem
    · refine ⟨t, built, held.onlyAt only.coherent others ?_⟩
      rintro q ⟨k', mem', rfl⟩
      exact free₁ k' mem'
    · exact rest k mem

omit coherent nodup in
theorem ends_tables_closed (closed : a.container.writer = none) :
    Ends (l.forM (Recording.writeTable group p)) a (fun _ _ => l = []) (fun _ _ => True) := by
  cases l with
  | nil => exact ends_pure.2 rfl
  | cons first l =>
    exact ends_bind.2 ((ends_writeTable_closed (some first List.mem_cons_self) closed).imp
      fun _ _ => False.elim)

omit coherent nodup in
/-- A closed archive takes no table where nothing is. -/
theorem ends_tables_refused (closed : a.container.writer = none)
    (suit : ∀ k ∈ l, ∀ r ∈ p.records k, r.Suits k)
    (free : ∀ k ∈ l, a.contains (group.join k.name) = false) :
    Ends (l.forM (Recording.writeTable group p)) a (fun _ _ => l = [])
      (fun e _ => e = a.container.closedError) := by
  cases l with
  | nil => exact ends_pure.2 rfl
  | cons first l =>
    have here : first ∈ first :: l := List.mem_cons_self
    exact ends_bind.2 ((ends_writeTable_refused (some first here) closed (suit first here)
      (free first here)).imp fun _ _ => False.elim)

end

/-- Records have a table exactly if they tell parameters of their kind with its types.  The table
has a row for each record, of the type that its columns tell, and no array of a record is cut short.
So where nothing is, the tables are made and hold their rows, unless the archive is closed or
something is in the way of the group. -/
theorem tables_fit :
    (∀ path k records, (∃ t, ParamTable.build path k records = .ok t) ↔
      ∀ r ∈ records, ∀ name v, r.get? name = some v → ⟨name, v.type⟩ ∈ k.fields) ∧
    (∀ path k records t, ParamTable.build path k records = .ok t →
      (∀ r ∈ records, r.Countable) →
      t.rows.length = records.length ∧ (∀ v ∈ t.rows, v.conforms (.compound t.fields)) ∧
      ∀ (i : Nat) r name v, records[i]? = some r → r.get? name = some v → v.type.isArray →
        ∃ items, t.cell? i name = some (.array items) ∧ v.data <+: items) ∧
    ∀ (a : Archive) (group : Path) (p : VariableParameters), a.Standing →
      (∀ k ∈ p.kinds, ∀ r ∈ p.records k, r.Suits k ∧ r.Countable) →
      (∀ k ∈ p.kinds, a.contains (group.join k.name) = false) →
      Ends (p.kinds.forM (Recording.writeTable group p)) a
        (fun _ a' => ∀ k ∈ p.kinds, ∃ t,
          ParamTable.build (group.join k.name) k (p.records k) = .ok t ∧
            a'.HoldsTable (group.join k.name) t)
        (fun e _ => e = a.container.closedError ∨ Obstructed group e) := by
  refine ⟨fun path k records => ParamTable.exists_build_iff, ?_, ?_⟩
  · intro path k records t built countable
    refine ⟨ParamTable.length_rows built, fun v => ParamTable.conforms_of_mem built countable, ?_⟩
    intro i r name v told value array
    exact ⟨_, ParamTable.cell?_array built told value array, List.prefix_append _ _⟩
  · intro a group p standing fit free
    have suit (k : VariableKind) (kind : k ∈ p.kinds) (r : ParamRecord) (mem : r ∈ p.records k) :=
      (fit k kind r mem).1
    have countable (k : VariableKind) (kind : k ∈ p.kinds) (r : ParamRecord)
        (mem : r ∈ p.records k) := (fit k kind r mem).2
    rcases standing.container.ready_or_closed with ready | closed
    · refine (ends_tables_free ⟨ready, standing.handles⟩ p.nodup_kinds (fun k => p.records_ne_nil)
        suit countable free).mono ?_ fun _ _ => .inr
      intro _ _ h
      exact h.2
    · refine (ends_tables_refused (fun k => p.records_ne_nil) closed suit free).mono ?_
        fun _ _ => .inl
      intro _ _ none k kind
      rw [none] at kind
      cases kind

/-- One record with arrays of different lengths. -/
def unevenParameters : VariableParameters := ⟨[(.discreteUncertainSetInt, ParamTable.uneven)]⟩

theorem kinds_uneven : unevenParameters.kinds = [.discreteUncertainSetInt] := by decide +kernel

theorem build_uneven : ParamTable.build .root .discreteUncertainSetInt [ParamTable.uneven] =
    .ok ParamTable.unevenTable := by
  decide +kernel

theorem fit_uneven : ∀ k ∈ unevenParameters.kinds, ∀ r ∈ unevenParameters.records k,
    r.Suits k ∧ r.Countable := by
  intro k kind r mem
  rw [kinds_uneven, List.mem_singleton] at kind
  subst kind
  obtain rfl := List.mem_singleton.1 mem
  constructor
  · exact ParamTable.exists_build_iff.1 ⟨_, build_uneven⟩ _ List.mem_cons_self
  · unfold ParamRecord.Countable
    decide +kernel

theorem tables_fit_of_uneven : ∃ a a' : Archive, (openFile default {} default).result = .ok a ∧
    unevenParameters.kinds.forM (Recording.writeTable .root unevenParameters) a = .ok () a' ∧
    (∃ t, ParamTable.build .root .discreteUncertainSetInt [ParamTable.uneven] = .ok t) ∧
    (∀ v ∈ ParamTable.unevenTable.rows, v.conforms (.compound ParamTable.unevenTable.fields)) ∧
    ∃ t, ParamTable.build (Path.root.join "discrete_uncertain_set_int") .discreteUncertainSetInt
        [ParamTable.uneven] = .ok t ∧
      a'.HoldsTable (Path.root.join "discrete_uncertain_set_int") t := by
  have ready : (openFile default {} default).result.toOption.any (fun a =>
      a.contains (Path.root.join "discrete_uncertain_set_int") = false &&
      (okState? (unevenParameters.kinds.forM (Recording.writeTable .root unevenParameters)
        a)).isSome) := by decide +kernel
  obtain ⟨a, opened, ready⟩ := (Option.any_eq_true ..).1 ready
  have opened := eq_ok_of_toOption opened
  simp only [Bool.and_eq_true, decide_eq_true_eq] at ready
  obtain ⟨free, returns⟩ := ready
  obtain ⟨a', returns⟩ := Option.isSome_iff_exists.1 returns
  obtain ⟨_, ran⟩ := exists_ok_of_okState? returns
  have kind : VariableKind.discreteUncertainSetInt ∈ unevenParameters.kinds := by
    rw [kinds_uneven]
    exact List.mem_cons_self
  have only (r : ParamRecord) (mem : r ∈ [ParamTable.uneven]) :=
    fit_uneven .discreteUncertainSetInt kind r mem
  have none (k : VariableKind) (kind : k ∈ unevenParameters.kinds) :
      a.contains (Path.root.join k.name) = false := by
    rw [kinds_uneven, List.mem_singleton] at kind
    subst kind
    exact free
  obtain ⟨laysOut, fits, stores⟩ := tables_fit
  refine ⟨a, a', opened, ran, ?_, ?_, ?_⟩
  · exact (laysOut _ _ _).2 fun r mem => (only r mem).1
  · exact (fits _ _ _ _ build_uneven fun r mem => (only r mem).2).2.1
  · exact (stores a .root unevenParameters (standing_of_openFile opened) fit_uneven
      none).good_of_eq ran .discreteUncertainSetInt kind

/-! ## What becomes of older tables

The list has the length that it was made with.  Fewer rows leave the last old ones where they are,
and more do not fit. -/

/-- What is robust is true after a table was stored, whatever came of it. -/
theorem preserves_writeTable {I : Archive → Prop} (robust : Robust I) :
    Preserves I (Recording.writeTable group p k) := by
  have writes (t : ParamTable) :
      Preserves I (writeRecords (group.join k.name) t.rows) :=
    TypedWrite.preserves_run robust (.writeRecords _ _)
  have makes (t : ParamTable) :
      Preserves I (createCompound (group.join k.name) [t.rows.length] t.fields) :=
    Call.preserves_run robust (.createCompound _ _ _)
  refine .bind (.liftExcept _) fun t => .get fun a => .ite (writes t) ?_
  exact .bind (makes t) fun _ => writes t

end Archive

namespace Recording

variable {r r' : Recording} {p : Producer} {parameters : VariableParameters} {k : VariableKind}

/-- The group of the tables of a producer's parameters. -/
def parametersGroup (p : Producer) : Path := (p.root.join "properties").join "variable_parameters"

theorem ends_storeParameters_over (standing : r.archive.Standing) (selected : r.store.selects p) :
    Ends (storeParameters p parameters) r
      (fun _ r' => ∀ k ∈ parameters.kinds,
        r'.archive.OwnTable (parametersGroup p) parameters.kinds k →
        ∃ t, ParamTable.build ((parametersGroup p).join k.name) k (parameters.records k) = .ok t ∧
          r'.archive.readRecords ((parametersGroup p).join k.name) = .ok (t.rows ++
            ((r.archive.readRecords ((parametersGroup p).join k.name)).toOption.getD []).drop
              t.rows.length))
      (fun _ _ => True) := by
  unfold storeParameters
  simp only [ends_bind, ends_get]
  refine ends_ite.2 ⟨fun _ => ends_onArchive.2 ?_, fun skipped => ?_⟩
  · rcases standing.container.ready_or_closed with ready | closed
    · exact (Archive.ends_tables ⟨ready, standing.handles⟩ parameters.nodup_kinds
        fun k => parameters.records_ne_nil).imp fun _ _ h => h.2
    · refine (Archive.ends_tables_closed (fun k => parameters.records_ne_nil) closed).imp ?_
      intro _ _ none k kind
      rw [none] at kind
      cases kind
  · refine ends_pure.2 fun k kind => ?_
    rw [selected, parameters.isEmpty_of_mem_kinds kind] at skipped
    exact absurd rfl skipped

/-- What is robust of an archive is true after parameters were stored, whatever came of it. -/
theorem preserves_storeParameters {I : Archive → Prop} (robust : Archive.Robust I) :
    Preserves (fun r => I r.archive) (storeParameters p parameters) := by
  intro r here
  unfold storeParameters
  simp only [ends_bind, ends_get]
  refine ends_ite.2 ⟨fun _ => ends_onArchive.2 ?_, fun _ => ends_pure.2 here⟩
  exact Preserves.forM (fun k => Archive.preserves_writeTable robust) r.archive here

/-- What is stored of a kind's parameters is written over the records that were there; as many of
those as are more than the new ones stay behind them.  So only the new ones are there exactly if
there were no more before. -/
theorem keeps_later_records (standing : r.archive.Standing) (selected : r.store.selects p)
    (stored : storeParameters p parameters r = .ok () r') (kind : k ∈ parameters.kinds)
    (own : r'.archive.OwnTable (parametersGroup p) parameters.kinds k) :
    ∃ t, ParamTable.build ((parametersGroup p).join k.name) k (parameters.records k) = .ok t ∧
      r'.archive.readRecords ((parametersGroup p).join k.name) = .ok (t.rows ++
        ((r.archive.readRecords ((parametersGroup p).join k.name)).toOption.getD []).drop
          (parameters.records k).length) ∧
      (r'.archive.readRecords ((parametersGroup p).join k.name) = .ok t.rows ↔
        ((r.archive.readRecords ((parametersGroup p).join k.name)).toOption.getD []).length ≤
          (parameters.records k).length) := by
  obtain ⟨t, built, read⟩ :=
    (ends_storeParameters_over standing selected).good_of_eq stored k kind own
  rw [ParamTable.length_rows built] at read
  refine ⟨t, built, read, ?_⟩
  rw [← List.drop_eq_nil_iff]
  constructor
  · intro only
    rw [read] at only
    injection only with only
    exact List.append_right_eq_self.1 only
  · intro none
    rw [read, none, List.append_nil]

/-- The rates of exponential variables. -/
def rates (betas : List Binary64) : VariableParameters :=
  ⟨betas.map fun beta => (.exponentialUncertain, (∅ : ParamRecord).insert "beta" (.real beta))⟩

/-- Where the rates of a model lie. -/
def ratesPath : Path := (parametersGroup (.model "s" "m")).join "exponential_uncertain"

/-- A store in which two rates were stored and then one. -/
theorem exists_stored_twice : ∃ r r' : Recording, r.archive.Standing ∧
    r.store.selects (.model "s" "m") = true ∧
    storeParameters (.model "s" "m") (rates [.nan]) r = .ok () r' ∧
    r.archive.readRecords ratesPath =
      .ok [.record [.real .zero], .record [.real .zero]] ∧
    r'.archive.readRecords ratesPath =
      .ok [.record [.real .nan], .record [.real .zero]] := by
  have ready : (started {}).any (fun start =>
      (okState? (storeParameters (.model "s" "m") (rates [.zero, .zero]) start)).any fun r =>
        r.store.selects (.model "s" "m") &&
        (r.archive.readRecords ratesPath).toOption =
          some [.record [.real .zero], .record [.real .zero]] &&
        (okState? (storeParameters (.model "s" "m") (rates [.nan]) r)).any fun r' =>
          (r'.archive.readRecords ratesPath).toOption =
            some [.record [.real .nan], .record [.real .zero]]) := by decide +kernel
  obtain ⟨start, opened, ready⟩ := (Option.any_eq_true ..).1 ready
  obtain ⟨r, first, ready⟩ := (Option.any_eq_true ..).1 ready
  simp only [Bool.and_eq_true, decide_eq_true_eq, Option.any_eq_true] at ready
  obtain ⟨⟨selected, two⟩, r', second, last⟩ := ready
  obtain ⟨_, ran⟩ := exists_ok_of_okState? first
  obtain ⟨_, ran'⟩ := exists_ok_of_okState? second
  obtain ⟨a, fresh, rfl⟩ := Option.map_eq_some_iff.1 opened
  have before := Archive.transparent_of_openFile (eq_ok_of_toOption fresh)
  refine ⟨r, r', ?_, selected, ran', eq_ok_of_toOption two, eq_ok_of_toOption last⟩
  exact ((preserves_storeParameters Archive.robust_transparent _ before).good_of_eq ran).toStanding

/-- The kinds and the table of one rate. -/
theorem rates_nan : (rates [.nan]).kinds = [.exponentialUncertain] ∧
    ParamTable.build ratesPath .exponentialUncertain
      ((rates [.nan]).records .exponentialUncertain) =
        .ok ⟨[⟨"beta", .real, none⟩], [.record [.real .nan]]⟩ := by
  decide +kernel

theorem keeps_later_records_of_rates : ∃ r r' : Recording, r.archive.Standing ∧
    r.store.selects (.model "s" "m") = true ∧
    storeParameters (.model "s" "m") (rates [.nan]) r = .ok () r' ∧
    VariableKind.exponentialUncertain ∈ (rates [.nan]).kinds ∧
    r'.archive.OwnTable (parametersGroup (.model "s" "m")) (rates [.nan]).kinds
      .exponentialUncertain ∧
    ∃ t, ParamTable.build ratesPath .exponentialUncertain
        ((rates [.nan]).records .exponentialUncertain) = .ok t ∧
      r'.archive.readRecords ratesPath = .ok (t.rows ++ [.record [.real .zero]]) ∧
      (r'.archive.readRecords ratesPath = .ok t.rows ↔ 2 ≤ 1) := by
  obtain ⟨r, r', standing, selected, stored, before, -⟩ := exists_stored_twice
  have kind : VariableKind.exponentialUncertain ∈ (rates [.nan]).kinds := by
    rw [rates_nan.1]
    exact List.mem_cons_self
  have own : r'.archive.OwnTable (parametersGroup (.model "s" "m")) (rates [.nan]).kinds
      .exponentialUncertain := by
    intro k mem other
    rw [rates_nan.1, List.mem_singleton] at mem
    exact absurd mem other
  obtain ⟨t, built, read, only⟩ := keeps_later_records standing selected stored kind own
  rw [show (parametersGroup (.model "s" "m")).join VariableKind.exponentialUncertain.name =
    ratesPath from rfl, before] at read only
  exact ⟨r, r', standing, selected, stored, kind, own, t, built, read, only⟩

/-- One rate was stored, and two are read. -/
theorem storing_keeps_a_record : ∃ (r r' : Recording) (t : ParamTable), r.archive.Standing ∧
    r.store.selects (.model "s" "m") = true ∧
    storeParameters (.model "s" "m") (rates [.nan]) r = .ok () r' ∧
    VariableKind.exponentialUncertain ∈ (rates [.nan]).kinds ∧
    ParamTable.build ratesPath .exponentialUncertain
      ((rates [.nan]).records .exponentialUncertain) = .ok t ∧
    r'.archive.readRecords ratesPath = .ok (t.rows ++ [.record [.real .zero]]) ∧
    r'.archive.readRecords ratesPath ≠ .ok t.rows := by
  obtain ⟨r, r', standing, selected, stored, -, after⟩ := exists_stored_twice
  refine ⟨r, r', _, standing, selected, stored, ?_, rates_nan.2, after, ?_⟩
  · rw [rates_nan.1]
    exact List.mem_cons_self
  · rw [after]
    intro same
    injection same with same
    cases same

end Recording
end StudyArchive
