import StudyArchive.Proofs.Evaluation.Calls
/-
# Journals

A journal lists the evaluations that were stored below a producer's group, in the order in which
their inputs came.  An archive agrees with it if each dataset below the group has a row for each
entry, with what the entry says (`Archive.Agrees`).  Making datasets leaves it so, appending inputs
adds an entry (`Agrees.appended`), and writing a response answers one (`Agrees.answered`).
-/

namespace StudyArchive

open Dataset (Appended Touched Keeps SameRows)

/-- An evaluation whose inputs were stored, with its response once that was stored. -/
structure JournalEntry where
  producer : Producer
  schema : EvaluationSchema
  inputs : EvaluationInputs
  response : Option Response

namespace JournalEntry

variable {e : JournalEntry} {part : EvaluationPart} {i : Nat} {d d' : Dataset}

/-- The entry with a response, if the response is to its evaluation. -/
def answer (p : Producer) (id : UInt64) (r : Response) (e : JournalEntry) : JournalEntry :=
  if e.producer = p ∧ e.inputs.id = id then { e with response := some r } else e

@[simp] theorem producer_answer (p : Producer) (id : UInt64) (r : Response) :
    (e.answer p id r).producer = e.producer := by
  unfold answer
  split <;> rfl

@[simp] theorem schema_answer (p : Producer) (id : UInt64) (r : Response) :
    (e.answer p id r).schema = e.schema := by
  unfold answer
  split <;> rfl

@[simp] theorem inputs_answer (p : Producer) (id : UInt64) (r : Response) :
    (e.answer p id r).inputs = e.inputs := by
  unfold answer
  split <;> rfl

/-- A row of a part holds what an entry says: its inputs, and where responses go the fill until its
response was stored. -/
structure InRow (e : JournalEntry) (part : EvaluationPart) (i : Nat) (d : Dataset) : Prop where
  inputs : part ∉ EvaluationPart.answered → d.row i = part.inputRow e.schema e.inputs
  fill : part ∈ EvaluationPart.answered → e.response = none →
    d.row i = List.replicate (volume d.dims.tail) part.fill
  response : ∀ r, e.response = some r →
    part.Answers e.schema r fun index => d.cell (i :: index)

/-- What a row holds stays so as long as the row is kept. -/
theorem InRow.keeps (h : e.InRow part i d) {shape : List Nat} {n : Nat}
    (has : part.shape? e.schema = some shape) (dims : d.dims = n :: shape) (kept : Keeps d i d') :
    e.InRow part i d' := by
  refine ⟨fun out => kept.row.trans (h.inputs out), fun mem none => ?_, fun r some_ => ?_⟩
  · rw [kept.alike.tail, kept.row]
    exact h.fill mem none
  · refine (h.response r some_).congr has fun index inside => ?_
    exact Dataset.cell_eq_of_row dims (kept.dims_eq dims) kept.row inside

/-- The row that inputs were appended to holds their entry. -/
theorem inRow_of_appended {p : Producer} {s : EvaluationSchema} {x : EvaluationInputs}
    (has : part.shape? s = some d.dims.tail) (grown : Appended d (part.inputRow s x) d') :
    InRow ⟨p, s, x, none⟩ part d.rows d' := by
  refine ⟨fun _ => grown.new, fun mem _ => ?_, fun r some_ => by cases some_⟩
  rw [grown.new, grown.alike.tail]
  exact EvaluationPart.inputRow_of_mem_answered mem has

/-- The row that a response was written into holds the entry with the response. -/
theorem InRow.answered {r : Response} (h : e.InRow part i d)
    (has : (part.shape? e.schema).isSome) (changed : part.AnsweredIf e.schema r i d d') :
    (e.answer e.producer e.inputs.id r).InRow part i d' := by
  have response : (e.answer e.producer e.inputs.id r).response = some r := by
    simp [answer]
  by_cases goes : part ∈ EvaluationPart.answered
  · rw [EvaluationPart.AnsweredIf, if_pos ⟨goes, has⟩] at changed
    refine ⟨fun out => absurd goes out, fun _ none => ?_, fun r' some_ => ?_⟩
    · cases response.symm.trans none
    · obtain rfl := Option.some.inj (response.symm.trans some_)
      rw [schema_answer]
      exact changed.answers
  · rw [EvaluationPart.AnsweredIf, if_neg fun both => goes both.1] at changed
    subst changed
    refine ⟨fun _ => ?_, fun mem => absurd mem goes, fun r' _ => ?_⟩
    · rw [schema_answer, inputs_answer]
      exact h.inputs goes
    · exact EvaluationPart.answers_of_not_mem goes

end JournalEntry

namespace Archive

variable {a a' : Archive} {p : Producer} {root : Path} {owner : Option Path}
  {entries : List JournalEntry}

/-- Below a producer's group, each dataset has a row for each entry, and the shape that the entry's
schema gives it, and the row holds what the entry says. -/
structure Agrees (a : Archive) (root : Path) (entries : List JournalEntry) : Prop where
  owners : ∀ e ∈ entries, e.producer.root = root
  extents : ∀ (part : EvaluationPart) d, a.at? (part.path root) = some d → d.rows = entries.length
  dims : ∀ e ∈ entries, ∀ part : EvaluationPart, (a.at? (part.path root)).map Dataset.dims =
    (part.shape? e.schema).map (entries.length :: ·)
  rows : ∀ i (e : JournalEntry), entries[i]? = some e → ∀ (part : EvaluationPart) d,
    a.at? (part.path root) = some d → e.InRow part i d

theorem Agrees.dims_eq (h : a.Agrees root entries) {e : JournalEntry} (mem : e ∈ entries)
    {part : EvaluationPart} {d : Dataset} (found : a.at? (part.path root) = some d) :
    ∃ shape, part.shape? e.schema = some shape ∧ d.dims = entries.length :: shape := by
  have eq := h.dims e mem part
  rw [found] at eq
  obtain ⟨shape, has, eq⟩ := Option.map_eq_some_iff.1 eq.symm
  exact ⟨shape, has, eq.symm⟩

/-- Where there are entries, there is a column of their identifiers. -/
theorem Agrees.exists_ids (h : a.Agrees root entries) {e : JournalEntry} (mem : e ∈ entries) :
    ∃ d, a.at? (EvaluationPart.ids.path root) = some d := by
  obtain ⟨d, found, -⟩ := Option.map_eq_some_iff.1 (h.dims e mem .ids)
  exact ⟨d, found⟩

/-- The entries of an archive's datasets are those of datasets with the same data; new datasets
have no rows, and come before the first entry only. -/
theorem Agrees.same (h : a.Agrees root entries)
    (kept : ∀ (part : EvaluationPart) d, a.at? (part.path root) = some d →
      ∃ d', a'.at? (part.path root) = some d' ∧ SameRows d d')
    (made : ∀ (part : EvaluationPart) d', a'.at? (part.path root) = some d' →
      (∃ d, a.at? (part.path root) = some d) ∨ entries = [] ∧ d'.rows = 0) :
    a'.Agrees root entries := by
  have old {part : EvaluationPart} {d' : Dataset} (found : a'.at? (part.path root) = some d') :
      (∃ d, a.at? (part.path root) = some d ∧ SameRows d d') ∨ entries = [] ∧ d'.rows = 0 := by
    rcases made part d' found with ⟨d, there⟩ | none
    · obtain ⟨d₁, found₁, same⟩ := kept part d there
      obtain rfl := Option.some.inj (found.symm.trans found₁)
      exact .inl ⟨d, there, same⟩
    · exact .inr none
  refine ⟨h.owners, fun part d' found => ?_, fun e mem part => ?_, fun i e at_ part d' found => ?_⟩
  · rcases old found with ⟨d, there, same⟩ | ⟨rfl, empty⟩
    · rw [← h.extents part d there, Dataset.rows, Dataset.rows, same.dims]
    · exact empty
  · rw [← h.dims e mem part]
    cases there : a.at? (part.path root) with
    | some d =>
      obtain ⟨d', found, same⟩ := kept part d there
      rw [found, Option.map_some, Option.map_some, same.dims]
    | none =>
      cases found : a'.at? (part.path root) with
      | none => rfl
      | some d' =>
        rcases old found with ⟨d, there', -⟩ | ⟨rfl, -⟩
        · cases there.symm.trans there'
        · cases mem
  · have mem := List.mem_of_getElem? at_
    rcases old found with ⟨d, there, same⟩ | ⟨rfl, -⟩
    · obtain ⟨shape, has, dims⟩ := h.dims_eq mem there
      exact (h.rows i e at_ part d there).keeps has dims (same.keeps i)
    · cases mem

/-- Where nothing changed, the entries are the same. -/
theorem Agrees.of_at (h : a.Agrees root entries)
    (same : ∀ part : EvaluationPart, a'.at? (part.path root) = a.at? (part.path root)) :
    a'.Agrees root entries :=
  h.same (fun part d found => ⟨d, (same part).trans found, .refl d⟩)
    fun part d found => .inl ⟨d, (same part).symm.trans found⟩

theorem Agrees.built (h : a.Agrees root entries) (hr : IsProducerRoot root)
    (built : Built owner a a')
    (absent : ∀ root, owner = some root → a.at? (EvaluationPart.ids.path root) = none) :
    a'.Agrees root entries := by
  refine h.same (fun part d found => built.kept hr found) fun part d' found => ?_
  rcases built.made hr found with old | ⟨own, empty⟩
  · exact .inl old
  · refine .inr ⟨List.eq_nil_iff_forall_not_mem.2 fun e mem => ?_, empty⟩
    obtain ⟨d, there⟩ := h.exists_ids mem
    cases (absent root own).symm.trans there

/-- A part that is there after a change was there before. -/
theorem Reworked.old {change : PartChange} (h : Reworked root change a a') (laid : a.LaidOut)
    {part : EvaluationPart} {d' : Dataset} (found : a'.at? (part.path root) = some d') :
    ∃ d, a.at? (part.path root) = some d ∧ change part d d' := by
  cases there : a.at? (part.path root) with
  | none => cases (h.none laid there).symm.trans found
  | some d =>
    obtain ⟨d₁, found₁, changed⟩ := h.parts part d there
    obtain rfl := Option.some.inj (found.symm.trans found₁)
    exact ⟨d, rfl, changed⟩

/-- What a change makes of each dataset, it makes of what is there. -/
theorem Reworked.map_eq {change : PartChange} {α : Type} {f f' : Dataset → α}
    (h : Reworked root change a a') (laid : a.LaidOut) (part : EvaluationPart)
    (eq : ∀ d d', change part d d' → f' d' = f d) :
    (a'.at? (part.path root)).map f' = (a.at? (part.path root)).map f := by
  cases there : a.at? (part.path root) with
  | none => rw [h.none laid there, Option.map_none, Option.map_none]
  | some d =>
    obtain ⟨d', found, changed⟩ := h.parts part d there
    rw [found, Option.map_some, Option.map_some, eq d d' changed]

theorem Agrees.appended {s : EvaluationSchema} {x : EvaluationInputs} {n : Nat}
    (h : a.Agrees p.root entries) (laid : a.LaidOut)
    (dims : ∀ part : EvaluationPart,
      (a.at? (part.path p.root)).map Dataset.dims = (part.shape? s).map (n :: ·))
    (appended : Reworked p.root (fun part d d' => Appended d (part.inputRow s x) d') a a') :
    a'.Agrees p.root (entries ++ [⟨p, s, x, none⟩]) := by
  obtain rfl : n = entries.length := by
    obtain ⟨d, there, eq⟩ := Option.map_eq_some_iff.1 (dims .ids)
    rw [← h.extents .ids d there, Dataset.rows, eq]
    rfl
  have more (part : EvaluationPart) {shape : Option (List Nat)}
      (eq : (a.at? (part.path p.root)).map Dataset.dims = shape.map (entries.length :: ·)) :
      (a'.at? (part.path p.root)).map Dataset.dims = shape.map ((entries.length + 1) :: ·) := by
    rw [appended.map_eq laid part (f := fun d => (d.rows + 1) :: d.dims.tail) fun _ _ h => h.dims]
    cases there : a.at? (part.path p.root) <;> cases shape <;> simp_all [Dataset.rows]
  have length (e : JournalEntry) : (entries ++ [e]).length = entries.length + 1 :=
    List.length_append
  refine ⟨fun e mem => ?_, fun part d' found => ?_, fun e mem part => ?_,
    fun i e at_ part d' found => ?_⟩
  · rcases List.mem_append.1 mem with mem | mem
    · exact h.owners e mem
    · rw [List.mem_singleton.1 mem]
  · obtain ⟨d, there, grown⟩ := appended.old laid found
    rw [length, grown.rows, h.extents part d there]
  · rw [length]
    rcases List.mem_append.1 mem with mem | mem
    · exact more part (h.dims e mem part)
    · rw [List.mem_singleton.1 mem]
      exact more part (dims part)
  · obtain ⟨d, there, grown⟩ := appended.old laid found
    have rows := h.extents part d there
    rcases Nat.lt_or_ge i entries.length with low | high
    · rw [List.getElem?_append_left low] at at_
      obtain ⟨shape, has, eq⟩ := h.dims_eq (List.mem_of_getElem? at_) there
      exact (h.rows i e at_ part d there).keeps has eq (grown.onward.keeps (rows ▸ low))
    · rw [List.getElem?_append_right high, List.getElem?_singleton] at at_
      split at at_
      · next last =>
        cases at_
        obtain rfl : i = d.rows := by omega
        have eq := dims part
        rw [there] at eq
        obtain ⟨shape, has, eq⟩ := Option.map_eq_some_iff.1 eq.symm
        refine JournalEntry.inRow_of_appended ?_ grown
        rw [has, ← eq, List.tail_cons]
      · cases at_

theorem Agrees.answered {r : Response} {i : Nat} {e : JournalEntry}
    (h : a.Agrees root entries) (laid : a.LaidOut) (at_ : entries[i]? = some e)
    (answered : Reworked root (EvaluationPart.AnsweredIf e.schema r i) a a') :
    a'.Agrees root (entries.modify i (·.answer e.producer e.inputs.id r)) := by
  have old {k : Nat} {e₁ : JournalEntry}
      (at₁ : (entries.modify i (·.answer e.producer e.inputs.id r))[k]? = some e₁) :
      ∃ e₀, entries[k]? = some e₀ ∧
        e₁ = if i = k then e₀.answer e.producer e.inputs.id r else e₀ := by
    rw [List.getElem?_modify] at at₁
    obtain ⟨e₀, at₀, eq⟩ := Option.map_eq_some_iff.1 at₁
    exact ⟨e₀, at₀, eq.symm⟩
  have touched {part : EvaluationPart} {d d' : Dataset}
      (h : part.AnsweredIf e.schema r i d d') : Touched d i d' := h.touched
  refine ⟨fun e₁ mem => ?_, fun part d' found => ?_, fun e₁ mem part => ?_,
    fun k e₁ at₁ part d' found => ?_⟩
  · obtain ⟨k, at₁⟩ := List.getElem?_of_mem mem
    obtain ⟨e₀, at₀, rfl⟩ := old at₁
    have own := h.owners e₀ (List.mem_of_getElem? at₀)
    split <;> simpa using own
  · obtain ⟨d, there, changed⟩ := answered.old laid found
    rw [List.length_modify, ← h.extents part d there, Dataset.rows, Dataset.rows,
      (touched changed).dims]
  · obtain ⟨k, at₁⟩ := List.getElem?_of_mem mem
    obtain ⟨e₀, at₀, rfl⟩ := old at₁
    rw [answered.map_eq laid part fun _ _ h => (touched h).dims, List.length_modify,
      h.dims e₀ (List.mem_of_getElem? at₀) part]
    split <;> simp
  · obtain ⟨d, there, changed⟩ := answered.old laid found
    obtain ⟨e₀, at₀, rfl⟩ := old at₁
    obtain ⟨shape, has, dims⟩ := h.dims_eq (List.mem_of_getElem? at₀) there
    have before := h.rows k e₀ at₀ part d there
    by_cases here : i = k
    · subst here
      obtain rfl := Option.some.inj (at_.symm.trans at₀)
      rw [if_pos rfl]
      exact before.answered (by rw [has]; rfl) changed
    · rw [if_neg here]
      exact before.keeps has dims ((touched changed).keeps (Ne.symm here))

end Archive
end StudyArchive
