import StudyArchive.Proofs.Archive.Throughout
import StudyArchive.Proofs.Evaluation.Underway
/-
# What the log remembers of evaluations

An evaluation's inputs are appended part by part, and a part takes two records: one for the row, one
for its data.  So the log of a run may be cut after the row and before the data, in each part.
Throughout the log, a row of a part holds the inputs of its entry in the journal or is the last one
of its part, still at the fill; and then no part that comes later has such a row
(`Tree.Tells`).  One call keeps it so (`Recording.Agrees.remembers_onTheWay`), and so does a run.
-/

namespace StudyArchive

open Dataset (Appended Onward)

/-! ## Journals that go on

An entry stays in its place and keeps its inputs; only its response may come. -/

/-- Entries that stay in their places, with their schemas and inputs. -/
def JournalEntry.Continue (entries entries' : List JournalEntry) : Prop :=
  ∀ (i : Nat) (e : JournalEntry), entries[i]? = some e →
    ∃ e' : JournalEntry, entries'[i]? = some e' ∧ e'.schema = e.schema ∧ e'.inputs = e.inputs

theorem JournalEntry.Continue.refl (entries : List JournalEntry) : Continue entries entries :=
  fun _ e at_ => ⟨e, at_, rfl, rfl⟩

theorem JournalEntry.continue_append (entries more : List JournalEntry) :
    Continue entries (entries ++ more) := by
  intro i e at_
  refine ⟨e, ?_, rfl, rfl⟩
  rw [List.getElem?_append_left (List.getElem?_eq_some_iff.1 at_).1, at_]

theorem JournalEntry.continue_answer (entries : List JournalEntry) (i : Nat) (p : Producer)
    (id : UInt64) (r : Response) : Continue entries (entries.modify i (·.answer p id r)) := by
  intro k e at_
  rw [List.getElem?_modify, at_]
  refine ⟨_, rfl, ?_, ?_⟩ <;> split <;> simp

namespace Journal

variable {j : Journal} {r r' : Recording}

theorem continue_update {root : Path} {entries : List JournalEntry}
    (h : JournalEntry.Continue (j root) entries) (root' : Path) :
    JournalEntry.Continue (j root') (Function.update j root entries root') := by
  by_cases own : root' = root
  · rw [own, Function.update_self]
    exact h
  · rw [Function.update_of_ne own]
    exact .refl _

/-- A call adds to the journal and changes no inputs in it. -/
theorem continue_note (c : StoreCall) (root : Path) :
    JournalEntry.Continue (j root) (j.note r r' c root) := by
  cases c with
  | storeVariables p x =>
    simp only [note]
    cases storedBy? r r' p with
    | some s => exact continue_update (JournalEntry.continue_append _ _) root
    | none => exact .refl _
  | storeResponse p id response =>
    simp only [note]
    cases storedAt? r r' p id response with
    | some i => exact continue_update (JournalEntry.continue_answer _ _ _ _ _) root
    | none => exact .refl _
  | _ => exact .refl _

/-- The inputs in a journal are those that calls stored. -/
theorem stored_of_mem_note {c : StoreCall} {root : Path} {e : JournalEntry}
    (mem : e ∈ j.note r r' c root) :
    (∃ e₀ ∈ j root, e₀.producer = e.producer ∧ e₀.inputs = e.inputs) ∨
      c = .storeVariables e.producer e.inputs := by
  -- A note changes the entries of one root only.
  have kept {root' : Path} {entries : List JournalEntry}
      (new : ∀ e ∈ entries, (∃ e₀ ∈ j root', e₀.producer = e.producer ∧ e₀.inputs = e.inputs) ∨
        c = .storeVariables e.producer e.inputs)
      (mem : e ∈ Function.update j root' entries root) :
      (∃ e₀ ∈ j root, e₀.producer = e.producer ∧ e₀.inputs = e.inputs) ∨
        c = .storeVariables e.producer e.inputs := by
    by_cases own : root = root'
    · subst own
      rw [Function.update_self] at mem
      exact new e mem
    · rw [Function.update_of_ne own] at mem
      exact .inl ⟨e, mem, rfl, rfl⟩
  cases c with
  | storeVariables p x =>
    simp only [note] at mem ⊢
    cases stored : storedBy? r r' p with
    | none =>
      rw [stored] at mem
      exact .inl ⟨e, mem, rfl, rfl⟩
    | some s =>
      rw [stored] at mem
      refine kept (fun e mem => ?_) mem
      rcases List.mem_append.1 mem with mem | mem
      · exact .inl ⟨e, mem, rfl, rfl⟩
      · rw [List.mem_singleton.1 mem]
        exact .inr rfl
  | storeResponse p id response =>
    simp only [note] at mem
    cases stored : storedAt? r r' p id response with
    | none =>
      rw [stored] at mem
      exact .inl ⟨e, mem, rfl, rfl⟩
    | some i =>
      rw [stored] at mem
      refine kept (fun e mem => .inl ?_) mem
      obtain ⟨k, at_⟩ := List.getElem?_of_mem mem
      rw [List.getElem?_modify] at at_
      obtain ⟨e₀, at₀, rfl⟩ := Option.map_eq_some_iff.1 at_
      refine ⟨e₀, List.mem_of_getElem? at₀, ?_, ?_⟩ <;> split <;> simp
  | _ => exact .inl ⟨e, mem, rfl, rfl⟩

theorem stored_of_mem_afterAll {calls : List StoreCall} {root : Path} {e : JournalEntry}
    (mem : e ∈ afterAll r j calls root) :
    (∃ e₀ ∈ j root, e₀.producer = e.producer ∧ e₀.inputs = e.inputs) ∨
      .storeVariables e.producer e.inputs ∈ calls := by
  induction calls generalizing r j with
  | nil => exact .inl ⟨e, mem, rfl, rfl⟩
  | cons c calls ih =>
    rcases ih mem with ⟨e₁, mem₁, producer, inputs⟩ | later
    · rcases stored_of_mem_note mem₁ with ⟨e₀, mem₀, producer', inputs'⟩ | here
      · exact .inl ⟨e₀, mem₀, producer'.trans producer, inputs'.trans inputs⟩
      · rw [producer, inputs] at here
        exact .inr (here ▸ List.mem_cons_self ..)
    · exact .inr (List.mem_cons_of_mem _ later)

end Journal

/-! ## What a tree says of entries -/

namespace Tree

/-- A last row whose data are not there yet: it is at the fill, and no part that is appended to
later has it. -/
structure Unwritten (t : Tree) (root : Path) (part : EvaluationPart) (d : Dataset) (i : Nat) :
    Prop where
  last : i + 1 = d.rows
  fill : d.row i = List.replicate (volume d.dims.tail) part.fill
  later : ∃ before after, before ++ part :: after = EvaluationPart.appended ∧
    ∀ other ∈ after, ∀ d', t.at? (other.path root) = some d' → d'.rows ≤ i

/-- Below a producer's group, each row belongs to the entry at its place, and holds its inputs
unless it is unwritten.  Where an identifier has its row, all parts of the schema are there. -/
structure Tells (t : Tree) (root : Path) (entries : List JournalEntry) : Prop where
  rows : ∀ (part : EvaluationPart) d, t.at? (part.path root) = some d → ∀ i < d.rows,
    ∃ e, entries[i]? = some e ∧ part.shape? e.schema = some d.dims.tail ∧
      (part ∉ EvaluationPart.answered →
        d.row i = part.inputRow e.schema e.inputs ∨ t.Unwritten root part d i)
  whole : ∀ d, t.at? (EvaluationPart.ids.path root) = some d → ∀ i < d.rows,
    ∀ e, entries[i]? = some e → ∀ part : EvaluationPart, part.shape? e.schema ≠ none →
      ∃ d', t.at? (part.path root) = some d'

/-- A tree that is laid out for evaluations and says of them what a journal says. -/
structure Remembers (t : Tree) (j : Journal) : Prop where
  laidOut : t.IsLaidOut
  tells : ∀ root, IsProducerRoot root → t.Tells root (j root)

variable {t : Tree} {root : Path} {entries entries' : List JournalEntry} {j j' : Journal}

theorem Tells.mono (h : t.Tells root entries) (goes : JournalEntry.Continue entries entries') :
    t.Tells root entries' where
  rows part d found i low := by
    obtain ⟨e, at_, has, held⟩ := h.rows part d found i low
    obtain ⟨e', at', schema, inputs⟩ := goes i e at_
    exact ⟨e', at', schema ▸ has, schema ▸ inputs ▸ held⟩
  whole d found i low e' at' part has := by
    obtain ⟨e, at_, -⟩ := h.rows .ids d found i low
    obtain ⟨e'', at'', schema, -⟩ := goes i e at_
    obtain rfl := Option.some.inj (at'.symm.trans at'')
    exact h.whole d found i low e at_ part (schema ▸ has)

theorem Remembers.mono (h : t.Remembers j)
    (goes : ∀ root, JournalEntry.Continue (j root) (j' root)) : t.Remembers j' :=
  ⟨h.laidOut, fun root hr => (h.tells root hr).mono (goes root)⟩

theorem IsBare.remembers (bare : t.IsBare) (j : Journal) : t.Remembers j where
  laidOut := bare.isLaidOut
  tells root _ := by
    have absent (part : EvaluationPart) : t.at? (part.path root) = none :=
      at?_of_absent (bare.rest _ (part.path_ne_root root))
    refine ⟨fun part d found => ?_, fun d found => ?_⟩ <;>
      cases (absent _).symm.trans found

end Tree

/-! ## On the way of a call

A call cut short has appended the parts up to one, and perhaps a row of the next one that is still
at the fill. -/

namespace Archive

variable {a b : Archive} {root : Path} {entries : List JournalEntry}

/-- An archive with the rows of one that agrees with a journal, as far as inputs go. -/
theorem Agrees.tells_of (h : a.Agrees root entries)
    (old : ∀ (part : EvaluationPart) d', b.at? (part.path root) = some d' →
      ∃ d, a.at? (part.path root) = some d ∧ d'.dims = d.dims ∧
        (part ∉ EvaluationPart.answered → ∀ i, d'.row i = d.row i))
    (kept : ∀ (part : EvaluationPart) d, a.at? (part.path root) = some d →
      ∃ d', b.at? (part.path root) = some d') : b.tree.Tells root entries where
  rows part d' found i low := by
    obtain ⟨d, there, dims, same⟩ := old part d' found
    have rows : d'.rows = entries.length := by
      rw [← h.extents part d there, Dataset.rows, dims]
      rfl
    obtain ⟨e, at_⟩ : ∃ e, entries[i]? = some e :=
      ⟨_, List.getElem?_eq_getElem (rows ▸ low)⟩
    obtain ⟨shape, has, eq⟩ := h.dims_eq (List.mem_of_getElem? at_) there
    refine ⟨e, at_, ?_, fun out => .inl ?_⟩
    · rw [has, dims, eq, List.tail_cons]
    · rw [same out, (h.rows i e at_ part d there).inputs out]
  whole d _ i _ e at_ part has := by
    obtain ⟨shape, has⟩ := Option.ne_none_iff_exists'.1 has
    have eq := h.dims e (List.mem_of_getElem? at_) part
    rw [has] at eq
    obtain ⟨d, there, -⟩ := Option.map_eq_some_iff.1 eq
    exact kept part d there

theorem Agrees.tells (h : a.Agrees root entries) : a.tree.Tells root entries :=
  h.tells_of (fun _ d found => ⟨d, found, rfl, fun _ _ => rfl⟩) fun _ d found => ⟨d, found⟩

/-- While inputs are appended, a part is at most one row ahead; the new row holds the inputs, or it
is unwritten, if it is the one at work. -/
theorem InputsSoFar.rows {s : EvaluationSchema} {x : EvaluationInputs} {n : Nat}
    (soFar : InputsSoFar root s x a b) (laid : a.LaidOut) (hr : IsProducerRoot root)
    (rows : ∀ (part : EvaluationPart) d, a.at? (part.path root) = some d → d.rows = n)
    {part : EvaluationPart} {d' : Dataset} (found : b.at? (part.path root) = some d') :
    ∃ d, a.at? (part.path root) = some d ∧ Onward d d' ∧ ∀ i < d'.rows, n ≤ i →
      i = n ∧ (d'.row i = part.inputRow s x ∨ b.tree.Unwritten root part d' i) := by
  obtain ⟨done, here, rest, split, reworked⟩ := soFar
  -- The parts after the one at work do not have the new row.
  have later {other : EvaluationPart} (mem : other ∈ rest) {d' : Dataset}
      (found : b.at? (other.path root) = some d') : d'.rows ≤ n := by
    have nodup := EvaluationPart.nodup_appended
    rw [← split, List.nodup_append', List.nodup_cons] at nodup
    obtain ⟨-, ⟨fresh, -⟩, apart⟩ := nodup
    obtain ⟨d, there, changed⟩ := reworked.old laid found
    rw [if_neg fun before => apart before (List.mem_cons_of_mem _ mem),
      if_neg fun same : other = here => fresh (same ▸ mem)] at changed
    rw [changed]
    exact Nat.le_of_eq (rows other d there)
  obtain ⟨d, there, changed⟩ := reworked.old laid found
  have last {values : List Datum} (grown : Appended d values d') {i : Nat} (low : i < d'.rows)
      (new : n ≤ i) : i = n := by
    rw [grown.rows, rows part d there] at low
    omega
  have filled {values : List Datum} (grown : Appended d values d') : d'.row n = values := by
    rw [← rows part d there, grown.new]
  split at changed
  · exact ⟨d, there, changed.onward, fun i low new =>
      ⟨last changed low new, .inl (last changed low new ▸ filled changed)⟩⟩
  · split at changed
    · next same =>
      subst same
      rcases changed with grown | grown
      · refine ⟨d, there, grown.onward, fun i low new => ?_⟩
        obtain rfl := last grown low new
        refine ⟨rfl, .inr ⟨?_, ?_, done, rest, split, fun other mem d₂ => later mem⟩⟩
        · rw [grown.rows, rows part d there]
        · rw [filled grown, grown.alike.tail, (laid.fits hr there).fill]
      · exact ⟨d, there, grown.onward, fun i low new =>
          ⟨last grown low new, .inl (last grown low new ▸ filled grown)⟩⟩
    · subst changed
      refine ⟨d', there, .refl d', fun i low new => ?_⟩
      rw [rows part d' there] at low
      omega

/-- While inputs are appended, the rows belong to the entries and to one more. -/
theorem Agrees.tells_inputsSoFar {p : Producer} {s : EvaluationSchema} {x : EvaluationInputs}
    {n : Nat} (h : a.Agrees p.root entries) (laid : a.LaidOut) (hr : IsProducerRoot p.root)
    (dims : ∀ part : EvaluationPart,
      (a.at? (part.path p.root)).map Dataset.dims = (part.shape? s).map (n :: ·))
    (soFar : InputsSoFar p.root s x a b) :
    b.tree.Tells p.root (entries ++ [⟨p, s, x, none⟩]) where
  rows part d' found i low := by
    obtain ⟨d, there, kept, new⟩ := soFar.rows laid hr h.extents found
    rcases Nat.lt_or_ge i entries.length with old | high
    · obtain ⟨e, at_⟩ : ∃ e, entries[i]? = some e := ⟨_, List.getElem?_eq_getElem old⟩
      obtain ⟨shape, has, eq⟩ := h.dims_eq (List.mem_of_getElem? at_) there
      refine ⟨e, by rw [List.getElem?_append_left old, at_], ?_, fun out => .inl ?_⟩
      · rw [has, kept.alike.tail, eq, List.tail_cons]
      · rw [kept.old i (h.extents part d there ▸ old), (h.rows i e at_ part d there).inputs out]
    · obtain ⟨rfl, held⟩ := new i low high
      have eq := dims part
      rw [there] at eq
      obtain ⟨shape, has, eq⟩ := Option.map_eq_some_iff.1 eq.symm
      refine ⟨_, List.getElem?_concat_length, ?_, fun _ => held⟩
      rw [has, kept.alike.tail, ← eq, List.tail_cons]
  whole _ _ i _ e at_ part has := by
    obtain ⟨shape, has⟩ := Option.ne_none_iff_exists'.1 has
    have present {m : Nat} (eq : (a.at? (part.path p.root)).map Dataset.dims = some (m :: shape)) :
        ∃ d', b.at? (part.path p.root) = some d' := by
      obtain ⟨d, there, -⟩ := Option.map_eq_some_iff.1 eq
      obtain ⟨_, _, _, -, reworked⟩ := soFar
      obtain ⟨d', found', -⟩ := reworked.parts part d there
      exact ⟨d', found'⟩
    rcases List.mem_append.1 (List.mem_of_getElem? at_) with mem | mem
    · exact present ((h.dims e mem part).trans (by rw [has]; rfl))
    · rw [List.mem_singleton.1 mem] at has
      exact present ((dims part).trans (by rw [has]; rfl))

end Archive

namespace Recording

variable {r r' : Recording} {p : Producer} {j : Journal} {b : Archive}

/-- What is made on the way of a call has no rows. -/
theorem Agrees.remembers_furthered (h : r.Agrees j) (furthered : Archive.Furthered r.archive b) :
    b.tree.Remembers j := by
  cases furthered with
  | shared built =>
    exact ⟨built.laidOut.tree, fun root hr =>
      ((h.archive root hr).built hr built fun _ none => by cases none).tells⟩
  | founded absent built _ =>
    exact ⟨built.laidOut.tree, fun root hr =>
      ((h.archive root hr).built hr built fun _ own => Option.some.inj own ▸ absent).tells⟩

theorem Agrees.remembers_answeredSoFar (sound : r.Sound) (h : r.Agrees j) {root : Path}
    (hr : IsProducerRoot root) {i : Nat}
    (reworked : Archive.Reworked root (EvaluationPart.AnsweredSoFar i) r.archive b) :
    b.tree.Remembers j := by
  have same {part : EvaluationPart} {d d' : Dataset} (changed : part.AnsweredSoFar i d d') :
      d.Touched i d' ∧ (part ∉ EvaluationPart.answered → d' = d) := by
    unfold EvaluationPart.AnsweredSoFar at changed
    split at changed
    · next mem => exact ⟨changed, fun out => absurd mem out⟩
    · exact ⟨changed ▸ .refl d i, fun _ => changed⟩
  refine ⟨(reworked.laidOut sound.laidOut hr fun _ _ _ changed => changed.alike).tree,
    fun root' hr' => ?_⟩
  by_cases own : root' = root
  · subst own
    refine (h.archive root' hr').tells_of (fun part d' found => ?_) fun part d found => ?_
    · obtain ⟨d, there, changed⟩ := reworked.old sound.laidOut found
      exact ⟨d, there, (same changed).1.dims, fun out i => by rw [(same changed).2 out]⟩
    · obtain ⟨d', found', -⟩ := reworked.parts part d found
      exact ⟨d', found'⟩
  · refine ((h.archive root' hr').of_at fun part => reworked.rest _ fun part' eq => own ?_).tells
    exact (EvaluationPart.path_injective hr' hr eq).2

/-- On the way of inputs, what they give is noted. -/
theorem Agrees.remembers_inputsSoFar (sound : r.Sound) (h : r.Agrees j)
    (hr : IsProducerRoot p.root) {s : EvaluationSchema} {x : EvaluationInputs} {n : Nat}
    (dims : ∀ part : EvaluationPart,
      (r.archive.at? (part.path p.root)).map Dataset.dims = (part.shape? s).map (n :: ·))
    (soFar : Archive.InputsSoFar p.root s x r.archive b) :
    b.tree.Remembers (Function.update j p.root (j p.root ++ [⟨p, s, x, none⟩])) := by
  have tells := (h.archive p.root hr).tells_inputsSoFar sound.laidOut hr dims soFar
  have reworked := soFar.alike
  refine ⟨(reworked.laidOut sound.laidOut hr fun _ _ _ alike => alike).tree, fun root' hr' => ?_⟩
  by_cases own : root' = p.root
  · rw [own, Function.update_self]
    exact tells
  · rw [Function.update_of_ne own]
    refine ((h.archive root' hr').of_at fun part => reworked.rest _ fun part' eq => own ?_).tells
    exact (EvaluationPart.path_injective hr' hr eq).2

/-! ## Throughout a run -/

/-- On the way of a call, no row tells anything that the journal does not say afterwards. -/
theorem Agrees.remembers_onTheWay (sound : r.Sound) (h : r.Agrees j) {c : StoreCall}
    (way : OnTheWay r c b) : b.tree.Remembers (j.note r (c.after r) c) := by
  have noted (root : Path) : JournalEntry.Continue (j root) (j.note r (c.after r) c root) :=
    Journal.continue_note c root
  cases way with
  | furthered furthered => exact (h.remembers_furthered furthered).mono noted
  | inputs call hr stored dims soFar =>
    subst call
    rw [Journal.note_of_storedBy? stored]
    exact h.remembers_inputsSoFar sound hr dims soFar
  | response hr soFar => exact (h.remembers_answeredSoFar sound hr soFar).mono noted

/-- In every recording that calls lead to, the log remembers what the journal says. -/
theorem Fresh.remembers {start : Recording} (fresh : start.Fresh) {calls : List StoreCall}
    (proper : ∀ c ∈ calls, c.IsProper) (within : StoreCall.overflowsIn start calls = false) :
    (StoreCall.afterAll start calls).archive.mounted.Throughout []
      (·.Remembers (Journal.afterAll start (fun _ => []) calls)) := by
  suffices run : ∀ {r : Recording} {j : Journal}, r.Sound → r.Agrees j →
      r.archive.mounted.Throughout [] (·.Remembers j) →
      StoreCall.overflowsIn r calls = false →
      (StoreCall.afterAll r calls).archive.mounted.Throughout []
        (·.Remembers (Journal.afterAll r j calls)) from
    run fresh.sound fresh.agrees (fresh.throughout.mono fun _ bare => bare.remembers _) within
  clear within
  induction calls with
  | nil => exact fun _ _ h _ => h
  | cons c calls ih =>
    intro r j sound agrees h within
    obtain ⟨first, rest⟩ := Bool.or_eq_false_iff.1 within
    have here := proper c (List.mem_cons_self ..)
    refine ih (fun c' mem => proper c' (List.mem_cons_of_mem c mem)) (sound.after c here)
      (agrees.after sound c here first) ?_ rest
    refine (sound.way_after c here first).throughout (h.mono fun t remembers => ?_) fun b way =>
      agrees.remembers_onTheWay sound way
    exact remembers.mono fun root => Journal.continue_note c root

end Recording
end StudyArchive
