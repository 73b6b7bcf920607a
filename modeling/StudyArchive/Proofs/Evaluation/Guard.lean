import StudyArchive.Proofs.Archive.Sharing
import StudyArchive.Proofs.Evaluation.Quiet
/-
# What the comparison of extents guards

Before the inputs of an evaluation are appended, the extents of the producer's datasets are compared
with the schema, and nothing else about them is.  In an archive that others share, anything may lie
in the places of the parts: a dataset of other elements, or one that cannot grow, or a link to the
dataset of another part; and then the appends stop half-way.  `Archive.Apt` says what the comparison
takes for granted.  Where it holds, either every part gets its row or a drift was found
(`ends_appendInputs_apt`); and it holds of whatever the store made (`LaidOut.apt`).
-/

namespace StudyArchive

open EvaluationLayout
open Dataset (Appended)

namespace Archive

variable {a a' a₁ a₂ : Archive} {p : Producer} {s : EvaluationSchema} {root : Path} {n : Nat}
  {x : EvaluationInputs} {part : EvaluationPart}

/-! ## What the comparison tells

Where no drift is found, each part has as many rows as the others, if it is what its schema says
it is. -/

/-- Where no drift is found, the places of the parts denote datasets of the expected extents. -/
theorem Coherent.dims_of_firstDrift (coherent : a.Coherent) {parts : List EvaluationPart}
    (h : a.firstDrift n (parts.map fun part => (part.path root, part.shape? s)) = .ok none) :
    ∀ part ∈ parts, ∀ shape, part.shape? s = some shape →
      ∃ id, a.tree.denoted? (part.path root) = some id ∧ (a.dataset id).dims = n :: shape := by
  intro part mem shape has
  have found := firstDrift_eq_none_iff.1 h _ (List.mem_map_of_mem mem)
  rw [extentsFound, has] at found
  split at found
  · cases read : a.dims (part.path root) with
    | error e =>
      rw [read] at found
      cases found
    | ok dims =>
      rw [read] at found
      cases found
      obtain ⟨id, looked, dims_eq⟩ := exists_of_bind_eq_ok read
      exact ⟨id, coherent.denoted?_of_lookup looked, Except.ok.inj dims_eq⟩
  · cases found

/-- Where rows can be counted, a dataset with an axis is denoted. -/
theorem Coherent.dims_of_countRows (coherent : a.Coherent) {path : Path}
    (h : a.countRows path = .ok n) :
    ∃ id tail, a.tree.denoted? path = some id ∧ (a.dataset id).dims = n :: tail := by
  unfold countRows at h
  obtain ⟨dims, read, h⟩ := exists_of_bind_eq_ok h
  obtain ⟨id, looked, dims_eq⟩ := exists_of_bind_eq_ok (eq_ok_of_mapError read)
  split at h
  · next tail =>
    cases h
    exact ⟨id, tail, coherent.denoted?_of_lookup looked, Except.ok.inj dims_eq⟩
  · cases h

/-- Comparing extents fails only where the archive fails. -/
theorem exists_storage_of_firstDrift {expected : List (Path × Option (List Nat))} {e : StudyError}
    (h : a.firstDrift n expected = .error e) : ∃ e', e = .storage e' := by
  induction expected with
  | nil => cases h
  | cons first expected ih =>
    obtain ⟨path, row⟩ := first
    simp only [firstDrift] at h
    cases there : a.contains path with
    | false =>
      simp only [there, Bool.false_eq_true, if_false, pure_bind] at h
      split at h
      · exact ih h
      · cases h
    | true =>
      simp only [there, if_true] at h
      rcases error_of_bind_eq_error h with failed | ⟨found, -, h⟩
      · exact exists_of_mapError_eq_error failed
      · split at h
        · exact ih h
        · cases h

/-- The datasets are compared unless the one of the identifiers has no axis. -/
theorem Coherent.countable_of_drift (coherent : a.Coherent)
    (axis : ∀ id, a.tree.denoted? (EvaluationPart.ids.path p.root) = some id →
      (a.dataset id).dims ≠ []) {e : StudyError}
    (h : a.evaluationDrift (ofSchema p s) s = .error e) (path : Path) : e ≠ .uncountable path := by
  have storage {e : StudyError} (h : ∃ e', e = .storage e') : e ≠ .uncountable path := by
    obtain ⟨e', rfl⟩ := h
    simp
  rcases error_of_bind_eq_error h with counted | ⟨n, -, compared⟩
  · rcases error_of_bind_eq_error counted with failed | ⟨dims, read, none⟩
    · exact storage (exists_of_mapError_eq_error failed)
    · obtain ⟨id, looked, same⟩ := exists_of_bind_eq_ok (eq_ok_of_mapError read)
      cases dims with
      | nil => exact absurd (Except.ok.inj same) (axis id (coherent.denoted?_of_lookup looked))
      | cons rows tail => cases none
  · exact storage (exists_storage_of_firstDrift compared)

/-- What the comparison of extents takes for granted: the datasets that the places of the parts
denote can grow and are of the parts' types, where inputs are put; the identifiers are a column; and
no two parts are one dataset. -/
structure Apt (a : Archive) (root : Path) (s : EvaluationSchema) : Prop where
  extensible : ∀ (part : EvaluationPart) id, part.shape? s ≠ none →
    a.tree.denoted? (part.path root) = some id → (a.dataset id).extensible = true
  type : ∀ (part : EvaluationPart) id, part.shape? s ≠ none → part.isReserved = false →
    a.tree.denoted? (part.path root) = some id → (a.dataset id).type = .scalar part.element
  column : ∀ id, a.tree.denoted? (EvaluationPart.ids.path root) = some id →
    (a.dataset id).rank = 1
  apart : ∀ (part part' : EvaluationPart) id, part.shape? s ≠ none → part'.shape? s ≠ none →
    a.tree.denoted? (part.path root) = some id → a.tree.denoted? (part'.path root) = some id →
    part = part'

/-- If no drift is found in an apt archive, every part of the schema is denoted and has equally many
rows of its shape. -/
theorem Apt.dims_of_drift (apt : a.Apt p.root s) (coherent : a.Coherent)
    (four : s.variableCounts.length = 4) (h : a.evaluationDrift (ofSchema p s) s = .ok none) :
    ∃ n, a.countRows (ofSchema p s).ids = .ok n ∧ ∀ (part : EvaluationPart) shape,
      part.shape? s = some shape →
        ∃ id, a.tree.denoted? (part.path p.root) = some id ∧ (a.dataset id).dims = n :: shape := by
  obtain ⟨n, counted, none⟩ := exists_of_bind_eq_ok h
  rw [EvaluationPart.rowShapes_ofSchema p four] at none
  refine ⟨n, counted, fun part shape has => ?_⟩
  by_cases ids : part = .ids
  · subst ids
    obtain ⟨id, tail, denotes, dims⟩ := coherent.dims_of_countRows counted
    have rank := apt.column id denotes
    rw [Dataset.rank, dims, List.length_cons, Nat.succ_inj, List.length_eq_zero_iff] at rank
    obtain rfl : [] = shape := Option.some.inj has
    exact ⟨id, denotes, rank ▸ dims⟩
  · exact coherent.dims_of_firstDrift none part (EvaluationPart.mem_checked ids) shape has

/-! ## One row for each part

By induction on the parts: those before have their new row, those after are as they were. -/

/-- An archive in which some parts got the row of an evaluation, and nothing else changed. -/
structure Rowed (root : Path) (s : EvaluationSchema) (x : EvaluationInputs)
    (done : List EvaluationPart) (a a' : Archive) : Prop where
  coherent : a'.Coherent
  nodes : a'.tree.nodes = a.tree.nodes
  length : a'.tree.datasets.length = a.tree.datasets.length
  parts : ∀ part ∈ done, part.shape? s ≠ none → ∀ id,
    a.tree.denoted? (part.path root) = some id →
      Appended (a.dataset id) (part.newRow s x (a.dataset id)) (a'.dataset id)
  others : ∀ id, id < a.tree.datasets.length →
    (∀ part ∈ done, part.shape? s ≠ none → a.tree.denoted? (part.path root) ≠ some id) →
      a'.dataset id = a.dataset id

theorem Coherent.rowed_nil (coherent : a.Coherent) : Rowed root s x [] a a where
  coherent := coherent
  nodes := rfl
  length := rfl
  parts _ mem := (List.not_mem_nil mem).elim
  others _ _ _ := rfl

/-- A part that the schema does not have gets no row. -/
theorem Rowed.skip {done : List EvaluationPart} (h : Rowed root s x done a a₁)
    (absent : part.shape? s = none) : Rowed root s x (done ++ [part]) a a₁ where
  coherent := h.coherent
  nodes := h.nodes
  length := h.length
  parts other mem has := by
    rcases List.mem_append.1 mem with mem | last
    · exact h.parts other mem has
    · exact absurd (List.mem_singleton.1 last ▸ absent) has
  others id known free := h.others id known fun other mem => free other (List.mem_append_left _ mem)

theorem Rowed.step {done : List EvaluationPart} (h : Rowed root s x done a a₁)
    (coherent : a.Coherent) (apt : a.Apt root s) (fresh : part ∉ done)
    (has : part.shape? s ≠ none) {id : DatasetId}
    (denotes : a.tree.denoted? (part.path root) = some id)
    (added : RowAt a₁ (part.path root) id (a.dataset id) (part.newRow s x (a.dataset id)) a₂) :
    Rowed root s x (done ++ [part]) a a₂ := by
  obtain ⟨d', appended, altered⟩ := added.altered
  have known := coherent.ready.sound.lt_of_denoted? denotes
  have denotes₁ : a₁.tree.denoted? (part.path root) = some id := by
    rw [Tree.denoted?_congr h.nodes, denotes]
  refine ⟨altered.coherent h.coherent denotes₁, altered.nodes.trans h.nodes,
    altered.length.trans h.length, fun other mem has' other_id denotes' => ?_,
    fun other_id known' free => ?_⟩
  · rcases List.mem_append.1 mem with mem | last
    · have apart : other_id ≠ id := by
        rintro rfl
        exact fresh (apt.apart other part other_id has' has denotes' denotes ▸ mem)
      have low := coherent.ready.sound.lt_of_denoted? denotes'
      rw [altered.others other_id (h.length ▸ low) apart]
      exact h.parts other mem has' other_id denotes'
    · obtain rfl := List.mem_singleton.1 last
      obtain rfl : id = other_id := Option.some.inj (denotes.symm.trans denotes')
      rw [altered.here]
      exact appended
  · have apart : other_id ≠ id := by
      rintro rfl
      exact free part (List.mem_append_right _ (List.mem_singleton_self part)) has denotes
    rw [altered.others other_id (h.length ▸ known') apart]
    exact h.others other_id known' fun other mem => free other (List.mem_append_left _ mem)

/-- The inputs of an evaluation give every part one row more, if no drift was found in an apt
archive: only a record without a frame fails. -/
theorem ends_appendInputs_apt (coherent : a.Coherent) (apt : a.Apt p.root s) (fit : x.Fit s)
    (dims : ∀ (part : EvaluationPart) shape, part.shape? s = some shape →
      ∃ id, a.tree.denoted? (part.path p.root) = some id ∧ (a.dataset id).dims = n :: shape) :
    Ends (Recording.appendInputs (ofSchema p s) s x.id x.active x.values) a
      (fun _ => Rowed p.root s x EvaluationPart.appended a) (fun e _ => e.isUnencodable) := by
  rw [EvaluationPart.appendInputs_eq p fit]
  -- The parts before the ones to come have their rows, the others are as they were.
  suffices run : ∀ (done todo : List EvaluationPart) (a₁ : Archive),
      done ++ todo = EvaluationPart.appended → Rowed p.root s x done a a₁ →
      Ends (todo.forM (EvaluationPart.appendPart p.root s x)) a₁
        (fun _ => Rowed p.root s x EvaluationPart.appended a) (fun e _ => e.isUnencodable) from
    run [] EvaluationPart.appended a rfl coherent.rowed_nil
  intro done todo
  induction todo generalizing done with
  | nil =>
    rintro a₁ split rowed
    rw [List.append_nil] at split
    exact ends_pure.2 (split ▸ rowed)
  | cons part todo ih =>
    intro a₁ split rowed
    have split' : (done ++ [part]) ++ todo = EvaluationPart.appended := by
      rw [List.append_assoc]
      exact split
    have fresh : part ∉ done := by
      have nodup := EvaluationPart.nodup_appended
      rw [← split, List.nodup_append'] at nodup
      exact fun before => nodup.2.2 before (List.mem_cons_self ..)
    show Ends (part.appendPart p.root s x >>= fun _ => todo.forM _) a₁ _ _
    rw [EvaluationPart.appendPart]
    cases shape : part.shape? s with
    | none => exact ends_bind.2 (ends_pure.2 (ih _ a₁ split' (rowed.skip shape)))
    | some row =>
      have has : part.shape? s ≠ none := by simp [shape]
      obtain ⟨id, denotes, dims⟩ := dims part row shape
      have known := coherent.ready.sound.lt_of_denoted? denotes
      -- No part before denotes this dataset, so it is as it was.
      have same : a₁.dataset id = a.dataset id := rowed.others id known
        fun other mem has' denotes' =>
          fresh (apt.apart other part id has' has denotes' denotes ▸ mem)
      have denotes₁ : a₁.tree.denoted? (part.path p.root) = some id := by
        rw [Tree.denoted?_congr rowed.nodes, denotes]
      have here : a₁.tree.datasets[id]? = some (a.dataset id) := by
        rw [Tree.getElem?_of_lt (rowed.length ▸ known)]
        exact congrArg some same
      have rows : (a.dataset id).rows = n := by simp [Dataset.rows, dims]
      refine ends_bind.2 ((EvaluationPart.ends_appendRow_denoted rowed.coherent fit shape denotes₁
        here (apt.extensible part id has denotes)
        (fun typed => apt.type part id has typed denotes) (rows.symm ▸ dims)).mono ?_ ?_)
      · exact fun _ a₂ added => ih _ a₂ split' (rowed.step coherent apt fresh has denotes added)
      · exact fun _ _ bad => bad.1

/-- Whatever the store made is apt. -/
theorem LaidOut.apt (laid : a.LaidOut) (hr : IsProducerRoot root) (s : EvaluationSchema) :
    a.Apt root s := by
  have placed {part : EvaluationPart} {id : DatasetId}
      (denotes : a.tree.denoted? (part.path root) = some id) :
      a.tree.nodes.get? (part.path root) = some (.dataset id) ∧ part.Fits (a.dataset id) := by
    cases node : a.tree.nodes.get? (part.path root) with
    | none =>
      have none : a.tree.denoted? (part.path root) = none := by
        unfold Tree.denoted? Tree.resolve? Tree.maxLinkDepth Tree.follow
        rw [node]
      rw [none] at denotes
      cases denotes
    | some node' =>
      obtain ⟨d, found, fits⟩ := laid.parts root hr part node' node
      obtain ⟨id', dataset, here⟩ := Tree.at?_eq_some.1 found
      obtain rfl : id' = id :=
        Option.some.inj ((Tree.denoted?_of_node dataset).symm.trans denotes)
      have dataset_eq : a.dataset id' = d := Tree.dataset_of_getElem? here
      exact ⟨node.symm.trans dataset, dataset_eq ▸ fits⟩
  refine ⟨fun part id _ denotes => (placed denotes).2.extensible,
    fun part id _ _ denotes => (placed denotes).2.type, fun id denotes => ?_,
    fun part part' id _ _ denotes denotes' => ?_⟩
  · obtain ⟨-, fits⟩ := placed denotes
    have known := laid.sound.coherent.ready.sound.lt_of_denoted? denotes
    have axis := (laid.sound.coherent.sound_of_lt known).axis_of_extensible fits.extensible
    obtain ⟨rows, tail, dims⟩ := List.exists_cons_of_ne_nil axis
    have column := fits.column rfl
    rw [dims, List.tail_cons] at column
    rw [Dataset.rank, dims, column, List.length_singleton]
  · obtain ⟨d, found, named⟩ := laid.sound.ready.sound.named (placed denotes).1
    obtain ⟨d', found', named'⟩ := laid.sound.ready.sound.named (placed denotes').1
    obtain rfl : d = d' := Option.some.inj (found.symm.trans found')
    exact (EvaluationPart.path_injective hr hr (named.symm.trans named')).1

end Archive
end StudyArchive
