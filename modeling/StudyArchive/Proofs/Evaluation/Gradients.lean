import StudyArchive.Proofs.Evaluation.Labelled
import StudyArchive.Proofs.Matrix
/-
# Gradients that are set

A response has room for one entry of a gradient for each derivative variable.  Setting a gradient
does not look at its length: entries that are over are dropped, and entries that lack stay as they
were, which is zero in a new response (`Response.exists_setGradient`).  What is stored cannot show
it any more, so the check of the shapes passes, and the entries that were kept are filed under their
variables (`Recording.stores_fitted_gradient`).
-/

namespace StudyArchive

open EvaluationLayout

namespace Response

variable {m : Matrix Binary64} {col row : Nat} {g : List Binary64}

/-! ## Columns that are put

A gradient is a column of the response's matrix, and only as much of it is put as there are rows. -/

@[simp] theorem rows_putColumn : (putColumn col row g m).rows = m.rows := by
  induction g generalizing row m with
  | nil => rfl
  | cons v g ih =>
    rw [putColumn, ih]
    exact m.rows_set row col v

@[simp] theorem cols_putColumn : (putColumn col row g m).cols = m.cols := by
  induction g generalizing row m with
  | nil => rfl
  | cons v g ih =>
    rw [putColumn, ih]
    exact m.cols_set row col v

/-- Above the row, and in other columns, nothing changes. -/
theorem get?_putColumn_of_ne {r c : Nat} (other : c = col → r < row) :
    (putColumn col row g m).get? r c = m.get? r c := by
  induction g generalizing row m with
  | nil => rfl
  | cons v g ih =>
    rw [putColumn, ih fun same => Nat.lt_succ_of_lt (other same)]
    refine Matrix.get?_set_of_ne ?_
    rintro ⟨rfl, rfl⟩
    exact Nat.lt_irrefl _ (other rfl)

/-- From the row down the column has the new entries, as far as there are any. -/
theorem get?_putColumn {r : Nat} {old : Binary64} (there : m.get? r col = some old)
    (below : row ≤ r) :
    (putColumn col row g m).get? r col = some (g[r - row]?.getD old) := by
  induction g generalizing row m with
  | nil => exact there
  | cons v g ih =>
    rw [putColumn]
    rcases Nat.eq_or_lt_of_le below with rfl | below
    · rw [get?_putColumn_of_ne fun _ => Nat.lt_succ_self _, Matrix.get?_set_self there,
        Nat.sub_self]
      rfl
    · have other : ¬(r = row ∧ col = col) := fun same => Nat.ne_of_gt below same.1
      rw [ih ((Matrix.get?_set_of_ne other).trans there) below]
      obtain ⟨n, rfl⟩ := Nat.exists_eq_add_of_lt below
      rw [show row + n + 1 - row = n + 1 by omega, show row + n + 1 - (row + 1) = n by omega]
      rfl

/-- Entries that the column has no room for are as good as not there. -/
theorem putColumn_congr {g' : List Binary64}
    (same : ∀ r old, row ≤ r → m.get? r col = some old →
      g[r - row]?.getD old = g'[r - row]?.getD old) :
    putColumn col row g m = putColumn col row g' m := by
  refine Matrix.ext_get? (by simp) (by simp) fun r c => ?_
  by_cases here : c = col ∧ row ≤ r
  · obtain ⟨rfl, below⟩ := here
    cases there : m.get? r c with
    | none =>
      have out : ¬(r < m.rows ∧ c < m.cols) := by
        rintro ⟨low, low'⟩
        obtain ⟨old, some⟩ := Matrix.exists_get? low low'
        cases there.symm.trans some
      rw [Matrix.get?_eq_none (by simpa using out), Matrix.get?_eq_none (by simpa using out)]
    | some old =>
      rw [get?_putColumn there below, get?_putColumn there below, same r old below there]
  · have above (same : c = col) : r < row := Nat.lt_of_not_le fun below => here ⟨same, below⟩
    rw [get?_putColumn_of_ne above, get?_putColumn_of_ne above]

theorem getElem?_gradient {x : Response} {i : Nat} {l : List Binary64}
    (there : x.gradient? i = some l) (r : Nat) : l[r]? = x.gradients.get? r i := by
  unfold gradient? at there
  split at there
  · next col =>
    cases there
    exact Matrix.getElem?_column _ col r
  · cases there

/-! ## Gradients of a new response

The matrix of a new response is zero, so what is missing at the end of a gradient is zero. -/

/-- A gradient with some number of entries: what is over is cut off, and what lacks is zero. -/
def fittedGradient (n : Nat) (g : List Binary64) : List Binary64 :=
  g.take n ++ List.replicate (n - g.length) .zero

theorem getElem?_fittedGradient {n j : Nat} (low : j < n) :
    (fittedGradient n g)[j]? = some (g[j]?.getD .zero) := by
  unfold fittedGradient
  by_cases inside : j < g.length
  · rw [List.getElem?_append_left (by simpa using ⟨low, inside⟩), List.getElem?_take_of_lt low,
      List.getElem?_eq_getElem inside]
    rfl
  · have past : (g.take n).length = g.length := by
      rw [List.length_take]
      omega
    rw [List.getElem?_append_right (by omega), past, List.getElem?_replicate_of_lt (by omega),
      List.getElem?_eq_none (Nat.le_of_not_lt inside)]
    rfl

theorem length_fittedGradient (n : Nat) (g : List Binary64) :
    (fittedGradient n g).length = n := by
  unfold fittedGradient
  rw [List.length_append, List.length_take, List.length_replicate]
  omega

/-- A gradient has that number of entries exactly if there is nothing to do. -/
theorem fittedGradient_eq_self_iff {n : Nat} : fittedGradient n g = g ↔ g.length = n := by
  constructor
  · intro same
    rw [← same, length_fittedGradient]
  · rintro rfl
    unfold fittedGradient
    rw [List.take_length, Nat.sub_self, List.replicate_zero, List.append_nil]

section
variable {active : ActiveSet} {f : Nat}

/-- There is room for every gradient that was asked for. -/
theorem lt_cols_blank (asked : active.asksGradient f) (labels : List String) :
    f < (blank active labels).gradients.cols := by
  have low : f < active.length := by
    unfold ActiveSet.asksGradient ActiveSet.asks at asked
    cases mask : active.request[f]? with
    | none =>
      rw [mask] at asked
      cases asked
    | some _ => exact (List.getElem?_eq_some_iff.1 mask).1
  have listed : f ∈ active.gradientIndices := List.mem_filter.2 ⟨List.mem_range.2 low, asked⟩
  unfold blank
  simp only [List.ne_nil_of_mem listed, if_false]
  exact low

/-- A gradient of any length can be set in a new response, which is then as if the gradient had an
entry for each derivative variable and no other ones. -/
theorem exists_setGradient (asked : active.asksGradient f) (labels : List String)
    (g : List Binary64) :
    ∃ y, (blank active labels).setGradient f g = .ok y ∧
      (blank active labels).setGradient f (fittedGradient active.derivatives.length g) = .ok y ∧
      y.active = active ∧
      y.gradient? f = some (fittedGradient active.derivatives.length g) := by
  have col := lt_cols_blank asked labels
  have entry {r : Nat} (low : r < active.derivatives.length) :
      (blank active labels).gradients.get? r f = some .zero := Matrix.get?_filled low col
  refine ⟨_, if_pos col, (if_pos col).trans ?_, rfl, ?_⟩
  · have cut : putColumn f 0 (fittedGradient active.derivatives.length g)
        (blank active labels).gradients = putColumn f 0 g (blank active labels).gradients := by
      refine putColumn_congr fun r old _ there => ?_
      have low : r < active.derivatives.length := (Matrix.lt_of_get? there).1
      cases (entry low).symm.trans there
      rw [Nat.sub_zero, getElem?_fittedGradient low]
      rfl
    rw [cut]
  · refine (dif_pos (by simpa using col)).trans (congrArg some (List.ext_getElem? fun r => ?_))
    rw [Matrix.getElem?_column]
    by_cases low : r < active.derivatives.length
    · rw [get?_putColumn (entry low) (Nat.zero_le r), getElem?_fittedGradient low, Nat.sub_zero]
    · rw [List.getElem?_eq_none (by simpa [length_fittedGradient] using low)]
      refine Matrix.get?_eq_none fun inside => low ?_
      have short := inside.1
      rwa [rows_putColumn] at short

end

end Response

namespace Recording

variable {r : Recording} {p : Producer} {id : UInt64} {i : Nat}

/-- A gradient of any length that was asked for can be set in a new response, and the response is
the one in which the gradient has as many entries as there are derivative variables; it has the
gradient that was given only if that had the right length.  Who stores the response cannot tell, so
in every sound recording in which a row of a producer that is stored waits for it, what comes to lie
in the row is that gradient, each entry under its variable. -/
theorem stores_fitted_gradient (sound : r.Sound) (selected : r.store.selects p)
    (waits : r.store.slots.get? (p, id) = some i) {active : ActiveSet} {f : Nat}
    (asked : active.asksGradient f) (labels : List String) (g : List Binary64) :
    ∃ y, (Response.blank active labels).setGradient f g = .ok y ∧
      (Response.blank active labels).setGradient f
        (Response.fittedGradient active.derivatives.length g) = .ok y ∧
      (y.gradient? f = some g ↔ g.length = active.derivatives.length) ∧
      ∀ r', storeResponse p id y r = .ok () r' → ∃ s, r.store.schema? p = some s ∧
        (s.responseDrift? y = none →
          ∀ k q j v : Nat, s.gradientIndices[k]? = some f → s.derivatives[q]? = some v →
            active.derivatives[j]? = some v →
              ∃ d x, r'.archive.at? (gradientsOf p.root) = some d ∧
                (Response.fittedGradient active.derivatives.length g)[j]? = some x ∧
                d.cell [i, k, q] = .real x) := by
  obtain ⟨y, set, fitted, same, column⟩ := Response.exists_setGradient asked labels g
  refine ⟨y, set, fitted, ?_, fun r' returns => ?_⟩
  · rw [column, Option.some_inj, Response.fittedGradient_eq_self_iff]
  obtain ⟨record, known, -⟩ := sound.waits p id i waits
  have schema := EvaluationStore.schema?_of_get? known
  refine ⟨record.schema, schema, fun agrees k q j v function place at_ => ?_⟩
  have has : EvaluationPart.gradients.shape? record.schema ≠ none := by
    have derived := List.ne_nil_of_mem (List.mem_of_getElem? place)
    have filed := List.ne_nil_of_mem (List.mem_of_getElem? function)
    unfold EvaluationPart.shape?
    rw [if_pos ⟨derived, filed⟩]
    exact Option.some_ne_none _
  obtain ⟨d, found, fills⟩ := sound.filesGradients has p id i record.schema y r' rfl schema rfl rfl
    selected waits agrees returns
  obtain ⟨x, entry, cell⟩ := (fills k f q v function place).1 j (same ▸ asked) (same ▸ at_)
  refine ⟨d, x, found, ?_, cell⟩
  rw [Response.getElem?_gradient column, entry]

/-- One function, whose gradient by one variable is asked for. -/
def oneGradient : ActiveSet := ⟨[2], [1]⟩

/-- A store in which an evaluation of that function waits for its response. -/
def awaiting (start : Recording) : Recording :=
  StoreCall.afterAll start (StoreCall.sending (.model "s" "m") {} oneGradient [7])

/-- Two entries are set for one variable, and the response is stored without the second one. -/
theorem exists_stored_with_two : ∃ start y r' s, start.Fresh ∧
    (awaiting start).store.selects (.model "s" "m") = true ∧
    (awaiting start).store.slots.get? (.model "s" "m", 7) = some 0 ∧
    (Response.blank oneGradient []).setGradient 0 [.zero, .nan] = .ok y ∧
    y.gradient? 0 = some [.zero] ∧
    storeResponse (.model "s" "m") 7 y (awaiting start) = .ok () r' ∧
    (awaiting start).store.schema? (.model "s" "m") = some s ∧ s.responseDrift? y = none ∧
    s.gradientIndices = [0] ∧ s.derivatives = [1] := by
  have ready : (started {}).any (fun start =>
      ((Response.blank oneGradient []).setGradient 0 [.zero, .nan]).toOption.any fun y =>
        (fun r => r.store.selects (.model "s" "m") &&
          r.store.slots.get? (.model "s" "m", 7) = some 0 &&
          y.gradient? 0 = some [.zero] &&
          (okState? (storeResponse (.model "s" "m") 7 y r)).isSome &&
          (r.store.schema? (.model "s" "m")).any fun s =>
            s.responseDrift? y = none && s.gradientIndices = [0] && s.derivatives = [1])
        (awaiting start)) := by decide +kernel
  obtain ⟨start, opened, ready⟩ := (Option.any_eq_true ..).1 ready
  obtain ⟨y, set, ready⟩ := (Option.any_eq_true ..).1 ready
  simp only [Bool.and_eq_true, decide_eq_true_eq, Option.any_eq_true] at ready
  obtain ⟨⟨⟨⟨selected, waits⟩, column⟩, returns⟩, s, schema, ⟨agrees, filed⟩, derived⟩ := ready
  obtain ⟨r', returns⟩ := Option.isSome_iff_exists.1 returns
  obtain ⟨_, ran⟩ := exists_ok_of_okState? returns
  exact ⟨start, y, r', s, fresh_of_started rfl rfl opened, selected, waits, eq_ok_of_toOption set,
    column, ran, schema, agrees, filed, derived⟩

theorem stores_fitted_gradient_of_two : ∃ start y r' s d, start.Fresh ∧
    (Response.blank oneGradient []).setGradient 0 [.zero, .nan] = .ok y ∧
    (Response.blank oneGradient []).setGradient 0 [.zero] = .ok y ∧
    (y.gradient? 0 = some [.zero, .nan] ↔ 2 = 1) ∧
    storeResponse (.model "s" "m") 7 y (awaiting start) = .ok () r' ∧
    (awaiting start).store.schema? (.model "s" "m") = some s ∧
    r'.archive.at? (gradientsOf (Producer.model "s" "m").root) = some d ∧
    d.cell [0, 0, 0] = .real .zero := by
  obtain ⟨start, y, r', s, fresh, selected, waits, set, -, ran, schema, agrees, filed, derived⟩ :=
    exists_stored_with_two
  have sound : (awaiting start).Sound := fresh.sound_afterAll (by decide)
  have asked : oneGradient.asksGradient 0 = true := rfl
  obtain ⟨y', set', fitted, length, stores⟩ :=
    stores_fitted_gradient sound selected waits asked [] [.zero, .nan]
  cases set.symm.trans set'
  obtain ⟨s', schema', stored⟩ := stores r' ran
  cases schema.symm.trans schema'
  obtain ⟨d, x, found, entry, cell⟩ := stored agrees 0 0 0 1 (by rw [filed]; rfl)
    (by rw [derived]; rfl) rfl
  cases entry
  exact ⟨start, y, r', s, d, fresh, set, fitted, length, ran, schema, found, cell⟩

/-- A gradient with more entries than there are variables is set and stored without an error, and it
is not what the response has then. -/
theorem drops_gradient_entry : ∃ start y r' s, start.Fresh ∧
    oneGradient.asksGradient 0 = true ∧
    (awaiting start).store.selects (.model "s" "m") = true ∧
    (awaiting start).store.slots.get? (.model "s" "m", 7) = some 0 ∧
    (Response.blank oneGradient []).setGradient 0 [.zero, .nan] = .ok y ∧
    storeResponse (.model "s" "m") 7 y (awaiting start) = .ok () r' ∧
    (awaiting start).store.schema? (.model "s" "m") = some s ∧ s.responseDrift? y = none ∧
    0 ∈ s.gradientIndices ∧
    [Binary64.zero, .nan].length ≠ oneGradient.derivatives.length ∧
    y.gradient? 0 = some [.zero] := by
  obtain ⟨start, y, r', s, fresh, selected, waits, set, column, ran, schema, agrees, filed, -⟩ :=
    exists_stored_with_two
  refine ⟨start, y, r', s, fresh, rfl, selected, waits, set, ran, schema, agrees, ?_, ?_, column⟩
  · rw [filed]
    exact List.mem_cons_self
  · decide

end Recording
end StudyArchive
