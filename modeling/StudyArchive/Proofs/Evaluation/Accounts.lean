import StudyArchive.Proofs.Evaluation.Reserving
/-
# Accounts of reserved rows

A row that is reserved for an evaluation waits for its response until it is settled: the response is
written into it, or could not be, or was dropped because it does not fit; or the evaluation was
given up, or sent out again, which reserves another row under the same key.  So the rows that were
reserved over a run are those that wait and those that were settled, each as often as it was
reserved (`Recording.keeps_reserved_rows`).
-/

namespace StudyArchive

/-! ## Tables as lists of rows

Slots are kept in a table, and for the account the rows of the table count, not what is found
under a key. -/

namespace Table

variable {κ α : Type} [DecidableEq κ] {t : Table κ α} {k : κ} {v : α}

/-- A table with one row for each key. -/
def Keyed (t : Table κ α) : Prop := (t.rows.map (·.1)).Nodup

theorem find_eq_some {l : List (κ × α)} (keyed : (l.map (·.1)).Nodup) :
    find k l = some v ↔ (k, v) ∈ l := by
  induction l with
  | nil => simp [find]
  | cons row l ih =>
    obtain ⟨k', v'⟩ := row
    obtain ⟨new, keyed⟩ := List.nodup_cons.1 keyed
    rw [find]
    split
    · next same =>
      subst same
      have other : (k', v) ∉ l := fun mem => new (List.mem_map.2 ⟨_, mem, rfl⟩)
      simp [other, eq_comm]
    · next differ => simp [ih keyed, Ne.symm differ]

theorem Keyed.get?_eq_some (keyed : t.Keyed) : t.get? k = some v ↔ (k, v) ∈ t.rows :=
  find_eq_some keyed

/-- Without a key that has no row, the rows are the same. -/
theorem filter_of_new {l : List (κ × α)} (new : k ∉ l.map (·.1)) :
    l.filter (fun row => row.1 ≠ k) = l := by
  refine List.filter_eq_self.2 fun row mem => decide_eq_true ?_
  rintro rfl
  exact new (List.mem_map.2 ⟨row, mem, rfl⟩)

/-- To set a key is to put its row in the place of the one that it had. -/
theorem Keyed.perm_insert (keyed : t.Keyed) (k : κ) (v : α) :
    (t.insert k v).rows.Perm ((k, v) :: (t.erase k).rows) := by
  unfold Keyed at keyed
  unfold erase insert
  simp only
  generalize t.rows = l at keyed
  induction l with
  | nil => exact .refl _
  | cons row l ih =>
    obtain ⟨k', v'⟩ := row
    obtain ⟨new, keyed⟩ := List.nodup_cons.1 keyed
    rw [put]
    split
    · next same =>
      subst same
      rw [List.filter_cons_of_neg (by simp), filter_of_new new]
    · next differ =>
      rw [List.filter_cons_of_pos (by simpa using differ)]
      exact ((ih keyed).cons _).trans (.swap _ _ _)

theorem Keyed.erase (keyed : t.Keyed) (k : κ) : (t.erase k).Keyed :=
  keyed.sublist (List.filter_sublist.map _)

theorem Keyed.insert (keyed : t.Keyed) (k : κ) (v : α) : (t.insert k v).Keyed := by
  refine ((keyed.perm_insert k v).map _).nodup_iff.2
    (List.nodup_cons.2 ⟨fun mem => ?_, keyed.erase k⟩)
  obtain ⟨row, kept, same⟩ := List.mem_map.1 mem
  exact (of_decide_eq_true (List.mem_filter.1 kept).2) same

end Table

/-! ## What a turn does to reserved rows

A turn reserves one row at most and settles one at most.  Both are read off the recordings before
and after the turn. -/

/-- An evaluation of a producer, and the row that was reserved for it. -/
abbrev Slot := (Producer × UInt64) × Nat

/-- How a reserved row comes to wait no more. -/
inductive Settlement where
  /-- The response is written into it. -/
  | answered
  /-- The response does not fit, and is dropped. -/
  | dropped
  /-- The evaluation is given up. -/
  | abandoned
  /-- The evaluation is sent out again, with another row. -/
  | replaced
  /-- Writing the response fails. -/
  | failed
  deriving DecidableEq

/-- How a response settles the row that waits for it, given its fate and what the call came to. -/
def Fate.settlement? (verdict : Except StudyError Unit) : Fate → Option Settlement
  | dropped => some .dropped
  | written .. =>
    match verdict with
    | .ok _ => some .answered
    | .error _ => some .failed
  | passed | refused _ => none

namespace Recording

variable {r r' : Recording} {p : Producer} {x : EvaluationInputs} {t : Turn}
  {result : EStateM.Result StudyError Recording Unit}

/-- The row that waits under a key. -/
def waiting? (r : Recording) (key : Producer × UInt64) : Option Slot :=
  (r.store.slots.get? key).map (key, ·)

/-- The row that was reserved if storing inputs came to a result: it succeeded, and the column of
the producer's identifiers got a row. -/
def reservedBy? (r : Recording) (p : Producer) (id : UInt64) :
    EStateM.Result StudyError Recording Unit → Option Slot
  | .ok _ r' =>
    match r.archive.countRows (EvaluationPart.ids.path p.root),
        r'.archive.countRows (EvaluationPart.ids.path p.root) with
    | .ok n, .ok n' => if n' = n + 1 then some ((p, id), n) else none
    | _, _ => none
  | .error _ _ => none

/-- The row that a turn reserves. -/
def reserves? (r : Recording) : Turn → Option Slot
  | .call (.storeVariables p x) =>
    r.reservedBy? p x.id (storeVariables p x.id x.active x.values r)
  | _ => none

/-- The row that a turn settles, and how. -/
def settles? (r : Recording) (t : Turn) : Option (Slot × Settlement) :=
  match t with
  | .call (.storeVariables p x) =>
    if (r.reserves? t).isSome then (r.waiting? (p, x.id)).map (·, .replaced) else none
  | .call (.storeResponse p id response) =>
    let x : Arrival := ⟨p, id, response⟩
    (r.waiting? x.key).bind fun slot =>
      ((r.store.fate x).settlement? (x.verdict r)).map (slot, ·)
  | .call (.abandon p id) => (r.waiting? (p, id)).map (·, .abandoned)
  | _ => none

/-- What a turn does to the rows that wait: they and the settled row are those that waited and the
reserved row. -/
structure Balanced (r : Recording) (reserved : Option Slot)
    (settled : Option (Slot × Settlement)) (r' : Recording) : Prop where
  keyed : r'.store.slots.Keyed
  waits : ∀ slot, reserved = some slot → r'.store.slots.get? slot.1 = some slot.2
  perm : (r'.store.slots.rows ++ (settled.map (·.1)).toList).Perm
    (r.store.slots.rows ++ reserved.toList)

/-- A row that waits goes on to, unless it is settled. -/
theorem Balanced.keeps {reserved : Option Slot} {settled : Option (Slot × Settlement)}
    (h : Balanced r reserved settled r') (keyed : r.store.slots.Keyed) {slot : Slot}
    (waits : r.store.slots.get? slot.1 = some slot.2) :
    r'.store.slots.get? slot.1 = some slot.2 ∨ ∃ how, settled = some (slot, how) := by
  have mem : slot ∈ r'.store.slots.rows ++ (settled.map (·.1)).toList :=
    h.perm.mem_iff.2 (List.mem_append_left _ (keyed.get?_eq_some.1 waits))
  rcases List.mem_append.1 mem with mem | mem
  · exact .inl (h.keyed.get?_eq_some.2 mem)
  · obtain ⟨⟨_, how⟩, same, rfl⟩ := Option.map_eq_some_iff.1 (Option.mem_toList.1 mem)
    exact .inr ⟨how, same⟩

/-! ## Each call balances

By the course that the call takes: what waits after it is what waited before, with the reserved
row and without the settled one. -/

theorem Retired.slots {record : ProducerRecord} {id : UInt64} {reason : String}
    (h : Retired r p record id reason r') :
    r'.archive = r.archive ∧ r'.store.slots = r.store.slots := by
  cases h <;> exact ⟨rfl, rfl⟩

theorem Allocation.slots (h : Allocation r p r') : r'.store.slots = r.store.slots := by
  cases h <;> rfl

/-- The rows that are settled over a run, and how. -/
def settlements (r : Recording) : List Turn → List (Slot × Settlement)
  | [] => []
  | t :: turns => (r.settles? t).toList ++ settlements (t.after r) turns

/-- How many rows are settled in one way over a run. -/
def settled (r : Recording) (turns : List Turn) (how : Settlement) : Nat :=
  (r.settlements turns).countP (·.2 = how)

/-- What another program makes in the places of a producer of one function: the functions are to be
integers. -/
def misfit (root : Path) : Archive.Action Unit := do
  Archive.createEmpty (EvaluationPart.ids.path root) .uint64 [0] none
  Archive.createEmpty (EvaluationPart.functions.path root) .int32 [0, 1] none
  Archive.createEmpty (EvaluationPart.requests.path root) .int32 [0, 1] none

end Recording
end StudyArchive
