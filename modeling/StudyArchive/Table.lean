/-
# Tables

An association list with one row per key.  A row keeps its place when its value is replaced; a new
key goes to the end.  Tables serve where no answer shows an order.
-/

namespace StudyArchive

/-- A finite map as the list of its rows. -/
structure Table (κ : Type) (α : Type) where
  /-- The rows, oldest first. -/
  rows : List (κ × α) := []
  deriving DecidableEq, Repr

namespace Table

variable {κ α : Type} [DecidableEq κ]

instance : EmptyCollection (Table κ α) := ⟨⟨[]⟩⟩
instance : Inhabited (Table κ α) := ⟨⟨[]⟩⟩

def size (t : Table κ α) : Nat := t.rows.length

/-- Look a key up among rows. -/
def find (k : κ) : List (κ × α) → Option α
  | [] => none
  | (k', v) :: rest => if k' = k then some v else find k rest

/-- Rows with the row of a key replaced, or added at the end. -/
def put (k : κ) (v : α) : List (κ × α) → List (κ × α)
  | [] => [(k, v)]
  | (k', v') :: rest => if k' = k then (k, v) :: rest else (k', v') :: put k v rest

def get? (t : Table κ α) (k : κ) : Option α := find k t.rows

def contains (t : Table κ α) (k : κ) : Bool := (t.get? k).isSome

/-- The table with a key set to a value. -/
def insert (t : Table κ α) (k : κ) (v : α) : Table κ α := ⟨put k v t.rows⟩

def erase (t : Table κ α) (k : κ) : Table κ α := ⟨t.rows.filter fun row => row.1 ≠ k⟩

@[simp] theorem get?_empty (k : κ) : (∅ : Table κ α).get? k = none := rfl

theorem get?_insert (t : Table κ α) (k k' : κ) (v : α) :
    (t.insert k v).get? k' = if k = k' then some v else t.get? k' := by
  unfold get? insert
  simp only
  generalize t.rows = l
  induction l with
  | nil => simp [put, find]
  | cons row rest ih =>
    obtain ⟨q, w⟩ := row
    rw [put]
    split
    · next same => subst same; simp only [find]; split <;> rfl
    · next differ =>
      simp only [find, ih]
      by_cases h : k = k' <;> by_cases hq : q = k' <;> simp_all

/-- What is found after an insertion was inserted or was there before. -/
theorem eq_or_get?_of_insert {t : Table κ α} {k k' : κ} {v w : α}
    (found : (t.insert k v).get? k' = some w) : k' = k ∧ w = v ∨ t.get? k' = some w := by
  rw [get?_insert] at found
  split at found
  · next same =>
    cases found
    exact .inl ⟨same.symm, rfl⟩
  · exact .inr found

theorem get?_erase (t : Table κ α) (k k' : κ) :
    (t.erase k).get? k' = if k = k' then none else t.get? k' := by
  unfold get? erase
  simp only
  generalize t.rows = l
  induction l with
  | nil => simp [find]
  | cons row rest ih =>
    obtain ⟨q, w⟩ := row
    by_cases hq : q = k
    · subst hq
      by_cases h : q = k' <;> simp_all [find]
    · by_cases h : k = k' <;> by_cases hk : q = k' <;> simp_all [find]

end Table
end StudyArchive
