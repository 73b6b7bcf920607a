/-
# Maps listed in key order

A finite map is the list of its entries, strictly increasing in the key.  Lookup finds the entry
with the key, insertion replaces it or files it at its place.  Two maps are equal exactly when they
have the same entries, and the order in which `entries` lists them is the order every answer shows.
-/

namespace StudyArchive

/-- A finite map, its entries strictly increasing in the key. -/
structure SortedMap (κ : Type) (α : Type) [Ord κ] where
  /-- The entries, in key order. -/
  entries : List (κ × α)
  /-- No entry is at or below an earlier one. -/
  increasing : entries.Pairwise fun a b => compare a.1 b.1 = .lt

namespace SortedMap

variable {κ α β : Type} [Ord κ]

def empty : SortedMap κ α := ⟨[], .nil⟩

instance : EmptyCollection (SortedMap κ α) := ⟨empty⟩
instance : Inhabited (SortedMap κ α) := ⟨empty⟩

instance [DecidableEq κ] [DecidableEq α] : DecidableEq (SortedMap κ α) := fun a b =>
  if h : a.entries = b.entries then
    isTrue (by cases a; cases b; simp_all)
  else isFalse (fun e => h (e ▸ rfl))

def size (m : SortedMap κ α) : Nat := m.entries.length

def keys (m : SortedMap κ α) : List κ := m.entries.map (·.1)

/-- The values, in the order of their keys. -/
def values (m : SortedMap κ α) : List α := m.entries.map (·.2)

def get? [DecidableEq κ] (m : SortedMap κ α) (k : κ) : Option α :=
  (m.entries.find? fun e => e.1 = k).map (·.2)

def contains [DecidableEq κ] (m : SortedMap κ α) (k : κ) : Bool := (m.get? k).isSome

/-- The entry list with one entry replaced or filed at its place. -/
def file (k : κ) (v : α) : List (κ × α) → List (κ × α)
  | [] => [(k, v)]
  | e :: rest =>
    match compare k e.1 with
    | .lt => (k, v) :: e :: rest
    | .eq => (k, v) :: rest
    | .gt => e :: file k v rest

theorem mem_file {k : κ} {v : α} {e : κ × α} {l : List (κ × α)} (h : e ∈ file k v l) :
    e = (k, v) ∨ e ∈ l := by
  induction l with
  | nil => simpa [file] using h
  | cons a rest ih =>
    rw [file] at h
    split at h <;> simp only [List.mem_cons] at h ⊢ <;> grind

open Std in
theorem pairwise_file [TransOrd κ] {k : κ} {v : α} {l : List (κ × α)}
    (h : l.Pairwise fun a b => compare a.1 b.1 = .lt) :
    (file k v l).Pairwise fun a b => compare a.1 b.1 = .lt := by
  induction l with
  | nil => simp [file]
  | cons a rest ih =>
    obtain ⟨first, tail⟩ := List.pairwise_cons.1 h
    rw [file]
    split
    · next lt =>
      refine List.pairwise_cons.2 ⟨fun e he => ?_, h⟩
      rcases List.mem_cons.1 he with rfl | he
      · exact lt
      · exact TransCmp.lt_trans lt (first e he)
    · next eq =>
      exact List.pairwise_cons.2 ⟨fun e he => TransCmp.lt_of_eq_of_lt eq (first e he), tail⟩
    · next gt =>
      refine List.pairwise_cons.2 ⟨fun e he => ?_, ih tail⟩
      rcases mem_file he with rfl | he
      · exact OrientedCmp.lt_of_gt gt
      · exact first e he

/-- The map with a key filed under a new value. -/
def insert [Std.TransOrd κ] (m : SortedMap κ α) (k : κ) (v : α) : SortedMap κ α :=
  ⟨file k v m.entries, pairwise_file m.increasing⟩

open Std in
theorem get?_insert_self [DecidableEq κ] [TransOrd κ] [LawfulEqOrd κ]
    (m : SortedMap κ α) (k : κ) (v : α) : (m.insert k v).get? k = some v := by
  unfold get? insert
  simp only
  generalize m.entries = l
  induction l with
  | nil => simp [file]
  | cons a rest ih =>
    rw [file]
    split
    · simp
    · simp
    · next gt =>
      have ne : a.1 ≠ k := by
        rintro rfl
        simp [ReflOrd.compare_self] at gt
      simpa [List.find?_cons, ne] using ih

open Std in
theorem get?_insert_of_ne [DecidableEq κ] [TransOrd κ] [LawfulEqOrd κ]
    (m : SortedMap κ α) {k k' : κ} (v : α) (ne : k ≠ k') :
    (m.insert k v).get? k' = m.get? k' := by
  unfold get? insert
  simp only
  generalize m.entries = l
  induction l with
  | nil => simp [file, ne]
  | cons a rest ih =>
    rw [file]
    split
    · simp [ne]
    · next eq =>
      have same : k = a.1 := LawfulEqOrd.eq_of_compare eq
      simp [ne, ← same]
    · by_cases h : a.1 = k'
      · simp [h]
      · simpa [List.find?_cons, h] using ih

end SortedMap
end StudyArchive
