import StudyArchive.Codec.Bytes
/-
# Machine words

Extents, indices and numbers of cells are words of eight bytes, and a program reckons with them as
with numbers as long as every sum and every product is a word again.  Where one is not, it depends
on how the program was built: it stops, or it goes on with what remains modulo 2^64, and then it may
come to an index that is outside its array and stop there.  What is said of a computation for each
`Arithmetic` holds however the program was built.
-/

namespace StudyArchive

/-- Whether a number is a word of eight bytes. -/
def IsWord (n : Nat) : Prop := n < Bytes.span 8

instance (n : Nat) : Decidable (IsWord n) := inferInstanceAs (Decidable (n < Bytes.span 8))

theorem isWord_one : IsWord 1 := by decide

theorem IsWord.mono {n k : Nat} (h : IsWord n) (le : k ≤ n) : IsWord k := Nat.lt_of_le_of_lt le h

/-- What becomes of a sum or a product that is no word. -/
inductive Arithmetic where
  /-- The program stops. -/
  | checked
  /-- It goes on modulo 2^64. -/
  | wrapping
  deriving DecidableEq

/-- What a computation comes to; nothing if it stops on the way. -/
abbrev Answer (α : Type) := Option α

theorem Answer.bind_eq {α β : Type} {x : Answer α} {v : α} (h : x = some v) (f : α → Answer β) :
    x >>= f = f v := by
  rw [h]
  rfl

/-- A sum or a product as a word. -/
def Arithmetic.word : Arithmetic → Nat → Answer Nat
  | checked, n => if IsWord n then some n else none
  | wrapping, n => some (n % Bytes.span 8)

/-- A sum or a product that is a word comes to itself. -/
theorem Arithmetic.word_eq (a : Arithmetic) {n : Nat} (h : IsWord n) : a.word n = some n := by
  cases a with
  | checked => exact if_pos h
  | wrapping => exact congrArg some (Nat.mod_eq_of_lt h)

end StudyArchive
