import Mathlib.Data.List.Forall2
import StudyArchive.Codec.Text
import StudyArchive.Proofs.Step
/-
# What readers read back

`Reader.Reads reader bytes v` says that the reader takes exactly these bytes off the front and gives
`v`, whatever bytes follow.  The relation composes the way readers do, so that what a layout writes
field by field is read back field by field.  In the other direction, the bytes that a word was read
from are the bytes of its value.
-/

namespace StudyArchive

variable {α β : Type}

namespace Reader

/-- A reader takes exactly these bytes off the front, whatever follows, and gives this value. -/
def Reads (reader : Reader α) (bytes : Bytes) (v : α) : Prop :=
  ∀ rest, reader (bytes ++ rest) = .ok (v, rest)

theorem Reads.all {reader : Reader α} {bytes : Bytes} {v : α} (h : Reads reader bytes v) :
    reader bytes = .ok (v, []) := by
  simpa using h []

/-! ## Composition

`Reads` follows the monad of readers: what is read first comes first in the bytes. -/

theorem reads_pure (v : α) : Reads (pure v) [] v := fun _ => rfl

theorem Reads.bind {reader : Reader α} {next : α → Reader β} {front back : Bytes} {v : α} {w : β}
    (first : Reads reader front v) (second : Reads (next v) back w) :
    Reads (reader >>= next) (front ++ back) w := by
  intro rest
  show Except.bind (reader (front ++ back ++ rest)) (fun r => next r.1 r.2) = _
  rw [List.append_assoc, first]
  exact second rest

/-- A reader whose value is only turned into another one. -/
theorem Reads.bind_pure {reader : Reader α} {bytes : Bytes} {v : α} (f : α → β)
    (h : Reads reader bytes v) : Reads (reader >>= fun x => pure (f x)) bytes (f v) := by
  have step : Reads (reader >>= fun x => pure (f x)) (bytes ++ []) (f v) :=
    h.bind (reads_pure (f v))
  rwa [List.append_nil] at step

/-- A reader that is used as often as there are values to read, one after the other. -/
theorem reads_times {reader : Reader α} {codes : List Bytes} {values : List α}
    (each : List.Forall₂ (Reads reader) codes values) :
    Reads (reader.times values.length) codes.flatten values := by
  induction each with
  | nil => exact reads_pure []
  | cons first _ ih => exact first.bind (ih.bind_pure _)

/-- Of what is read, no bytes begin like those of another value and then go on. -/
theorem Reads.eq_of_prefix {reader : Reader α} {bytes bytes' : Bytes} {v w : α}
    (h : Reads reader bytes v) (h' : Reads reader bytes' w) (front : bytes <+: bytes') :
    v = w ∧ bytes = bytes' := by
  obtain ⟨rest, rfl⟩ := front
  obtain ⟨rfl, rfl⟩ := Prod.mk.inj (Except.ok.inj ((h rest).symm.trans h'.all))
  exact ⟨rfl, (List.append_nil bytes).symm⟩

/-! ## Words, blocks and strings -/

theorem reads_take (bytes : Bytes) : Reads (take bytes.length) bytes bytes :=
  take_append bytes

theorem reads_word {width n : Nat} (h : n < Bytes.span width) :
    Reads (word width) (Bytes.ofNat width n) n :=
  word_ofNat_append h

theorem reads_uint16 (n : UInt16) : Reads (word 2) (Bytes.ofNat 2 n.toNat) n.toNat :=
  reads_word (UInt16.toNat_lt n)

theorem reads_uint32 (n : UInt32) : Reads (word 4) (Bytes.ofNat 4 n.toNat) n.toNat :=
  reads_word (UInt32.toNat_lt n)

theorem reads_uint64 (n : UInt64) : Reads (word 8) (Bytes.ofNat 8 n.toNat) n.toNat :=
  reads_word (UInt64.toNat_lt n)

theorem reads_text (s : String) :
    Reads (Reader.text (Bytes.ofText s).length) (Bytes.ofText s) s := by
  have decoded : Reads (Reader.text (Bytes.ofText s).length) (Bytes.ofText s ++ []) s := by
    refine (reads_take (Bytes.ofText s)).bind ?_
    rw [Bytes.toText?_ofText]
    exact reads_pure s
  rwa [List.append_nil] at decoded

end Reader

/-! ## Words and the bytes they are read from -/

namespace Bytes

theorem toNat_lt (bytes : Bytes) : toNat bytes < span bytes.length := by
  induction bytes with
  | nil => simp [toNat, span]
  | cons b rest ih =>
    have low := b.toNat_lt
    simp only [toNat, List.length_cons, span]
    omega

theorem ofNat_toNat (bytes : Bytes) : ofNat bytes.length (toNat bytes) = bytes := by
  induction bytes with
  | nil => rfl
  | cons b rest ih =>
    have low := b.toNat_lt
    have same : UInt8.ofNat (b.toNat + 256 * toNat rest) = b := by
      apply UInt8.toNat_inj.1
      rw [UInt8.toNat_ofNat']
      omega
    have more : (b.toNat + 256 * toNat rest) / 256 = toNat rest := by omega
    rw [toNat, List.length_cons, ofNat, same, more, ih]

end Bytes

namespace Reader

theorem take_eq_ok {n : Nat} {bytes front rest : Bytes} (h : take n bytes = .ok (front, rest)) :
    front.length = n ∧ bytes = front ++ rest := by
  unfold take at h
  simp only at h
  split at h
  · next size =>
    cases h
    exact ⟨size, (List.take_append_drop n bytes).symm⟩
  · cases h

theorem word_eq_ok {width n : Nat} {bytes rest : Bytes} (h : word width bytes = .ok (n, rest)) :
    n < Bytes.span width ∧ bytes = Bytes.ofNat width n ++ rest := by
  obtain ⟨⟨front, after⟩, taken, h⟩ := exists_of_bind_eq_ok h
  cases h
  obtain ⟨rfl, rfl⟩ := take_eq_ok taken
  exact ⟨Bytes.toNat_lt front, by rw [Bytes.ofNat_toNat]⟩

end Reader
/-! ## What readers give

A property of all values that a reader can give, whatever the bytes are. -/

namespace Reader

/-- Whatever the reader gives has a property. -/
def Gives (reader : Reader α) (P : α → Prop) : Prop :=
  ∀ bytes v rest, reader bytes = .ok (v, rest) → P v

theorem gives_pure {P : α → Prop} {v : α} (h : P v) : Gives (pure v) P := by
  intro bytes w rest read
  cases read
  exact h

/-- What a sequence of readers gives is what the second one gives after some value of the first. -/
theorem gives_bind {reader : Reader α} {next : α → Reader β} {P : α → Prop} {Q : β → Prop}
    (first : Gives reader P) (second : ∀ v, P v → Gives (next v) Q) :
    Gives (reader >>= next) Q := by
  intro bytes w rest read
  obtain ⟨⟨v, more⟩, head, tail⟩ := exists_of_bind_eq_ok
    (x := reader bytes) (f := fun r => next r.1 r.2) read
  exact second v (first bytes v more head) more w rest tail

theorem gives_any (reader : Reader α) : Gives reader fun _ => True :=
  fun _ _ _ _ => trivial

theorem gives_times {reader : Reader α} {P : α → Prop} (each : Gives reader P) (n : Nat) :
    Gives (reader.times n) fun l => ∀ x ∈ l, P x := by
  induction n with
  | zero => exact gives_pure (by simp)
  | succ n ih =>
    refine gives_bind each fun x hx => gives_bind ih fun l hl => gives_pure ?_
    simpa using ⟨hx, hl⟩

theorem gives_length_times (reader : Reader α) (n : Nat) :
    Gives (reader.times n) fun l => l.length = n := by
  induction n with
  | zero => exact gives_pure rfl
  | succ n ih =>
    refine gives_bind (gives_any reader) fun x _ => gives_bind ih fun l length => gives_pure ?_
    rw [List.length_cons, length]

theorem Gives.and {reader : Reader α} {P Q : α → Prop} (h : Gives reader P)
    (h' : Gives reader Q) : Gives reader fun v => P v ∧ Q v := by
  intro bytes v rest read
  exact ⟨h bytes v rest read, h' bytes v rest read⟩

end Reader

end StudyArchive
