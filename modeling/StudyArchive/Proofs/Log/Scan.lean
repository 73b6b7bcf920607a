import StudyArchive.Log.Replay
import StudyArchive.Proofs.Log.ReadBack
/-
# Scanning whole and torn logs

The bytes of a log are frames one after the other (`Log.joined`) and perhaps a tail that is none.
A scan goes through the frames and on with what follows them (`Log.scan_joined_append`), every scan
is the scan of such a row of frames (`Log.exists_scanned`), and a scan of a log that was cut short
anywhere finds exactly the frames that end before the cut (`Log.scan_take`): a frame's first part
never passes for a frame, because it announces more bytes than there are.
-/

namespace StudyArchive

/-- A record and the frame that it is read from. -/
structure LoggedRecord where
  record : Record
  bytes : Bytes
  /-- The bytes are one frame, of this record. -/
  intact : Log.head 0 bytes = .ok (bytes.length, record)

namespace Log

/-! ## The head of the bytes -/

/-- Bytes begin with a frame if they go on as far as they announce and what they announce decodes;
where they lie does not matter. -/
theorem head_eq_ok_iff {p n : Nat} {bytes : Bytes} {r : Record} :
    head p bytes = .ok (n, r) ↔
      Bytes.toNat (bytes.take 4) = n ∧ Frame.overhead ≤ n ∧ n ≤ bytes.length ∧
        Record.decode (bytes.take n) = .ok r := by
  unfold head
  constructor
  · intro h
    split at h
    · cases h
    · simp only at h
      split at h
      · cases h
      · split at h
        · next read =>
          simp only [Except.ok.injEq, Prod.mk.injEq] at h
          obtain ⟨announced, rfl⟩ := h
          exact ⟨announced, by omega, by omega, announced ▸ read⟩
        · cases h
  · rintro ⟨announced, long, within, read⟩
    rw [if_neg (by omega)]
    simp only [announced]
    rw [if_neg (by omega), read]

theorem head_append (l : LoggedRecord) (p : Nat) (rest : Bytes) :
    head p (l.bytes ++ rest) = .ok (l.bytes.length, l.record) := by
  obtain ⟨announced, long, -, read⟩ := head_eq_ok_iff.1 l.intact
  have four : 4 ≤ l.bytes.length := by simp only [Frame.overhead] at long; omega
  refine head_eq_ok_iff.2 ⟨?_, long, by simp, ?_⟩
  · rwa [List.take_append_of_le_length four]
  · rwa [List.take_left, ← List.take_length (l := l.bytes)]

/-- The first part of a frame is no frame: it announces more bytes than there are. -/
theorem head_take (l : LoggedRecord) (p : Nat) {n : Nat} (short : n < l.bytes.length) :
    ∃ torn, head p (l.bytes.take n) = .error torn := by
  obtain ⟨announced, -, -, -⟩ := head_eq_ok_iff.1 l.intact
  cases found : head p (l.bytes.take n) with
  | error torn => exact ⟨torn, rfl⟩
  | ok first =>
    obtain ⟨m, r⟩ := first
    obtain ⟨same, long, within, -⟩ := head_eq_ok_iff.1 found
    simp only [List.length_take, Frame.overhead] at long within
    rw [List.take_take, Nat.min_eq_left (by omega)] at same
    omega

/-! ## Rows of frames -/

/-- The bytes of frames one after the other. -/
def joined (ls : List LoggedRecord) : Bytes := ls.flatMap LoggedRecord.bytes

/-- The records of frames, each with the position of its frame, from a position on. -/
def placed : (position : Nat) → List LoggedRecord → List (Nat × Record)
  | _, [] => []
  | position, l :: ls => (position, l.record) :: placed (position + l.bytes.length) ls

/-- The frames from a position on that end by another. -/
def endingBy (n : Nat) : (position : Nat) → List LoggedRecord → List LoggedRecord
  | _, [] => []
  | position, l :: ls =>
    if position + l.bytes.length ≤ n then l :: endingBy n (position + l.bytes.length) ls else []

@[simp] theorem joined_nil : joined [] = [] := rfl

@[simp] theorem joined_cons (l : LoggedRecord) (ls : List LoggedRecord) :
    joined (l :: ls) = l.bytes ++ joined ls := rfl

theorem joined_append (ls ms : List LoggedRecord) :
    joined (ls ++ ms) = joined ls ++ joined ms := by
  simp [joined]

theorem placed_append (p : Nat) (ls ms : List LoggedRecord) :
    placed p (ls ++ ms) = placed p ls ++ placed (p + (joined ls).length) ms := by
  induction ls generalizing p with
  | nil => simp [placed]
  | cons l ls ih => simp [placed, ih, Nat.add_assoc]

theorem map_placed (p : Nat) (ls : List LoggedRecord) :
    (placed p ls).map (·.2) = ls.map LoggedRecord.record := by
  induction ls generalizing p with
  | nil => rfl
  | cons l ls ih => simp [placed, ih]

theorem bytes_ne_nil (l : LoggedRecord) : l.bytes ≠ [] := by
  have bound := (overhead_le_of_head l.intact).1
  intro empty
  rw [empty] at bound
  simp [Frame.overhead] at bound

/-! ## Scans

A scan is a recursion on the bytes that are left, and follows the frames as they were placed. -/

theorem scan_nil (p : Nat) : scan p [] = ⟨[], p, none⟩ := by
  rw [scan, if_pos rfl]

theorem scan_torn {p : Nat} {bytes : Bytes} {torn : TornTail} (some : bytes ≠ [])
    (h : head p bytes = .error torn) : scan p bytes = ⟨[], p, .some torn⟩ := by
  rw [scan, if_neg some]
  split
  · next eq => rw [h] at eq; cases eq; rfl
  · next eq => rw [h] at eq; cases eq

theorem scan_cons (l : LoggedRecord) (p : Nat) (rest : Bytes) :
    scan p (l.bytes ++ rest) =
      { scan (p + l.bytes.length) rest with
        records := (p, l.record) :: (scan (p + l.bytes.length) rest).records } := by
  have first := head_append l p rest
  rw [scan, if_neg (by simp [bytes_ne_nil l])]
  split
  · next eq => rw [first] at eq; cases eq
  · next eq =>
    rw [first] at eq
    cases eq
    simp

/-- A scan goes through a row of frames and on with what follows it. -/
theorem scan_joined_append (p : Nat) (ls : List LoggedRecord) (rest : Bytes) :
    scan p (joined ls ++ rest) =
      { scan (p + (joined ls).length) rest with
        records := placed p ls ++ (scan (p + (joined ls).length) rest).records } := by
  induction ls generalizing p with
  | nil => simp [placed]
  | cons l ls ih =>
    rw [joined_cons, List.append_assoc, scan_cons, ih]
    simp [placed, Nat.add_assoc]

/-- Whatever the bytes are, a scan splits them into frames and a tail. -/
theorem exists_scanned (p : Nat) (bytes : Bytes) :
    ∃ ls tail, bytes = joined ls ++ tail ∧ (scan p bytes).records = placed p ls ∧
      (scan p bytes).validEnd = p + (joined ls).length := by
  induction p, bytes using scan.induct with
  | case1 p => exact ⟨[], [], rfl, by simp [scan_nil, placed], by simp [scan_nil]⟩
  | case2 p bytes some torn h =>
    exact ⟨[], bytes, rfl, by simp [scan_torn some h, placed], by simp [scan_torn some h]⟩
  | case3 p bytes some n r h ih =>
    obtain ⟨ls, tail, split, records, ending⟩ := ih
    have bound := overhead_le_of_head h
    have size : (bytes.take n).length = n := by simp; omega
    have front : head 0 (bytes.take n) = .ok ((bytes.take n).length, r) := by
      obtain ⟨announced, long, -, read⟩ := head_eq_ok_iff.1 h
      have four : 4 ≤ n := by simp only [Frame.overhead] at long; omega
      refine head_eq_ok_iff.2 ⟨?_, by omega, by omega, ?_⟩
      · rw [List.take_take, Nat.min_eq_left four, announced, size]
      · rwa [size, List.take_take, Nat.min_self]
    let l : LoggedRecord := ⟨r, bytes.take n, front⟩
    have whole : bytes = l.bytes ++ bytes.drop n := (List.take_append_drop n bytes).symm
    have step := scan_cons l p (bytes.drop n)
    rw [← whole, size] at step
    refine ⟨l :: ls, tail, ?_, ?_, ?_⟩
    · rw [joined_cons, List.append_assoc, ← split]
      exact whole
    · rw [step, placed, size, ← records]
    · rw [step, joined_cons, List.length_append, size, ← Nat.add_assoc]
      exact ending

/-! ## Logs cut short

A cut leaves the frames before it whole, and of the next one a first part, which is refused. -/

theorem endingBy_isPrefix (n p : Nat) (ls : List LoggedRecord) : endingBy n p ls <+: ls := by
  induction ls generalizing p with
  | nil => exact List.prefix_rfl
  | cons l ls ih =>
    rw [endingBy]
    split
    · exact List.cons_prefix_cons.2 ⟨rfl, ih _⟩
    · exact List.nil_prefix

theorem length_endingBy_le {n p : Nat} (ls : List LoggedRecord) (low : p ≤ n) :
    p + (joined (endingBy n p ls)).length ≤ n := by
  induction ls generalizing p with
  | nil => exact low
  | cons l ls ih =>
    rw [endingBy]
    split
    · next whole =>
      rw [joined_cons, List.length_append, ← Nat.add_assoc]
      exact ih whole
    · exact low

/-- Frames that end before the end of all of them are all of them. -/
theorem endingBy_all (p : Nat) (ls : List LoggedRecord) :
    endingBy (p + (joined ls).length) p ls = ls := by
  induction ls generalizing p with
  | nil => rfl
  | cons l ls ih =>
    rw [endingBy, joined_cons, List.length_append, if_pos (by omega), ← Nat.add_assoc, ih]

/-- A scan of a log that was cut short finds the frames that end before the cut. -/
theorem scan_take (p n : Nat) (ls : List LoggedRecord) :
    (scan p ((joined ls).take n)).records = placed p (endingBy (p + n) p ls) ∧
      (scan p ((joined ls).take n)).validEnd = p + (joined (endingBy (p + n) p ls)).length := by
  induction ls generalizing p n with
  | nil => simp [scan_nil, endingBy, placed]
  | cons l ls ih =>
    rw [endingBy, joined_cons]
    by_cases whole : l.bytes.length ≤ n
    · rw [if_pos (by omega), List.take_append, List.take_of_length_le whole, scan_cons]
      obtain ⟨records, ending⟩ := ih (p + l.bytes.length) (n - l.bytes.length)
      have same : p + l.bytes.length + (n - l.bytes.length) = p + n := by omega
      rw [same] at records ending
      exact ⟨by simp [records, placed], by simp [ending, Nat.add_assoc]⟩
    · rw [if_neg (by omega), List.take_append_of_le_length (by omega)]
      by_cases none : n = 0
      · simp [none, scan_nil, placed]
      · obtain ⟨torn, h⟩ := head_take l p (Nat.lt_of_not_le whole)
        have some : l.bytes.take n ≠ [] := by simp [none, bytes_ne_nil]
        simp [scan_torn some h, placed]

end Log

/-! ## Frames of records -/

/-- The frame of a record, if it says all of the record. -/
def LoggedRecord.ofRecord (r : Record) (bytes : Bytes) (plain : r.isPlain)
    (h : r.encode = .ok bytes) : LoggedRecord where
  record := r
  bytes
  intact := by
    have size := Record.length_of_encode h
    refine Log.head_eq_ok_iff.2 ⟨size, Record.overhead_le_of_encode h, Nat.le_refl _, ?_⟩
    rw [List.take_length, Record.decode_encode plain h]

end StudyArchive
