import StudyArchive.Proofs.Log.Heading
import StudyArchive.Proofs.Log.Scan
/-
# Logs of any bytes

Any bytes after a good header can be read.  The frames that a scan finds lie edge to edge from the
header to the valid end (`Log.Tiled`), and it goes on as long as a whole frame follows: no frame
begins at the end that it reports (`Log.exhausts_scan`).  Frames that lie so are also all that a
scan of the bytes up to their end finds (`Log.Tiled.scan_eq`).  `Replay.reads_tiled` says both of a
log with its header.
-/

namespace StudyArchive

namespace Log

/-- A frame at a position of the bytes: it goes as far as it declares, and all of it decodes. -/
structure FrameAt (bytes : Bytes) (position length : Nat) (r : Record) : Prop where
  declared : Bytes.toNat ((bytes.drop position).take 4) = length
  within : position + length ≤ bytes.length
  decoded : Record.decode ((bytes.drop position).take length) = .ok r

/-- Frames edge to edge from one position of the bytes to another, told by their records, each with
the position of its frame. -/
inductive Tiled (bytes : Bytes) : (start stop : Nat) → List (Nat × Record) → Prop
  | nil (position : Nat) : Tiled bytes position position []
  | cons {start length stop : Nat} {r : Record} {records : List (Nat × Record)}
      (first : FrameAt bytes start length r) (rest : Tiled bytes (start + length) stop records) :
      Tiled bytes start stop ((start, r) :: records)

variable {bytes : Bytes} {p n : Nat} {r : Record}

theorem overhead_le_of_decode (h : Record.decode bytes = .ok r) :
    Frame.overhead ≤ bytes.length := by
  by_contra short
  rw [Record.decode, if_pos (Nat.lt_of_not_le short)] at h
  cases h

/-- A frame is at a position if the bytes from there on begin with one. -/
theorem frameAt_iff_head {q : Nat} : FrameAt bytes p n r ↔ head q (bytes.drop p) = .ok (n, r) := by
  rw [head_eq_ok_iff, List.length_drop]
  constructor
  · intro frame
    have long := overhead_le_of_decode frame.decoded
    have within := frame.within
    rw [List.length_take, List.length_drop] at long
    exact ⟨frame.declared, by omega, by omega, frame.decoded⟩
  · rintro ⟨declared, long, within, decoded⟩
    simp only [Frame.overhead] at long
    exact ⟨declared, by omega, decoded⟩

theorem FrameAt.long (h : FrameAt bytes p n r) : Frame.overhead ≤ n :=
  (head_eq_ok_iff.1 (frameAt_iff_head.1 h : head p _ = _)).2.1

/-- Bytes after the frame do not count. -/
theorem FrameAt.take (h : FrameAt bytes p n r) {stop : Nat} (low : p + n ≤ stop) :
    FrameAt (bytes.take stop) p n r := by
  have long := h.long
  simp only [Frame.overhead] at long
  have part {k : Nat} (inner : k ≤ n) :
      ((bytes.take stop).drop p).take k = (bytes.drop p).take k := by
    rw [List.drop_take, List.take_take, Nat.min_eq_left (by omega)]
  refine ⟨?_, ?_, ?_⟩
  · rw [part (by omega)]
    exact h.declared
  · rw [List.length_take]
    exact Nat.le_min.2 ⟨low, h.within⟩
  · rw [part (Nat.le_refl n)]
    exact h.decoded

/-- A scan that comes to a frame takes it and goes on behind it. -/
theorem scan_of_head (h : head p bytes = .ok (n, r)) :
    scan p bytes =
      { scan (p + n) (bytes.drop n) with
        records := (p, r) :: (scan (p + n) (bytes.drop n)).records } := by
  have some : bytes ≠ [] := by
    intro none
    have bound := overhead_le_of_head h
    rw [none, List.length_nil] at bound
    simp only [Frame.overhead] at bound
    omega
  rw [scan, if_neg some]
  split
  · next refused => rw [h] at refused; cases refused
  · next taken => rw [h] at taken; cases taken; rfl

/-! ## What a scan finds

A scan ends where no frame begins, and this end is the one it reports. -/

/-- What a scan of the bytes from a position on comes to: frames edge to edge, as many as there are,
and a reason to stop where bytes are left. -/
structure Exhausts (bytes : Bytes) (p : Nat) (s : Scan) : Prop where
  tiled : Tiled bytes p s.validEnd s.records
  within : s.validEnd ≤ bytes.length
  whole : s.torn = none ↔ s.validEnd = bytes.length
  last : s.torn ≠ none → ∀ n r, ¬FrameAt bytes s.validEnd n r

/-- Whatever the bytes are: the induction is on the scan itself, which is at a position of them. -/
theorem exhausts_scan (low : p ≤ bytes.length) : Exhausts bytes p (scan p (bytes.drop p)) := by
  generalize rest_eq : bytes.drop p = rest
  induction p, rest using scan.induct with
  | case1 p =>
    have all : p = bytes.length := Nat.le_antisymm low (List.drop_eq_nil_iff.1 rest_eq)
    rw [scan_nil]
    exact ⟨.nil p, low, by simp [all], fun torn => absurd rfl torn⟩
  | case2 p rest some torn h =>
    have more : p ≠ bytes.length := by
      intro all
      exact some (rest_eq.symm.trans (List.drop_of_length_le (Nat.le_of_eq all.symm)))
    rw [scan_torn some h]
    refine ⟨.nil p, low, by simp [more], fun _ n r frame => ?_⟩
    have taken : head p (bytes.drop p) = .ok (n, r) := frameAt_iff_head.1 frame
    rw [rest_eq, h] at taken
    cases taken
  | case3 p rest some n r h ih =>
    have frame : FrameAt bytes p n r := frameAt_iff_head.2 (rest_eq ▸ h)
    obtain ⟨tiled, within, whole, last⟩ :=
      ih frame.within (by rw [← rest_eq, List.drop_drop])
    rw [scan_of_head h]
    exact ⟨.cons frame tiled, within, whole, last⟩

/-! ## Frames that lie edge to edge -/

theorem Tiled.le {stop : Nat} {records : List (Nat × Record)} (h : Tiled bytes p stop records) :
    p ≤ stop := by
  induction h with
  | nil => exact Nat.le_refl _
  | cons _ _ ih => exact Nat.le_trans (Nat.le_add_right ..) ih

/-- The bytes that are tiled, by themselves, are scanned as the frames that they are. -/
theorem Tiled.scan_eq {stop : Nat} {records : List (Nat × Record)}
    (h : Tiled bytes p stop records) :
    scan p ((bytes.take stop).drop p) = ⟨records, stop, none⟩ := by
  induction h with
  | nil p =>
    rw [List.drop_of_length_le (List.length_take_le ..), scan_nil]
  | @cons start n stop r records first rest ih =>
    have there : head start ((bytes.take stop).drop start) = .ok (n, r) :=
      frameAt_iff_head.1 (first.take rest.le)
    rw [scan_of_head there, List.drop_drop, ih]

end Log

namespace Replay

open Log

theorem ofBytes_of_header {bytes : Bytes} {header : Header}
    (decoded : Header.decode bytes = .ok header) (valid : header.fault? = none) (file : String) :
    ofBytes file bytes = .ok ⟨header, Log.scan Header.size (bytes.drop Header.size)⟩ := by
  simp only [ofBytes, decoded, valid]

/-- Whatever follows a header that is in order, it is read.  The records that are found have their
frames edge to edge from the header to the valid end, each with the position of its frame and as
that frame decodes.  There is no torn tail exactly if the valid end is the end of the bytes;
otherwise no frame that decodes at the length it declares begins there.  And the bytes up to the
valid end are read as the same records, without a torn tail. -/
theorem reads_tiled {bytes : Bytes} {header : Header}
    (decoded : Header.decode bytes = .ok header) (valid : header.fault? = none) (file : String) :
    ∃ s : Scan, ofBytes file bytes = .ok ⟨header, s⟩ ∧
      Tiled bytes Header.size s.validEnd s.records ∧ s.validEnd ≤ bytes.length ∧
      (s.torn = none ↔ s.validEnd = bytes.length) ∧
      (s.torn ≠ none → ∀ n r, ¬FrameAt bytes s.validEnd n r) ∧
      ofBytes file (bytes.take s.validEnd) = .ok ⟨header, ⟨s.records, s.validEnd, none⟩⟩ := by
  obtain ⟨rest, bytes_eq⟩ := Header.exists_eq_encode_append decoded
  have enough : Header.size ≤ bytes.length := by
    rw [bytes_eq, List.length_append, header.length_encode]
    exact Nat.le_add_right ..
  obtain ⟨tiled, within, whole, last⟩ := exhausts_scan enough
  refine ⟨_, ofBytes_of_header decoded valid file, tiled, within, whole, last, ?_⟩
  have front {stop : Nat} (behind : Header.size ≤ stop) :
      Header.decode (bytes.take stop) = .ok header := by
    rw [bytes_eq, List.take_append, List.take_of_length_le (header.length_encode ▸ behind)]
    exact header.decode_encode_append _
  rw [ofBytes_of_header (front tiled.le) valid, tiled.scan_eq]

/-- A header, a frame, and the first bytes of another one. -/
def tornLog : Bytes := (Header.ofStamp default).encode ++
  [0x14, 0, 0, 0, 0xDC, 0x2E, 0xD6, 0xF9, 5, 2, 0, 0, 0, 0x2F, 0x78, 1, 0, 0, 0, 0x79] ++
  [0x14, 0, 0, 0, 0xDC, 0x2E, 0xD6, 0xF9, 5, 2, 0]

theorem reads_tiled_of_torn :
    Header.decode tornLog = .ok (.ofStamp default) ∧ (Header.ofStamp default).fault? = none ∧
      ∃ s : Scan, ofBytes "c.edb" tornLog = .ok ⟨.ofStamp default, s⟩ ∧
        s = ⟨[(128, .markScale (.ofText "/x") "y")], 148, some (.badLength 148 20 11)⟩ ∧
        Tiled tornLog 128 148 s.records ∧ (∀ n r, ¬FrameAt tornLog 148 n r) ∧
        ofBytes "c.edb" (tornLog.take 148) = .ok ⟨.ofStamp default, ⟨s.records, 148, none⟩⟩ := by
  have decoded : Header.decode tornLog = .ok (.ofStamp default) := by
    rw [tornLog, List.append_assoc]
    exact Header.decode_encode_append _ _
  have valid : (Header.ofStamp default).fault? = none := by decide +kernel
  obtain ⟨s, read, tiled, -, -, last, cut⟩ := reads_tiled decoded valid "c.edb"
  have found : s = ⟨[(128, .markScale (.ofText "/x") "y")], 148, some (.badLength 148 20 11)⟩ := by
    rw [ofBytes_of_header decoded valid] at read
    cases read
    decide +kernel
  subst found
  exact ⟨decoded, valid, _, read, rfl, tiled, last (by simp), cut⟩

end Replay
end StudyArchive
