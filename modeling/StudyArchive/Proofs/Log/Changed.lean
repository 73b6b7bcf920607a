import StudyArchive.Proofs.Codec.Checksum
import StudyArchive.Proofs.Codec.Steady
import StudyArchive.Proofs.Log.RoundTrip
import StudyArchive.Proofs.Log.Scan
/-
# Frames with one byte changed

A frame has a length, a checksum, a kind and a payload, and the checksum is that of the payload
alone.  What becomes of a frame with one byte changed is told here byte by byte.

* In the checksum or the payload (`Record.refuses_changed_sum`): the frame is refused, because the
  two no longer fit each other.
* In the length (`Record.reads_changed_length`): a payload cut short cannot be read even where its
  checksum is right, since no reader of a payload is content with a first part of it.  A length that
  goes beyond the frame is refused where the bytes end; where other frames follow, the checksum of
  all that is then taken for the payload may happen to be the right one, and the record that is read
  is still the one that was written.
* In the kind (`Record.reads_changed_kind`): nothing guards this byte.  What is read, if anything,
  is a record of the other kind about the same object.

`Record.refuses_changed_byte` puts them together, for a frame by itself and for a scan that comes to
it.
-/

namespace StudyArchive

/-! ## Bytes -/

theorem Bytes.toNat_injective {a b : Bytes} (length : a.length = b.length)
    (same : Bytes.toNat a = Bytes.toNat b) : a = b := by
  rw [← Bytes.ofNat_toNat a, ← Bytes.ofNat_toNat b, length, same]

/-- Bytes with one of them changed are other bytes. -/
theorem Bytes.set_ne_self {bytes : Bytes} {i : Nat} (inside : i < bytes.length) {x : UInt8}
    (other : bytes[i] ≠ x) : bytes.set i x ≠ bytes := by
  intro same
  have here : (bytes.set i x)[i]? = bytes[i]? := by rw [same]
  rw [List.getElem?_set_self inside, List.getElem?_eq_getElem inside] at here
  exact other (Option.some.inj here).symm

/-- A stretch of bytes that a change does not reach. -/
theorem Bytes.part_unchanged (bytes rest : Bytes) {i k n : Nat} (x : UInt8)
    (inside : k + n ≤ bytes.length) (outside : i < k ∨ k + n ≤ i) :
    ((bytes.set i x ++ rest).drop k).take n = (bytes.drop k).take n := by
  rw [List.drop_append_of_le_length (by simp; omega),
    List.take_append_of_le_length (by simp; omega), List.drop_set]
  split
  · rfl
  · rw [List.take_set, List.set_eq_of_length_le (by simp; omega)]

theorem Bytes.part_changed (bytes rest : Bytes) {i k n : Nat} (x : UInt8)
    (inside : k + n ≤ bytes.length) (reached : k ≤ i) :
    ((bytes.set i x ++ rest).drop k).take n = ((bytes.drop k).take n).set (i - k) x := by
  rw [List.drop_append_of_le_length (by simp; omega),
    List.take_append_of_le_length (by simp; omega), List.drop_set, if_neg (by omega),
    List.take_set]

/-- The kind that a byte stands for has this byte. -/
theorem RecordKind.tag_of_ofTag? {n : Nat} {kind : RecordKind} (h : ofTag? n = some kind) :
    kind.tag = n := by
  unfold ofTag? at h
  simpa using List.find?_some h

/-! ## The object of a record

The path comes first in every payload, whatever the kind. -/

namespace Frame

open Reader

/-- Every payload begins with the path of the record's object. -/
theorem path_prefix_of_putPayload {r : Record} {bytes : Bytes} (h : putPayload r = .ok bytes) :
    ∃ front, putPath r.path = .ok front ∧ front <+: bytes := by
  cases r with
  | createGroup path => exact ⟨bytes, h, List.prefix_rfl⟩
  | createDataset path type dims extensible chunkRows fill =>
    obtain ⟨front, written, h⟩ := exists_of_bind_eq_ok h
    obtain ⟨_, -, h⟩ := exists_of_bind_eq_ok h
    obtain ⟨_, -, h⟩ := exists_of_bind_eq_ok h
    obtain ⟨_, -, h⟩ := exists_of_bind_eq_ok h
    obtain ⟨_, -, h⟩ := exists_of_bind_eq_ok h
    cases h
    refine ⟨front, written, ?_⟩
    simp only [List.append_assoc]
    exact List.prefix_append ..
  | extend path _ | markScale path _ | softLink path _ =>
    obtain ⟨front, written, h⟩ := exists_of_bind_eq_ok h
    obtain ⟨back, -, h⟩ := exists_of_bind_eq_ok h
    cases h
    exact ⟨front, written, List.prefix_append ..⟩
  | setAttribute path _ _ =>
    obtain ⟨front, written, h⟩ := exists_of_bind_eq_ok h
    obtain ⟨_, -, h⟩ := exists_of_bind_eq_ok h
    obtain ⟨_, -, h⟩ := exists_of_bind_eq_ok h
    cases h
    refine ⟨front, written, ?_⟩
    rw [List.append_assoc]
    exact List.prefix_append ..
  | write path _ _ _ | attachScale path _ _ _ =>
    obtain ⟨front, written, h⟩ := exists_of_bind_eq_ok h
    obtain ⟨_, -, h⟩ := exists_of_bind_eq_ok h
    obtain ⟨_, -, h⟩ := exists_of_bind_eq_ok h
    obtain ⟨_, -, h⟩ := exists_of_bind_eq_ok h
    cases h
    refine ⟨front, written, ?_⟩
    simp only [List.append_assoc]
    exact List.prefix_append ..

/-- Whatever the kind, a payload is read path first, and what follows leaves the object alone. -/
theorem exists_after_path (kind : RecordKind) :
    ∃ next : Path → Reader Record, getPayload kind = getPath >>= next ∧
      ∀ path, (next path).Gives fun r => r.kind = kind ∧ r.path = path := by
  cases kind with
  | createGroup =>
    refine ⟨_, rfl, fun path => ?_⟩
    exact gives_pure ⟨rfl, rfl⟩
  | createDataset =>
    refine ⟨_, rfl, fun path => ?_⟩
    refine gives_bind (gives_any _) fun type _ => gives_bind (gives_any _) fun dims _ =>
      gives_bind (gives_any _) fun extensible _ => gives_bind (gives_any _) fun chunkRows _ =>
        gives_bind (gives_any _) fun fill _ => gives_pure ?_
    exact ⟨rfl, rfl⟩
  | extend | markScale | softLink =>
    refine ⟨_, rfl, fun path => ?_⟩
    exact gives_bind (gives_any _) fun _ _ => gives_pure ⟨rfl, rfl⟩
  | setAttribute =>
    refine ⟨_, rfl, fun path => ?_⟩
    exact gives_bind (gives_any _) fun _ _ => gives_bind (gives_any _) fun _ _ =>
      gives_pure ⟨rfl, rfl⟩
  | attachScale =>
    refine ⟨_, rfl, fun path => ?_⟩
    exact gives_bind (gives_any _) fun _ _ => gives_bind (gives_any _) fun _ _ =>
      gives_bind (gives_any _) fun _ _ => gives_pure ⟨rfl, rfl⟩
  | write =>
    refine ⟨_, rfl, fun path => ?_⟩
    exact gives_bind (gives_any _) fun start _ => gives_bind (gives_any _) fun count _ =>
      gives_bind (gives_any _) fun length _ => gives_bind (gives_any _) fun payload _ =>
        gives_pure ⟨rfl, rfl⟩

/-- What a record's payload is read as for another kind, is about the same object. -/
theorem kind_path_of_getPayload {r r' : Record} {payload rest : Bytes} {kind : RecordKind}
    (written : putPayload r = .ok payload) (read : getPayload kind payload = .ok (r', rest)) :
    r'.kind = kind ∧ r'.path = r.path := by
  obtain ⟨front, named, back, rfl⟩ := path_prefix_of_putPayload written
  obtain ⟨next, layout, gives⟩ := exists_after_path kind
  rw [layout] at read
  obtain ⟨path, more, head, tail⟩ := bind_eq_ok read
  rw [reads_path named back] at head
  cases head
  exact gives _ _ _ _ tail

end Frame

namespace Record

/-! ## What reading a frame takes for granted

A frame opens if it is long enough, if its sum is right and if its payload can be read. -/

/-- Bytes that begin with a frame of so many bytes, with this kind and this payload. -/
structure Framed (bytes : Bytes) (n : Nat) (kind : RecordKind) (payload : Bytes) : Prop where
  announced : Bytes.toNat (bytes.take 4) = n
  long : Frame.overhead ≤ n
  within : n ≤ bytes.length
  kinded : RecordKind.ofTag? (Bytes.toNat ((bytes.drop 8).take 1)) = some kind
  inner : (bytes.take n).drop Frame.overhead = payload
  summed : (Checksum.crc32 payload).toNat = Bytes.toNat ((bytes.drop 4).take 4)

/-- Bytes that begin with a frame of so many bytes, which is read as this record. -/
def Opens (bytes : Bytes) (n : Nat) (r : Record) : Prop :=
  ∃ kind payload rest, Framed bytes n kind payload ∧
    Frame.getPayload kind payload = .ok (r, rest)

theorem opens_of_decode {bytes : Bytes} {r : Record} (h : decode bytes = .ok r) :
    ∃ n, Opens bytes n r := by
  unfold decode at h
  split at h
  · cases h
  · split at h
    · cases h
    · next kind kinded =>
      dsimp only at h
      split at h
      · cases h
      · next bounds =>
        split at h
        · cases h
        · next summed =>
          generalize inner : (bytes.take (Bytes.toNat (bytes.take 4))).drop Frame.overhead =
            payload at h summed
          cases read : Frame.getPayload kind payload with
          | error fault =>
            rw [read] at h
            cases h
          | ok result =>
            obtain ⟨r', rest⟩ := result
            rw [read] at h
            cases h
            exact ⟨_, kind, payload, rest, ⟨rfl, by omega, by omega, kinded, inner,
              Decidable.not_not.1 summed⟩, read⟩

/-- A frame and what follows it begin with that frame. -/
theorem Framed.of_take {bytes payload : Bytes} {n m : Nat} {kind : RecordKind}
    (long : Frame.overhead ≤ m) (h : Framed (bytes.take m) n kind payload) :
    Framed bytes n kind payload := by
  obtain ⟨announced, overhead, within, kinded, inner, summed⟩ := h
  simp only [Frame.overhead] at long
  rw [List.length_take] at within
  rw [List.take_take, Nat.min_eq_left (by omega)] at announced inner
  rw [List.drop_take, List.take_take, Nat.min_eq_left (by omega)] at kinded summed
  exact ⟨announced, overhead, by omega, kinded, inner, summed⟩

theorem opens_of_head {p n : Nat} {bytes : Bytes} {r : Record}
    (h : Log.head p bytes = .ok (n, r)) : Opens bytes n r := by
  obtain ⟨announced, long, -, read⟩ := Log.head_eq_ok_iff.1 h
  obtain ⟨m, kind, payload, rest, framed, inner⟩ := opens_of_decode read
  have whole := framed.of_take long
  have same : m = n := whole.announced.symm.trans announced
  exact ⟨kind, payload, rest, same ▸ whole, inner⟩

theorem framed_of_encode {r : Record} {bytes : Bytes} (h : r.encode = .ok bytes) :
    ∃ payload, Frame.putPayload r = .ok payload ∧
      payload.length < Bytes.span 4 ∧ Framed bytes bytes.length r.kind payload := by
  have size := length_of_encode h
  have long := overhead_le_of_encode h
  obtain ⟨payload, written, short, layout⟩ := encode_eq_ok h
  refine ⟨payload, written, by omega, size, long, Nat.le_refl _, ?_, ?_, ?_⟩
  · have part : (bytes.drop 8).take 1 = Bytes.ofNat 1 r.kind.tag := by
      rw [layout]
      simp [List.drop_append, List.take_append]
    rw [part, Bytes.toNat_ofNat_of_lt r.kind.tag_lt, RecordKind.ofTag?_tag]
  · rw [List.take_length, layout]
    simp [Frame.overhead, List.drop_append, List.drop_eq_nil_of_le]
  · have part : (bytes.drop 4).take 4 = Bytes.ofNat 4 (Checksum.crc32 payload).toNat := by
      rw [layout]
      simp
    rw [part, Bytes.toNat_ofNat_of_lt (UInt32.toNat_lt _)]

/-! ## One byte changed -/

section Changed

variable {r r' : Record} {bytes rest : Bytes} {i n : Nat} {x : UInt8}

/-- A frame whose length was changed is read as the record that was written or not at all: cut short
it has lost a part that its reader asks for, and drawn out it has nothing more to say. -/
theorem eq_of_changed_length (h : r.encode = .ok bytes) (plain : r.isPlain)
    (inside : i < bytes.length) (other : bytes[i] ≠ x) (place : i < 4)
    (opens : Opens (bytes.set i x ++ rest) n r') : r' = r ∧ bytes.length < n := by
  obtain ⟨payload, written, short, frame⟩ := framed_of_encode h
  obtain ⟨kind, found, more, framed, read⟩ := opens
  have long := frame.long
  have longer := framed.long
  have nine : Frame.overhead = 9 := rfl
  have reads := Frame.reads_payload plain written short
  -- The kind stands behind the length, so that it is as it was.
  have kept : kind = r.kind := by
    have same := framed.kinded
    rw [Bytes.part_unchanged bytes rest x (by omega) (by omega), frame.kinded] at same
    exact (Option.some.inj same).symm
  have resized : n ≠ bytes.length := by
    intro same
    have four : 4 ≤ bytes.length := by omega
    have part := Bytes.part_changed bytes rest (k := 0) (n := 4) x (by omega) (Nat.zero_le i)
    rw [List.drop_zero, List.drop_zero, Nat.sub_zero] at part
    have words : Bytes.toNat ((bytes.take 4).set i x) = Bytes.toNat (bytes.take 4) := by
      rw [← part, framed.announced, frame.announced, same]
    have unchanged := Bytes.toNat_injective (by simp) words
    refine Bytes.set_ne_self (by simp; omega) ?_ unchanged
    rwa [List.getElem_take]
  have whole : (bytes.set i x).drop Frame.overhead = payload := by
    rw [List.drop_set, if_pos (by omega), ← frame.inner,
      List.take_length]
  subst kept
  rcases Nat.lt_or_gt_of_ne resized with shorter | drawn
  -- Cut short: the payload's reader asks for more than there is.
  · have front : found = payload.take (n - Frame.overhead) := by
      rw [← framed.inner, List.take_append_of_le_length (by simp; omega), List.drop_take, whole]
    have size : payload.length = bytes.length - Frame.overhead := by
      rw [← whole, List.length_drop, List.length_set]
    have split := List.take_append_drop (n - Frame.overhead) payload
    rw [← split] at reads
    have cut : payload.drop (n - Frame.overhead) ≠ [] := by
      intro none
      have := List.drop_eq_nil_iff.1 none
      omega
    obtain ⟨fault, refused⟩ := reads.refuses_front (Frame.steady_getPayload _) cut
    rw [front, refused] at read
    cases read
  -- Drawn out: it reads the payload, and leaves what follows.
  · have back : found = payload ++ rest.take (n - bytes.length) := by
      rw [← framed.inner, List.take_append, List.take_of_length_le (by simp; omega),
        List.drop_append_of_le_length (by simp; omega), whole, List.length_set]
    rw [back, reads] at read
    cases read
    exact ⟨rfl, drawn⟩

/-- A frame whose checksum or payload was changed is not read. -/
theorem not_opens_of_changed_sum (h : r.encode = .ok bytes) (inside : i < bytes.length)
    (other : bytes[i] ≠ x) (place : 4 ≤ i) (kind : i ≠ 8) :
    ¬ Opens (bytes.set i x ++ rest) n r' := by
  rintro ⟨kind', found, more, framed, -⟩
  obtain ⟨payload, -, -, frame⟩ := framed_of_encode h
  have long := frame.long
  have nine : Frame.overhead = 9 := rfl
  have size : n = bytes.length := by
    have part := Bytes.part_unchanged bytes rest (k := 0) (n := 4) x (by omega) (.inr place)
    rw [List.drop_zero, List.drop_zero] at part
    rw [← framed.announced, part, frame.announced]
  have stretch : found =
      ((bytes.set i x ++ rest).drop Frame.overhead).take (bytes.length - Frame.overhead) := by
    rw [← framed.inner, size, List.drop_take]
  have payload_eq : payload =
      (bytes.drop Frame.overhead).take (bytes.length - Frame.overhead) := by
    rw [← frame.inner, List.drop_take]
  have summed := framed.summed
  by_cases sum : i < 8
  · rw [Bytes.part_unchanged bytes rest x (by omega)
      (.inl (by omega)), ← payload_eq] at stretch
    rw [stretch, frame.summed, Bytes.part_changed bytes rest x (by omega) place] at summed
    have unchanged := Bytes.toNat_injective (by simp) summed
    refine Bytes.set_ne_self ?_ ?_ unchanged.symm
    · simp
      omega
    · rw [List.getElem_take, List.getElem_drop]
      simpa [Nat.add_sub_cancel' place] using other
  · have reached : Frame.overhead ≤ i := by omega
    rw [Bytes.part_changed bytes rest x (by omega) reached,
      ← payload_eq] at stretch
    rw [Bytes.part_unchanged bytes rest x (by omega) (.inr (by omega)), ← frame.summed, stretch]
      at summed
    refine Checksum.crc32_set_ne ?_ ?_ (UInt32.toNat_inj.1 summed)
    · rw [payload_eq]
      simp only [List.length_take, List.length_drop]
      omega
    · simpa [payload_eq, Nat.add_sub_cancel' reached] using other

/-- A frame whose kind was changed is read as a record of that kind about the same object or not at
all. -/
theorem kind_path_of_changed_kind (h : r.encode = .ok bytes)
    (opens : Opens (bytes.set 8 x ++ rest) n r') :
    n = bytes.length ∧ r'.kind.tag = x.toNat ∧ r'.path = r.path := by
  obtain ⟨payload, written, -, frame⟩ := framed_of_encode h
  obtain ⟨kind, found, more, framed, read⟩ := opens
  have long := frame.long
  have nine : Frame.overhead = 9 := rfl
  have size : n = bytes.length := by
    have part := Bytes.part_unchanged bytes rest (i := 8) (k := 0) (n := 4) x (by omega) (by omega)
    rw [List.drop_zero, List.drop_zero] at part
    rw [← framed.announced, part, frame.announced]
  have same : found = payload := by
    rw [← framed.inner, ← frame.inner, size, List.drop_take, List.drop_take,
      Bytes.part_unchanged bytes rest x (by omega) (.inl (by decide))]
  rw [same] at read
  obtain ⟨kinded, placed⟩ := Frame.kind_path_of_getPayload written read
  refine ⟨size, ?_, placed⟩
  have tagged := framed.kinded
  rw [Bytes.part_changed bytes rest x (by omega) (Nat.le_refl 8)] at tagged
  have one : ((bytes.drop 8).take 1).set (8 - 8) x = [x] := by
    have lone : ((bytes.drop 8).take 1).length = 1 := by
      rw [List.length_take, List.length_drop]
      omega
    obtain ⟨b, only⟩ := List.length_eq_one_iff.1 lone
    rw [only]
    rfl
  rw [one] at tagged
  rw [kinded, RecordKind.tag_of_ofTag? tagged]
  simp [Bytes.toNat]

end Changed

end Record

/-! ## Scans that come to a changed frame

What lies before the changed frame is read as it was, and the scan stops at it or takes it for
another record. -/

namespace Log

/-- A scan stops at the bytes after a row of frames, or takes them for a frame. -/
theorem stops_or_opens (p : Nat) (ls : List LoggedRecord) {rest : Bytes} (some : rest ≠ []) :
    (scan p (joined ls ++ rest)).records = placed p ls ∧
        (scan p (joined ls ++ rest)).validEnd = p + (joined ls).length ∧
        (scan p (joined ls ++ rest)).torn.isSome ∨
      ∃ n r, Record.Opens rest n r ∧
        (scan p (joined ls ++ rest)).records = placed p ls ++ (p + (joined ls).length, r) ::
          (scan (p + (joined ls).length + n) (rest.drop n)).records := by
  rw [scan_joined_append]
  cases found : head (p + (joined ls).length) rest with
  | error torn =>
    left
    simp [scan_torn some found]
  | ok first =>
    obtain ⟨n, r⟩ := first
    right
    refine ⟨n, r, Record.opens_of_head found, ?_⟩
    rw [scan, if_neg some]
    split
    · next refused => rw [found] at refused; cases refused
    · next opened => rw [found] at opened; cases opened; rfl

end Log

namespace Record

/-- One byte of a frame changed.  Outside the byte of the kind the frame is refused, and a scan that
comes to it stops there; only where a changed length reaches into what follows can the record still
be found, the same one.  With the byte of the kind changed, a record that is read is of the other
kind and about the same object. -/
theorem refuses_changed_byte {r : Record} {bytes : Bytes} (h : r.encode = .ok bytes) {i : Nat}
    (inside : i < bytes.length) {x : UInt8} (other : bytes[i] ≠ x) :
    (i ≠ 8 → (i < 4 → r.isPlain) →
      (∃ fault, decode (bytes.set i x) = .error fault) ∧
      ∀ (p : Nat) (front : List LoggedRecord) (rest : Bytes),
        let found := Log.scan p (Log.joined front ++ (bytes.set i x ++ rest))
        let here := p + (Log.joined front).length
        (found.records = Log.placed p front ∧ found.validEnd = here ∧ found.torn.isSome) ∨
          i < 4 ∧ ∃ n, bytes.length < n ∧ found.records = Log.placed p front ++
            (here, r) :: (Log.scan (here + n) (rest.drop (n - bytes.length))).records) ∧
    (i = 8 →
      (∀ r', decode (bytes.set i x) = .ok r' → r'.kind.tag = x.toNat ∧ r'.path = r.path) ∧
      ∀ (p : Nat) (front : List LoggedRecord) (rest : Bytes),
        let found := Log.scan p (Log.joined front ++ (bytes.set i x ++ rest))
        let here := p + (Log.joined front).length
        (found.records = Log.placed p front ∧ found.validEnd = here ∧ found.torn.isSome) ∨
          ∃ r', r'.kind.tag = x.toNat ∧ r'.path = r.path ∧ found.records = Log.placed p front ++
            (here, r') :: (Log.scan (here + bytes.length) rest).records) := by
  have some : ∀ rest, bytes.set i x ++ rest ≠ [] := by
    intro rest empty
    have none : bytes = [] := by simpa using (List.append_eq_nil_iff.1 empty).1
    simp [none] at inside
  have after : ∀ rest : Bytes, ∀ n, bytes.length ≤ n →
      (bytes.set i x ++ rest).drop n = rest.drop (n - bytes.length) := by
    intro rest n past
    rw [List.drop_append, List.drop_eq_nil_of_le (by simpa using past), List.nil_append,
      List.length_set]
  constructor
  · intro kind plain
    have survives : ∀ rest n r', Opens (bytes.set i x ++ rest) n r' →
        i < 4 ∧ r' = r ∧ bytes.length < n := by
      intro rest n r' opens
      by_cases place : i < 4
      · exact ⟨place, eq_of_changed_length h (plain place) inside other place opens⟩
      · exact absurd opens (not_opens_of_changed_sum h inside other (by omega) kind)
    constructor
    · cases read : decode (bytes.set i x) with
      | error fault => exact ⟨fault, rfl⟩
      | ok r' =>
        obtain ⟨n, opens⟩ := opens_of_decode read
        rw [← List.append_nil (bytes.set i x)] at opens
        obtain ⟨-, -, long⟩ := survives [] n r' opens
        obtain ⟨_, _, _, framed, -⟩ := opens
        have within := framed.within
        simp only [List.append_nil, List.length_set] at within
        omega
    · intro p front rest
      rcases Log.stops_or_opens p front (some rest) with stops | ⟨n, r', opens, records⟩
      · exact .inl stops
      · obtain ⟨place, rfl, long⟩ := survives rest n r' opens
        rw [after rest n (by omega)] at records
        exact .inr ⟨place, n, long, records⟩
  · rintro rfl
    constructor
    · intro r' read
      obtain ⟨n, opens⟩ := opens_of_decode read
      rw [← List.append_nil (bytes.set 8 x)] at opens
      exact (kind_path_of_changed_kind h opens).2
    · intro p front rest
      rcases Log.stops_or_opens p front (some rest) with stops | ⟨n, r', opens, records⟩
      · exact .inl stops
      · obtain ⟨rfl, kinded, object⟩ := kind_path_of_changed_kind h opens
        rw [after rest _ (Nat.le_refl _), Nat.sub_self, List.drop_zero] at records
        exact .inr ⟨r', kinded, object, records⟩

/-- A frame, of a scale with a name. -/
def scaleFrame : Bytes :=
  [0x14, 0, 0, 0, 0xDC, 0x2E, 0xD6, 0xF9, 5, 2, 0, 0, 0, 0x2F, 0x78, 1, 0, 0, 0, 0x79]

/-- The letter of the name, and the low byte of the length. -/
theorem refuses_changed_byte_of_scale :
    (∃ fault, decode (scaleFrame.set 19 0x7A) = .error fault) ∧
      (∃ fault, decode (scaleFrame.set 0 0x0F) = .error fault) ∧
      ∀ r, decode (scaleFrame.set 8 7) = .ok r → r.kind.tag = 7 ∧ r.path = .ofText "/x" := by
  have written : (markScale (.ofText "/x") "y").encode = .ok scaleFrame :=
    eq_ok_of_toOption (by decide +kernel)
  refine ⟨?_, ?_, ?_⟩
  · exact ((refuses_changed_byte written (i := 19) (x := 0x7A) (by decide) (by decide)).1
      (by decide) (by decide)).1
  · exact ((refuses_changed_byte written (i := 0) (x := 0x0F) (by decide) (by decide)).1
      (by decide) (fun _ => rfl)).1
  · exact ((refuses_changed_byte written (i := 8) (x := 7) (by decide) (by decide)).2 rfl).1

/-- A dataset of records that pair an array of no reals with a text. -/
def ofEmptyArray (note : String) : Record :=
  .createDataset (.ofText "/c") (.compound [⟨"x", .real, some 0⟩, ⟨"t", .text, none⟩])
    [] false 1 (.record [.array [], .text note])

/-- Three changes of one byte that are not found out: of the kind, which turns a scale into a link;
of the length, in a frame that its own record is not read back from; and of the length again, where
the next frame is taken for the end of the first, its name making up for the checksum. -/
theorem passes_changed_byte :
    ((markScale (.ofText "/x") "y").encode = .ok scaleFrame ∧ scaleFrame[8]? = some 5 ∧
      decode (scaleFrame.set 8 7) = .ok (softLink (.ofText "/x") (.ofText "/y"))) ∧
    (∃ bytes r,
      (ofEmptyArray "aaaa\x00\x00\x00\x00aabbbaaaabbaabaaaaaabaaaaabaabab").encode = .ok bytes ∧
      bytes[0]? = some 97 ∧ decode (bytes.set 0 65) = .ok r) ∧
    (∃ bytes next,
      (createGroup (.ofText "/a")).encode = .ok bytes ∧ bytes[0]? = some 15 ∧
      (createGroup (.ofText "/aababbbbabbbbbababbabaaabbbaaaa")).encode = .ok next ∧
      Log.head 0 (bytes.set 0 60 ++ next) =
        .ok ((bytes ++ next).length, createGroup (.ofText "/a"))) := by
  refine ⟨⟨eq_ok_of_toOption (by decide +kernel), rfl, eq_ok_of_toOption (by decide +kernel)⟩,
    ?_, ?_⟩
  · have shortened :
        (ofEmptyArray "aaaa\x00\x00\x00\x00aabbbaaaabbaabaaaaaabaaaaabaabab").encode.toOption.any
          fun bytes => bytes[0]? = some 97 ∧ (decode (bytes.set 0 65)).toOption.isSome := by
      decide +kernel
    obtain ⟨bytes, written, found⟩ := (Option.any_eq_true ..).1 shortened
    obtain ⟨first, read⟩ := of_decide_eq_true found
    obtain ⟨r, read⟩ := Option.isSome_iff_exists.1 read
    exact ⟨bytes, r, eq_ok_of_toOption written, first, eq_ok_of_toOption read⟩
  · refine ⟨[0x0F, 0, 0, 0, 0x0B, 0x69, 0xA3, 0xD4, 0, 2, 0, 0, 0, 0x2F, 0x61],
      [0x2D, 0, 0, 0, 0xB2, 0xAE, 0xBA, 0xD3, 0, 0x20, 0, 0, 0] ++
        Bytes.ofText "/aababbbbabbbbbababbabaaabbbaaaa", ?_, rfl, ?_, ?_⟩
    · exact eq_ok_of_toOption (by decide +kernel)
    · exact eq_ok_of_toOption (by decide +kernel)
    · exact eq_ok_of_toOption (by decide +kernel)

end Record
end StudyArchive
