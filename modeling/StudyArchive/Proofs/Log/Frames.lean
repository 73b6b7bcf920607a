import StudyArchive.Proofs.Log.ReadBack
/-
# Records that have frames

A frame has 32 bits for every length in it, its own included, and 64 bits for an extent.  So whether
a record has a frame depends on the sizes of its parts only: a write of no more bytes to the same
dataset has one if the other has (`Record.HasFrame.write`), and so has a record that makes the same
dataset in another way (`Record.HasFrame.createDataset`).
-/

namespace StudyArchive

namespace Frame

variable {extents : List Nat} {bytes : Bytes}

/-- Extents that there is room for. -/
def Sized (extents : List Nat) : Prop :=
  extents.length < Bytes.span 4 ∧ ∀ n ∈ extents, n < Bytes.span 8

theorem putAll_of_small (small : ∀ n ∈ extents, n < Bytes.span 8) :
    ∃ bytes, putAll putExtent extents = .ok bytes := by
  induction extents with
  | nil => exact ⟨[], rfl⟩
  | cons n extents ih =>
    obtain ⟨more, rest⟩ := ih fun n mem => small n (List.mem_cons_of_mem _ mem)
    refine ⟨Bytes.ofNat 8 n ++ more, ?_⟩
    rw [putAll, putExtent, if_pos (small n List.mem_cons_self)]
    exact bind_of_eq_ok rest _

theorem small_of_putAll (written : putAll putExtent extents = .ok bytes) :
    (∀ n ∈ extents, n < Bytes.span 8) ∧ bytes.length = 8 * extents.length := by
  induction extents generalizing bytes with
  | nil =>
    cases written
    exact ⟨by simp, rfl⟩
  | cons n extents ih =>
    obtain ⟨first, head, written⟩ := exists_of_bind_eq_ok written
    obtain ⟨more, rest, written⟩ := exists_of_bind_eq_ok written
    cases written
    obtain ⟨small, length⟩ := ih rest
    unfold putExtent at head
    split at head
    · next low =>
      cases head
      refine ⟨List.forall_mem_cons.2 ⟨low, small⟩, ?_⟩
      rw [List.length_append, length, Bytes.length_ofNat, List.length_cons]
      omega
    · cases head

theorem putLength_of_lt {n : Nat} (short : n < Bytes.span 4) :
    putLength n = .ok (Bytes.ofNat 4 n) := if_pos short

theorem putExtents_of_sized (sized : Sized extents) : ∃ bytes, putExtents extents = .ok bytes := by
  obtain ⟨more, rest⟩ := putAll_of_small sized.2
  exact ⟨_, (bind_of_eq_ok (putLength_of_lt sized.1) _).trans (bind_of_eq_ok rest _)⟩

theorem sized_of_putExtents (written : putExtents extents = .ok bytes) :
    Sized extents ∧ bytes.length = 4 + 8 * extents.length := by
  obtain ⟨first, head, written⟩ := exists_of_bind_eq_ok written
  obtain ⟨more, rest, written⟩ := exists_of_bind_eq_ok written
  cases written
  obtain ⟨short, rfl⟩ := putLength_eq_ok head
  obtain ⟨small, length⟩ := small_of_putAll rest
  exact ⟨⟨short, small⟩, by rw [List.length_append, length, Bytes.length_ofNat]⟩

end Frame

namespace Record

open StudyArchive.Frame

/-- A record that has a frame. -/
def HasFrame (r : Record) : Prop := ∃ bytes, r.encode = .ok bytes

theorem hasFrame_iff {r : Record} : r.HasFrame ↔
    ∃ payload, putPayload r = .ok payload ∧ overhead + payload.length < Bytes.span 4 := by
  constructor
  · rintro ⟨bytes, encoded⟩
    obtain ⟨payload, written, short, -⟩ := encode_eq_ok encoded
    exact ⟨payload, written, short⟩
  · rintro ⟨payload, written, short⟩
    exact ⟨_, (bind_of_eq_ok written _).trans (bind_of_eq_ok (putLength_of_lt short) _)⟩

variable {path : Path}

/-- A write has a frame just if there is room for its places, and for all of it. -/
theorem hasFrame_write_iff {start count : List Nat} {payload : Bytes} :
    (Record.write path start count payload).HasFrame ↔
      ∃ text, putPath path = .ok text ∧ Sized start ∧ Sized count ∧
        overhead + (text.length + (4 + 8 * start.length) + (4 + 8 * count.length) + 4 +
          payload.length) < Bytes.span 4 := by
  rw [hasFrame_iff]
  constructor
  · rintro ⟨bytes, written, short⟩
    obtain ⟨text, named, written⟩ := exists_of_bind_eq_ok written
    obtain ⟨first, started, written⟩ := exists_of_bind_eq_ok written
    obtain ⟨second, counted, written⟩ := exists_of_bind_eq_ok written
    obtain ⟨length, measured, written⟩ := exists_of_bind_eq_ok written
    cases written
    obtain ⟨sized, first⟩ := sized_of_putExtents started
    obtain ⟨sized', second⟩ := sized_of_putExtents counted
    obtain ⟨-, rfl⟩ := putLength_eq_ok measured
    simp only [List.length_append, Bytes.length_ofNat, first, second] at short
    exact ⟨text, named, sized, sized', short⟩
  · rintro ⟨text, named, sized, sized', short⟩
    obtain ⟨first, started⟩ := putExtents_of_sized sized
    obtain ⟨second, counted⟩ := putExtents_of_sized sized'
    have measured := putLength_of_lt (n := payload.length) (by omega)
    refine ⟨text ++ first ++ second ++ Bytes.ofNat 4 payload.length ++ payload, ?_, ?_⟩
    · refine (bind_of_eq_ok named _).trans ((bind_of_eq_ok started _).trans ?_)
      exact (bind_of_eq_ok counted _).trans (bind_of_eq_ok measured _)
    · simp only [List.length_append, Bytes.length_ofNat, (sized_of_putExtents started).2,
        (sized_of_putExtents counted).2]
      exact short

/-- A write of no more bytes, at places of the same rank. -/
theorem HasFrame.write {start count start' count' : List Nat} {payload payload' : Bytes}
    (h : (Record.write path start count payload).HasFrame)
    (starts : start'.length = start.length) (counts : count'.length = count.length)
    (small : ∀ n ∈ start' ++ count', n < Bytes.span 8)
    (fewer : payload'.length ≤ payload.length) :
    (Record.write path start' count' payload').HasFrame := by
  obtain ⟨text, named, sized, sized', short⟩ := hasFrame_write_iff.1 h
  obtain ⟨small, small'⟩ := List.forall_mem_append.1 small
  refine hasFrame_write_iff.2 ⟨text, named, ⟨starts ▸ sized.1, small⟩, ⟨counts ▸ sized'.1, small'⟩,
    ?_⟩
  omega

variable {type : DataType} {dims : List Nat} {extensible extensible' : Bool}
  {chunkRows chunkRows' : Nat} {fill fill' : Datum}

/-- The extents of a dataset that is made have room. -/
theorem HasFrame.small
    (h : (Record.createDataset path type dims extensible chunkRows fill).HasFrame) :
    ∀ n ∈ dims, n < Bytes.span 8 := by
  obtain ⟨bytes, written, -⟩ := hasFrame_iff.1 h
  obtain ⟨text, -, written⟩ := exists_of_bind_eq_ok written
  obtain ⟨typeBytes, -, written⟩ := exists_of_bind_eq_ok written
  obtain ⟨extents, shaped, -⟩ := exists_of_bind_eq_ok written
  exact (sized_of_putExtents shaped).1.2

/-- The same dataset, made to grow or not, with other chunks and another fill of the same size. -/
theorem HasFrame.createDataset
    (h : (Record.createDataset path type dims extensible chunkRows fill).HasFrame)
    (rows : chunkRows' < Bytes.span 8) {filled : Bytes} (encoded : fill'.encode type = .ok filled)
    (size : ∀ bytes, fill.encode type = .ok bytes → filled.length = bytes.length) :
    (Record.createDataset path type dims extensible' chunkRows' fill').HasFrame := by
  obtain ⟨bytes, written, short⟩ := hasFrame_iff.1 h
  obtain ⟨text, named, written⟩ := exists_of_bind_eq_ok written
  obtain ⟨typeBytes, typed, written⟩ := exists_of_bind_eq_ok written
  obtain ⟨extents, shaped, written⟩ := exists_of_bind_eq_ok written
  obtain ⟨chunkBytes, chunked, written⟩ := exists_of_bind_eq_ok written
  obtain ⟨old, before, written⟩ := exists_of_bind_eq_ok written
  cases written
  have chunked' : putExtent chunkRows' = .ok (Bytes.ofNat 8 chunkRows') := if_pos rows
  have eight : chunkBytes.length = 8 := by
    unfold putExtent at chunked
    split at chunked <;> cases chunked
    exact Bytes.length_ofNat ..
  refine hasFrame_iff.2 ⟨text ++ typeBytes ++ extents ++ Bytes.ofNat 1 extensible'.toNat ++
    Bytes.ofNat 8 chunkRows' ++ filled, ?_, ?_⟩
  · refine (bind_of_eq_ok named _).trans ((bind_of_eq_ok typed _).trans ?_)
    refine (bind_of_eq_ok shaped _).trans ((bind_of_eq_ok chunked' _).trans ?_)
    exact bind_of_eq_ok encoded _
  · simp only [List.length_append, Bytes.length_ofNat, eight, size old before] at short ⊢
    exact short

end Record
end StudyArchive
