import StudyArchive.Codec.Bytes
/-
# The 32-bit cyclic checksum

The remainder of the message by the reflected polynomial 0xEDB88320, from all ones and inverted at
the end: the checksum that archives and networks call CRC-32.
-/

namespace StudyArchive.Checksum

/-- One bit of the division. -/
def bit (crc : UInt32) : UInt32 :=
  if crc &&& 1 = 1 then (crc >>> 1) ^^^ 0xEDB88320 else crc >>> 1

/-- So many bits of the division. -/
def bits : Nat → UInt32 → UInt32
  | 0, crc => crc
  | n + 1, crc => bits n (bit crc)

/-- One byte of the message. -/
def step (crc : UInt32) (b : UInt8) : UInt32 := bits 8 (crc ^^^ b.toUInt32)

/-- The checksum of a message. -/
def crc32 (bytes : Bytes) : UInt32 := ~~~ bytes.foldl step 0xFFFFFFFF

example : crc32 [0x31, 0x32, 0x33, 0x34, 0x35, 0x36, 0x37, 0x38, 0x39] = 0xCBF43926 := by
  decide +kernel

end StudyArchive.Checksum
