/-
# What can be wrong with encoded bytes

Every way in which a byte sequence fails to be a header, a record or an element, or in which a value
has no encoding.  The wording lives in `CodecFault.message` alone.
-/

namespace StudyArchive

/-- Where a byte sequence stops being UTF-8. -/
inductive TextFault where
  /-- The bytes of the given number from the given index on belong to no character. -/
  | invalid (length index : Nat)
  /-- The bytes end inside the character that starts at the given index. -/
  | incomplete (index : Nat)
  deriving DecidableEq, Repr

def TextFault.message : TextFault → String
  | .invalid length index => s!"invalid utf-8 sequence of {length} bytes from index {index}"
  | .incomplete index => s!"incomplete utf-8 byte sequence from index {index}"

/-- The families of codec faults. -/
inductive FaultKind where
  | invalidData
  | invalidInput
  | unexpectedEnd
  deriving DecidableEq, Repr

/-- A reason why bytes do not decode or a value does not encode. -/
inductive CodecFault where
  /-- Fewer bytes than the next field takes. -/
  | shortRead
  /-- A string that is not UTF-8. -/
  | text (fault : TextFault)
  /-- A byte that names no element type. -/
  | elementTag
  /-- A byte that names no kind of record. -/
  | recordTag
  /-- A byte that names no kind of attribute value. -/
  | attributeTag (tag : Nat)
  /-- Fewer bytes than a header takes. -/
  | headerTooSmall
  /-- Fewer bytes than a record frame takes. -/
  | recordTooSmall
  /-- A frame that declares an impossible number of bytes. -/
  | truncated (expected actual : Nat)
  /-- A payload whose checksum is not the stored one. -/
  | checksum (stored computed : Nat)
  /-- An integer outside the 32-bit range. -/
  | int32Overflow
  /-- A value other than a record where a record is stored. -/
  | recordExpected
  /-- A value other than an array where an array is stored. -/
  | arrayExpected
  /-- A value of one kind where an element of another type is stored. -/
  | unencodable (kind element : String)
  /-- A length or extent that the fixed-width field of a record cannot hold. -/
  | tooLong (length : Nat)
  deriving DecidableEq, Repr

namespace CodecFault

def kind : CodecFault → FaultKind
  | shortRead => .unexpectedEnd
  | tooLong _ => .invalidInput
  | _ => .invalidData

def message : CodecFault → String
  | shortRead => "failed to fill whole buffer"
  | text fault => fault.message
  | elementTag => "Unknown scalar type tag"
  | recordTag => "Unknown log record type"
  | attributeTag tag => s!"Unknown attribute tag {tag}"
  | headerTooSmall => "Buffer too small for header"
  | recordTooSmall => "Record too small"
  | truncated expected actual => s!"Record truncated: expected {expected} bytes, got {actual}"
  | checksum stored computed => s!"CRC mismatch: expected {stored}, got {computed}"
  | int32Overflow => "i32 overflow"
  | recordExpected => "record expected"
  | arrayExpected => "array field expected"
  | unencodable kind element => s!"cannot encode {kind} as {element}"
  | tooLong length => s!"Length {length} exceeds the 32-bit record limit"

end CodecFault
end StudyArchive
