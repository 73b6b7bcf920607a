import StudyArchive.Codec.Bytes
/-
# Strings in bytes

Bytes become a string exactly when they are UTF-8.  When they are not, `TextFault.locate` names the
first place where they go wrong: how many bytes there can belong to no character, or that the bytes
end too early.
-/

namespace StudyArchive

namespace TextFault

/-- A byte that continues a character. -/
def continues (b : UInt8) : Bool := 0x80 ≤ b && b ≤ 0xBF

/-- Whether a byte may follow the first byte of a three-byte character. -/
def second₃ (first b : UInt8) : Bool :=
  if first = 0xE0 then 0xA0 ≤ b && b ≤ 0xBF
  else if first = 0xED then 0x80 ≤ b && b ≤ 0x9F
  else continues b

/-- Whether a byte may follow the first byte of a four-byte character. -/
def second₄ (first b : UInt8) : Bool :=
  if first = 0xF0 then 0x90 ≤ b && b ≤ 0xBF
  else if first = 0xF4 then 0x80 ≤ b && b ≤ 0x8F
  else continues b

/-- The number of bytes of the character that a byte starts, or 0. -/
def width (first : UInt8) : Nat :=
  if first < 0x80 then 1
  else if first < 0xC2 then 0
  else if first < 0xE0 then 2
  else if first < 0xF0 then 3
  else if first < 0xF5 then 4
  else 0

/-- The fault of the character that starts with `first`, or its width. -/
def character (index : Nat) (first : UInt8) (rest : Bytes) : Except TextFault Nat :=
  match width first, rest with
  | 1, _ => .ok 1
  | 2, [] => .error (.incomplete index)
  | 2, b :: _ => if continues b then .ok 2 else .error (.invalid 1 index)
  | 3, [] => .error (.incomplete index)
  | 3, b :: tail =>
    if !second₃ first b then .error (.invalid 1 index)
    else match tail with
      | [] => .error (.incomplete index)
      | c :: _ => if continues c then .ok 3 else .error (.invalid 2 index)
  | 4, [] => .error (.incomplete index)
  | 4, b :: tail =>
    if !second₄ first b then .error (.invalid 1 index)
    else match tail with
      | [] => .error (.incomplete index)
      | c :: tail =>
        if !continues c then .error (.invalid 2 index)
        else match tail with
          | [] => .error (.incomplete index)
          | d :: _ => if continues d then .ok 4 else .error (.invalid 3 index)
  | _, _ => .error (.invalid 1 index)

/-- The first fault at or after an index; `skip` bytes of the character before are still to pass. -/
def scan (index skip : Nat) : Bytes → TextFault
  | [] => .incomplete index
  | b :: rest =>
    match skip with
    | n + 1 => scan (index + 1) n rest
    | 0 =>
      match character index b rest with
      | .error fault => fault
      | .ok w => scan (index + 1) (w - 1) rest

/-- Where bytes that are not UTF-8 go wrong. -/
def locate (bytes : Bytes) : TextFault := scan 0 0 bytes

end TextFault

namespace Bytes

/-- The string that bytes spell in UTF-8. -/
def toText? (bytes : Bytes) : Except TextFault String :=
  match String.fromUTF8? bytes.pack with
  | some s => .ok s
  | none => .error (TextFault.locate bytes)

theorem toText?_ofText (s : String) : toText? (ofText s) = .ok s := by
  have valid : String.fromUTF8? (ofText s).pack = some s := by
    have same : (ofText s).pack = s.toByteArray := by
      simp [pack, ofText]
    rw [same, String.fromUTF8?]
    simp [s.isValidUTF8, String.fromUTF8]
  simp [toText?, valid]

end Bytes

/-- The next `n` bytes as a string. -/
def Reader.text (n : Nat) : Reader String := do
  let bytes ← Reader.take n
  match bytes.toText? with
  | .ok s => return s
  | .error fault => Reader.fail (.text fault)

end StudyArchive
