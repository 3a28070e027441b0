import LineAtlas.Text.Utf16

/-!
# Modified UTF-8

Texts of a class file are UTF-16 code units, each in one to three bytes. Zero takes two
bytes, and a character beyond the basic plane takes the three bytes of each surrogate.
-/

namespace LineAtlas.ClassFile.ModifiedUtf8

/-- The six bits of a continuation byte. -/
def continuation? (byte : UInt8) : Option Nat :=
  if byte.toNat / 64 = 2 then some (byte.toNat % 64) else none

/-- The number of bytes of a code unit, by its first byte. -/
def width (first : UInt8) : Nat :=
  if first < 0x80 then 1 else if first.toNat / 32 = 6 then 2 else 3

/-- One code unit at the front of some bytes, and the bytes after it. -/
def unit? : List UInt8 → Option (Nat × List UInt8)
  | [] => none
  | first :: rest =>
    if first < 0x80 then some (first.toNat, rest)
    else if first.toNat / 32 = 6 then
      match rest with
      | second :: rest =>
        match continuation? second with
        | some low => some (first.toNat % 32 * 64 + low, rest)
        | none => none
      | [] => none
    else if first.toNat / 16 = 14 then
      match rest with
      | second :: third :: rest =>
        match continuation? second, continuation? third with
        | some middle, some low =>
          some (first.toNat % 16 * 4096 + middle * 64 + low, rest)
        | _, _ => none
      | _ => none
    else none

/-- Reading a code unit consumes bytes. -/
theorem unit?_length {bytes rest : List UInt8} {unit : Nat}
    (hread : unit? bytes = some (unit, rest)) : rest.length < bytes.length := by
  unfold unit? at hread
  grind

/-- The code units of some bytes, or the position of the first sequence at fault. The
position of the first byte is given. -/
def units (offset : Nat) (bytes : List UInt8) : Except Nat (List Nat) :=
  match bytes with
  | [] => .ok []
  | byte :: tail =>
    match _hread : unit? (byte :: tail) with
    | none => .error offset
    | some (unit, rest) =>
      (unit :: ·) <$> units (offset + width byte) rest
termination_by bytes.length
decreasing_by exact unit?_length _hread

/-- The text of some bytes, or the position of the first sequence at fault. -/
def decode (bytes : List UInt8) : Except Nat String :=
  (fun codes => String.ofList (Text.Utf16.decode codes)) <$> units 0 bytes

end LineAtlas.ClassFile.ModifiedUtf8
