import LineAtlas.Metadata.Error

/-!
# Bytes packed into strings

The payload of metadata is a sequence of bytes, stored in strings in one of two layouts. A
marker in front tells them apart: after a zero character every character is one byte; after
a one, or without marker, every character holds seven bits, stored one too high.
-/

namespace LineAtlas.Metadata.Packing

/-- The bytes that characters stand for. -/
def charBytes : List Char → Except Malformed (List UInt8)
  | [] => .ok []
  | c :: rest =>
    if c.toNat < 256 then (UInt8.ofNat c.toNat :: ·) <$> charBytes rest
    else .error (.badCharacter c.toNat)

/-- The low bits of a number, least significant first. -/
def bits : Nat → Nat → List Bool
  | 0, _ => []
  | width + 1, n => (n % 2 == 1) :: bits width (n / 2)

/-- The number with the given bits, least significant first. -/
def ofBits : List Bool → Nat
  | [] => 0
  | bit :: rest => bit.toNat + 2 * ofBits rest

/-- The bytes of a sequence of bits, eight at a time. Bits that fill no byte are dropped. -/
def bytesOfBits : List Bool → List UInt8
  | a :: b :: c :: d :: e :: f :: g :: h :: rest =>
    UInt8.ofNat (ofBits [a, b, c, d, e, f, g, h]) :: bytesOfBits rest
  | _ => []

/-- The seven bits that a character holds: its value less one, modulo 128. -/
def sevenBits (byte : UInt8) : List Bool := bits 7 ((byte.toNat + 127) % 128)

/-- The bytes packed seven bits at a time. -/
def unpackSevenBits (packed : List UInt8) : List UInt8 :=
  bytesOfBits (packed.flatMap sevenBits)

/-- The bytes packed into characters; a marker counts only when the first string holds it. -/
def unpack (strings : List String) : Except Malformed (List UInt8) :=
  let chars := strings.flatMap String.toList
  match strings.head?.bind (·.toList.head?) with
  | some '\x00' => charBytes (chars.drop 1)
  | some '\x01' => unpackSevenBits <$> charBytes (chars.drop 1)
  | _ => unpackSevenBits <$> charBytes chars

end LineAtlas.Metadata.Packing
