/-!
# What is wrong with metadata

Each cause for which the metadata of a class cannot be decoded, and its wording.
-/

namespace LineAtlas.Metadata

/-- Why bytes are not a message. -/
inductive WireFault where
  /-- The bytes end inside a variable-length number. -/
  | truncatedVarint
  /-- A variable-length number has more than ten bytes. -/
  | longVarint
  /-- A field number does not fit into 32 bits. -/
  | fieldOutOfRange
  /-- A field has number zero. -/
  | fieldZero
  /-- A field has an unknown form. -/
  | wireType (form : Nat)
  /-- The bytes end inside a field with a length. -/
  | truncatedBytes
  /-- A text is not UTF-8. -/
  | badUtf8
  /-- A list of numbers is written as a fixed-width field. -/
  | notNumbers
  /-- The bytes end inside a field of fixed width. -/
  | truncatedFixed
  /-- A string-table record covers a negative number of strings. -/
  | negativeRange (range : Int)
  /-- A string-table record covers more strings than are left. -/
  | longRange (count left : Nat)
  deriving DecidableEq, Repr

/-- The wording of a fault. -/
def WireFault.message : WireFault → String
  | .truncatedVarint => "truncated varint"
  | .longVarint => "varint longer than 10 bytes"
  | .fieldOutOfRange => "field number out of range"
  | .fieldZero => "field number 0"
  | .wireType form => "unsupported wire type " ++ toString form
  | .truncatedBytes => "truncated length-delimited field"
  | .badUtf8 => "invalid UTF-8 string"
  | .notNumbers => "unexpected wire type for int32"
  | .truncatedFixed => "truncated fixed-width field"
  | .negativeRange range => "string range " ++ toString range
  | .longRange count left =>
    "string range " ++ toString count ++ " exceeds the " ++ toString left ++ " strings left"

/-- Why metadata cannot be decoded. -/
inductive Malformed where
  /-- The bytes are not the messages that they should be. -/
  | wire (fault : WireFault)
  /-- A character of the packed strings stands for no byte. -/
  | badCharacter (code : Nat)
  /-- A name index names nothing. -/
  | badNameIndex (index : Int)
  /-- A type index names nothing. -/
  | badTypeIndex (index : Int)
  /-- A message lacks a field that it must have. -/
  | missingField (message : String) (field : Nat)
  deriving DecidableEq, Repr

/-- A code point in upper-case hexadecimal with at least four digits. -/
def codePoint (code : Nat) : String :=
  let digits := (Nat.toDigits 16 code).map Char.toUpper
  String.ofList (List.replicate (4 - digits.length) '0' ++ digits)

/-- The wording of a cause. -/
def Malformed.message : Malformed → String
  | .wire fault => "malformed metadata: " ++ fault.message
  | .badCharacter code =>
    "invalid d1 encoding: character U+" ++ codePoint code ++ " outside byte range"
  | .badNameIndex index => "name index " ++ toString index ++ " out of range"
  | .badTypeIndex index => "type index " ++ toString index ++ " out of range"
  | .missingField message field =>
    message ++ " is missing required field " ++ toString field

end LineAtlas.Metadata
