/-!
# What is wrong with a class file

Each cause of a rejected class file and its wording.
-/

namespace LineAtlas.ClassFile

/-- Why bytes are not a class file. -/
inductive Malformed where
  /-- The bytes end where more are needed; the position counts from the start of the
  enclosing body. -/
  | unexpectedEnd (offset : Nat)
  /-- The bytes do not start like a class file. -/
  | badMagic
  /-- The constant pool holds a constant of unknown kind. -/
  | unsupportedConstant (tag : Nat)
  /-- A constant is missing or not of the needed kind. -/
  | badIndex (index : Nat)
  /-- The text of a constant is not modified UTF-8; the position is that of the first
  sequence at fault. -/
  | badText (offset : Nat)
  /-- An annotation value has an unknown kind or a constant of another kind. -/
  | badElement (tag : UInt8)
  /-- Bytes follow the last attribute. -/
  | trailingBytes
  deriving DecidableEq, Repr

/-- The wording of a cause. The kind of an annotation value is shown as a character. -/
def Malformed.message : Malformed → String
  | .unexpectedEnd offset => "unexpected end of class file at offset " ++ toString offset
  | .badMagic => "invalid class file magic header"
  | .unsupportedConstant tag => "unsupported constant pool tag " ++ toString tag
  | .badIndex index => "invalid constant pool index " ++ toString index
  | .badText offset => "invalid modified UTF-8 at byte " ++ toString offset
  | .badElement tag =>
    "invalid annotation element tag '" ++ String.singleton (Char.ofNat tag.toNat) ++ "'"
  | .trailingBytes => "trailing bytes after class attributes"

end LineAtlas.ClassFile
