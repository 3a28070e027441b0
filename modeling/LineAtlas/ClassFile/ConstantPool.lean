import LineAtlas.ClassFile.Bytes
import LineAtlas.ClassFile.ModifiedUtf8

/-!
# Constant pools

The constants of a class file are numbered from one. Long and double constants take two
numbers, the second of which names nothing.
-/

namespace LineAtlas.ClassFile

/-- A constant, as far as class files are read. -/
inductive Constant where
  /-- A text. -/
  | text (value : String)
  /-- An integer of four bytes. -/
  | integer (value : Int)
  /-- The bits of a float. -/
  | float (bits : Nat)
  /-- An integer of eight bytes. -/
  | long (value : Int)
  /-- The bits of a double. -/
  | double (bits : Nat)
  /-- A class, by the index of its name. -/
  | classRef (name : Nat)
  /-- A name and a descriptor, by their indexes. -/
  | nameAndType (name descriptor : Nat)
  /-- A constant that nothing here refers to. -/
  | other
  /-- A number without a constant. -/
  | unusable
  deriving DecidableEq, Repr

namespace Constant

/-- Whether the constant takes two numbers. -/
def isWide : Constant → Bool
  | .long _ | .double _ => true
  | _ => false

/-- The signed integer with the given bits. -/
def signed (width : Nat) (bits : Nat) : Int := Int.bmod bits (Nat.pow 2 width)

/-- The text of a constant. -/
def readText : Reader Constant := do
  let bytes ← Reader.bytes (← Reader.u2)
  match ModifiedUtf8.decode bytes with
  | .ok value => return .text value
  | .error offset => Reader.fail (.badText offset)

/-- One constant. -/
def read : Reader Constant := do
  let tag ← Reader.u1
  match tag with
  | 1 => readText
  | 3 => (fun bits => .integer (signed 32 bits)) <$> Reader.u4
  | 4 => .float <$> Reader.u4
  | 5 => do
    let high ← Reader.u4
    let low ← Reader.u4
    return .long (signed 64 (high * UInt32.size + low))
  | 6 => do
    let high ← Reader.u4
    let low ← Reader.u4
    return .double (high * UInt32.size + low)
  | 7 => .classRef <$> Reader.u2
  | 8 => (fun _ => .other) <$> Reader.u2
  | 9 | 10 | 11 | 17 | 18 => (fun _ => .other) <$> Reader.skip 4
  | 12 => do
    let name ← Reader.u2
    let descriptor ← Reader.u2
    return .nameAndType name descriptor
  | 15 => (fun _ => .other) <$> Reader.skip 3
  | 16 | 19 | 20 => (fun _ => .other) <$> Reader.skip 2
  | tag => Reader.fail (.unsupportedConstant tag)

/-- Constants for a given number of indexes. A wide constant at the last index is kept. -/
def readAll : Nat → Reader (List Constant)
  | 0 => pure []
  | 1 => do
    let constant ← read
    return if constant.isWide then [constant, .unusable] else [constant]
  | count + 2 => do
    let constant ← read
    if constant.isWide then
      return constant :: .unusable :: (← readAll count)
    else
      return constant :: (← readAll (count + 1))

end Constant

/-- The constants of a class file; the first position is not a constant. -/
structure ConstantPool where
  /-- The constant at each index. -/
  constants : List Constant
  deriving DecidableEq, Repr

namespace ConstantPool

/-- The pool at the front of the bytes. Its size is one more than the number of indexes. -/
def read : Reader ConstantPool := do
  let size ← Reader.u2
  return ⟨.unusable :: (← Constant.readAll (size - 1))⟩

/-- The constant at an index. -/
def get (pool : ConstantPool) (index : Nat) : Except Malformed Constant :=
  match pool.constants[index]? with
  | some constant => .ok constant
  | none => .error (.badIndex index)

/-- The text at an index. -/
def text (pool : ConstantPool) (index : Nat) : Except Malformed String :=
  match pool.get index with
  | .ok (.text value) => .ok value
  | _ => .error (.badIndex index)

/-- The integer at an index. -/
def integer (pool : ConstantPool) (index : Nat) : Except Malformed Int :=
  match pool.get index with
  | .ok (.integer value) => .ok value
  | _ => .error (.badIndex index)

/-- The name of the class at an index. -/
def className (pool : ConstantPool) (index : Nat) : Except Malformed String :=
  match pool.get index with
  | .ok (.classRef name) => pool.text name
  | _ => .error (.badIndex index)

/-- The name and the descriptor at an index. -/
def nameAndType (pool : ConstantPool) (index : Nat) : Except Malformed (String × String) :=
  match pool.get index with
  | .ok (.nameAndType name descriptor) => do
    return (← pool.text name, ← pool.text descriptor)
  | _ => .error (.badIndex index)

/-- The text at the index that comes next. -/
def nextText (pool : ConstantPool) : Reader String := do
  pool.text (← Reader.u2)

/-- The name of the class at the index that comes next. -/
def nextClassName (pool : ConstantPool) : Reader String := do
  pool.className (← Reader.u2)

end ConstantPool

end LineAtlas.ClassFile
