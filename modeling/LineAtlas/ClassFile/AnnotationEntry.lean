import LineAtlas.ClassFile.ConstantPool

/-!
# Annotations

An annotation has a type and named values. A value may be an annotation or a list of values
again, to any depth.
-/

namespace LineAtlas.ClassFile

/-- The value of an annotation element. -/
inductive ElementValue where
  /-- A byte, character, integer, short or truth value. -/
  | int (value : Int)
  /-- A long integer. -/
  | long (value : Int)
  /-- The bits of a float. -/
  | float (bits : Nat)
  /-- The bits of a double. -/
  | double (bits : Nat)
  /-- A text. -/
  | string (text : String)
  /-- A constant of an enumeration, by the descriptor of the enumeration. -/
  | enum (type constant : String)
  /-- A class, by its descriptor. -/
  | classRef (descriptor : String)
  /-- Another annotation. -/
  | nested (type : String) (elements : List (String × ElementValue))
  /-- A list of values. -/
  | array (values : List ElementValue)

/-- An annotation. -/
structure AnnotationEntry where
  /-- Descriptor of the annotation's type. -/
  type : String
  /-- Values by name, in order. -/
  elements : List (String × ElementValue)

namespace AnnotationEntry

/-- The first value with a given name. -/
def element? (a : AnnotationEntry) (name : String) : Option ElementValue :=
  (a.elements.find? fun entry => entry.1 == name).map Prod.snd

/-- An annotation whose values a given step reads. -/
def readWith (pool : ConstantPool) (value : Reader ElementValue) : Reader AnnotationEntry := do
  let type ← pool.nextText
  let elements ← Reader.counted do
    let name ← pool.nextText
    return (name, ← value)
  return ⟨type, elements⟩

end AnnotationEntry

namespace ElementValue

/-- A value of the kind with the given letter, where a step reads the values inside. A
number constant of another kind makes the letter wrong. -/
def readKind (pool : ConstantPool) (value : Reader ElementValue) (tag : UInt8) :
    Reader ElementValue :=
  match Char.ofNat tag.toNat with
  | 'B' | 'C' | 'I' | 'S' | 'Z' => do
    return .int (← pool.integer (← Reader.u2))
  | 'J' => do
    match ← pool.get (← Reader.u2) with
    | .long number => return .long number
    | _ => Reader.fail (.badElement tag)
  | 'F' => do
    match ← pool.get (← Reader.u2) with
    | .float bits => return .float bits
    | _ => Reader.fail (.badElement tag)
  | 'D' => do
    match ← pool.get (← Reader.u2) with
    | .double bits => return .double bits
    | _ => Reader.fail (.badElement tag)
  | 's' => .string <$> pool.nextText
  | 'e' => do
    let type ← pool.nextText
    return .enum type (← pool.nextText)
  | 'c' => .classRef <$> pool.nextText
  | '@' => (fun inner => .nested inner.type inner.elements) <$>
      AnnotationEntry.readWith pool value
  | '[' => .array <$> Reader.counted value
  | _ => Reader.fail (.badElement tag)

/-- A value that nests at most as deep as given. Every level takes a byte, so at depth zero
of a depth that starts from the number of bytes there is nothing left to read. -/
def readNested (pool : ConstantPool) : Nat → Reader ElementValue
  | 0 => fun cursor => .error (.unexpectedEnd cursor.offset)
  | depth + 1 => do
    let tag ← Reader.u1
    readKind pool (readNested pool depth) (UInt8.ofNat tag)

/-- A value; no value nests deeper than there are bytes. -/
def read (pool : ConstantPool) : Reader ElementValue := fun cursor =>
  (readNested pool cursor.rest.length).run cursor

end ElementValue

/-- An annotation. -/
def AnnotationEntry.read (pool : ConstantPool) : Reader AnnotationEntry :=
  AnnotationEntry.readWith pool (ElementValue.read pool)

end LineAtlas.ClassFile
