import LineAtlas.Metadata.Wire
import LineAtlas.Text.Split

/-!
# Name tables

Messages refer to names by their index. The strings stored with the metadata may be
changed by records, each of which covers a run of indexes.
-/

namespace LineAtlas.Metadata

open Wire (Field FieldValue Form)

/-- Strings that need not be stored. -/
def predefinedStrings : List String :=
  ["kotlin/Any", "kotlin/Nothing", "kotlin/Unit", "kotlin/Throwable", "kotlin/Number",
    "kotlin/Byte", "kotlin/Double", "kotlin/Float", "kotlin/Int", "kotlin/Long",
    "kotlin/Short", "kotlin/Boolean", "kotlin/Char", "kotlin/CharSequence", "kotlin/String",
    "kotlin/Comparable", "kotlin/Enum", "kotlin/Array", "kotlin/ByteArray",
    "kotlin/DoubleArray", "kotlin/FloatArray", "kotlin/IntArray", "kotlin/LongArray",
    "kotlin/ShortArray", "kotlin/BooleanArray", "kotlin/CharArray", "kotlin/Cloneable",
    "kotlin/Annotation", "kotlin/collections/Iterable", "kotlin/collections/MutableIterable",
    "kotlin/collections/Collection", "kotlin/collections/MutableCollection",
    "kotlin/collections/List", "kotlin/collections/MutableList", "kotlin/collections/Set",
    "kotlin/collections/MutableSet", "kotlin/collections/Map",
    "kotlin/collections/MutableMap", "kotlin/collections/Map.Entry",
    "kotlin/collections/MutableMap.MutableEntry", "kotlin/collections/Iterator",
    "kotlin/collections/MutableIterator", "kotlin/collections/ListIterator",
    "kotlin/collections/MutableListIterator"]

/-- The item at an index, when the index is not negative and not too large. -/
def itemAt? {α : Type} (items : List α) (index : Int) : Option α :=
  if index < 0 then none else items[index.toNat]?

/-- How a name is turned into the name of a class. -/
inductive NameOperation where
  /-- The name stays as it is. -/
  | keep
  /-- An internal name becomes a class name. -/
  | fromInternal
  /-- A descriptor becomes a class name. -/
  | fromDescriptor
  deriving DecidableEq, Repr

/-- What is known about a run of names. -/
structure NameRecord where
  /-- Number of names that the record covers. -/
  range : Nat := 1
  /-- Index of a predefined string. -/
  predefined : Option Int := none
  /-- A text stored in the record. -/
  literal : Option String := none
  /-- What becomes of the name. -/
  operation : NameOperation := .keep
  /-- First position and end of the part that is taken. -/
  substring : Option (Int × Int) := none
  /-- A character to replace and its replacement. -/
  replacement : Option (Char × Char) := none
  deriving DecidableEq, Repr

namespace NameRecord

/-- The character with a code, when there is one. -/
def charOf? (code : Int) : Option Char :=
  if 0 ≤ code ∧ code.toNat.isValidChar then some (Char.ofNat code.toNat) else none

/-- Two characters, when both codes have one. -/
def charPair? (old new : Int) : Option (Char × Char) := do
  return (← charOf? old, ← charOf? new)

/-- The numbers in the value of a field. -/
def numbersIn : FieldValue → Except Malformed (List Int)
  | .varint value => .ok [Wire.int32 value]
  | .bytes value => Wire.packed value
  | .fixed => .error (.wire .notNumbers)

/-- How the fields of a record are read: the fields with one number or a text by their
meaning, the lists of numbers in one of their two forms, others as written. -/
def formRule : Wire.FormRule
  | 1, _ | 2, _ | 3, _ => .ok .varint
  | 6, _ => .ok .bytes
  | 4, .fixed _ | 5, .fixed _ => .error (.wire .notNumbers)
  | _, form => .ok form

/-- The text that bytes spell in UTF-8. -/
def textOf (bytes : List UInt8) : Except Malformed String :=
  match String.fromUTF8? ⟨bytes.toArray⟩ with
  | some text => .ok text
  | none => .error (.wire .badUtf8)

/-- The record with the number of a field put in. -/
def withNumber (record : NameRecord) (number : Nat) (value : Int) :
    Except Malformed NameRecord :=
  match number with
  | 1 =>
    if value < 0 then .error (.wire (.negativeRange value))
    else .ok { record with range := value.toNat }
  | 2 => .ok { record with predefined := some value }
  | _ =>
    let operation : NameOperation :=
      if value = 1 then .fromInternal else if value = 2 then .fromDescriptor else .keep
    .ok { record with operation }

/-- The record with a list of numbers put in. Only pairs count. -/
def withNumbers (record : NameRecord) (number : Nat) : List Int → NameRecord
  | [first, second] =>
    if number = 4 then { record with substring := some (first, second) }
    else { record with replacement := charPair? first second }
  | _ => record

/-- The record with a field put in. -/
def withField (record : NameRecord) (field : Field) : Except Malformed NameRecord :=
  match field.number, field.value with
  | 1, .varint value | 2, .varint value | 3, .varint value =>
    record.withNumber field.number (Wire.int32 value)
  | 6, .bytes value => (fun text => { record with literal := some text }) <$> textOf value
  | 4, value | 5, value => record.withNumbers field.number <$> numbersIn value
  | _, _ => .ok record

/-- The record that bytes spell. -/
def ofBytes (bytes : List UInt8) : Except Malformed NameRecord :=
  Wire.foldFields formRule withField {} bytes

/-- The part of a name between two positions, when they lie in it and in order. -/
def cut (substring : Option (Int × Int)) (name : String) : String :=
  match substring with
  | some (start, stop) =>
    if 0 ≤ start ∧ start ≤ stop ∧ stop ≤ name.length then
      String.ofList ((name.toList.drop start.toNat).take (stop - start).toNat)
    else name
  | none => name

/-- A name with one character replaced by another. -/
def replace (replacement : Option (Char × Char)) (name : String) : String :=
  match replacement with
  | some (old, new) => Text.replaceChar old new name
  | none => name

/-- A name as the operation leaves it. -/
def applyOperation (operation : NameOperation)
    (name : String) : String :=
  match operation with
  | .keep => name
  | .fromInternal => Text.replaceChar '$' '.' name
  | .fromDescriptor =>
    Text.replaceChar '$' '.' (String.ofList (name.toList.drop 1).dropLast)

/-- A name after all that the record does to it. -/
def adjust (record : NameRecord) (name : String) : String :=
  applyOperation record.operation (replace record.replacement (cut record.substring name))

end NameRecord

/-- The strings of a class's metadata and the records about them. -/
structure NameTable where
  /-- Stored strings. -/
  strings : List String
  /-- The record of each index that has one. -/
  records : List NameRecord
  deriving DecidableEq, Repr

namespace NameTable

/-- Fields with number one hold records. -/
def formRule : Wire.FormRule
  | 1, _ => .ok .bytes
  | _, form => .ok form

/-- The table with a field put in. No record may cover more strings than are left. -/
def withField (table : NameTable) (field : Field) : Except Malformed NameTable :=
  match field.number, field.value with
  | 1, .bytes bytes =>
    match NameRecord.ofBytes bytes with
    | .error cause => .error cause
    | .ok record =>
      let count := max 1 record.range
      let left := table.strings.length - table.records.length
      if count ≤ left then
        .ok { table with records := table.records ++ List.replicate count record }
      else .error (.wire (.longRange count left))
  | _, _ => .ok table

/-- The table of some strings and the records that bytes spell. -/
def ofBytes (strings : List String) (bytes : List UInt8) : Except Malformed NameTable :=
  Wire.foldFields formRule withField ⟨strings, []⟩ bytes

/-- The text that a record starts from: its own, a predefined one or the stored one. -/
def base? (table : NameTable) (record : NameRecord) (index : Int) : Option String :=
  match record.literal, record.predefined with
  | some text, _ => some text
  | none, some predefined => itemAt? predefinedStrings predefined
  | none, none => itemAt? table.strings index

/-- The name at an index, when there is one. -/
def get? (table : NameTable) (index : Int) : Option String :=
  match itemAt? table.records index with
  | some record => record.adjust <$> table.base? record index
  | none => itemAt? table.strings index

/-- The name at an index. -/
def get (table : NameTable) (index : Int) : Except Malformed String :=
  match table.get? index with
  | some name => .ok name
  | none => .error (.badNameIndex index)

end NameTable

end LineAtlas.Metadata
