import LineAtlas.ClassFile.AnnotationEntry
import LineAtlas.Proofs.ClassFile.PoolLayout
import LineAtlas.Proofs.Lists

/-!
# The layout of annotations

Annotations and their values as they are written. Values are read back however deep they nest:
a value that lies in another takes fewer bytes, and the depth that is allowed starts from the
number of bytes.
-/

namespace LineAtlas.ClassFile.Layout

open Reader

/-- The kinds of annotation values that are kept as integers. -/
inductive IntKind where
  /-- A byte. -/
  | byte
  /-- A character. -/
  | char
  /-- An integer. -/
  | int
  /-- A short integer. -/
  | short
  /-- A truth value. -/
  | boolean
  deriving DecidableEq

/-- The letter of a kind. -/
def IntKind.letter : IntKind → Char
  | byte => 'B'
  | char => 'C'
  | int => 'I'
  | short => 'S'
  | boolean => 'Z'

/-- An annotation value as it is written for a pool. -/
inductive Value (p : Pool) where
  /-- A value that is kept as an integer. -/
  | int (kind : IntKind) (number : p.At Entry.integer)
  /-- A long integer. -/
  | long (number : p.At Entry.long)
  /-- A float. -/
  | float (number : p.At Entry.float)
  /-- A double. -/
  | double (number : p.At Entry.double)
  /-- A text. -/
  | string (text : p.At Entry.text)
  /-- A constant of an enumeration. -/
  | enum (type constant : p.At Entry.text)
  /-- A class. -/
  | classRef (descriptor : p.At Entry.text)
  /-- Another annotation. -/
  | nested (type : p.At Entry.text) (elements : List (p.At Entry.text × Value p))
  /-- A list of values. -/
  | array (values : List (Value p))

namespace Value

variable {p : Pool}

/-- A value inside another annotation is smaller. -/
theorem sizeOf_lt_nested {type : p.At Entry.text} {elements : List (p.At Entry.text × Value p)}
    {element : p.At Entry.text × Value p} (h : element ∈ elements) :
    sizeOf element.2 < sizeOf (nested type elements) := by
  have hlt := List.sizeOf_lt_of_mem h
  obtain ⟨name, value⟩ := element
  simp only [Prod.mk.sizeOf_spec, nested.sizeOf_spec] at hlt ⊢
  omega

/-- A value inside a list is smaller. -/
theorem sizeOf_lt_array {values : List (Value p)} {value : Value p} (h : value ∈ values) :
    sizeOf value < sizeOf (array values) := by
  have hlt := List.sizeOf_lt_of_mem h
  simp only [array.sizeOf_spec]
  omega

/-- The letter of the kind of a value. -/
def letter : Value p → Char
  | int kind _ => kind.letter
  | long _ => 'J'
  | float _ => 'F'
  | double _ => 'D'
  | string _ => 's'
  | enum _ _ => 'e'
  | classRef _ => 'c'
  | nested _ _ => '@'
  | array _ => '['

/-- The bytes of a value after its kind. -/
def body : Value p → List UInt8
  | int _ number => number.bytes
  | long number => number.bytes
  | float number => number.bytes
  | double number => number.bytes
  | string text => text.bytes
  | enum type constant => type.bytes ++ constant.bytes
  | classRef descriptor => descriptor.bytes
  | nested type elements =>
    type.bytes ++ (bigEndianBytes 2 elements.length ++ elements.flatMap fun element =>
      element.1.bytes ++ (bigEndianBytes 1 element.2.letter.toNat ++ element.2.body))
  | array values =>
    bigEndianBytes 2 values.length ++ values.flatMap fun value =>
      bigEndianBytes 1 value.letter.toNat ++ value.body
termination_by value => value
decreasing_by
  · exact sizeOf_lt_nested ‹_›
  · exact sizeOf_lt_array ‹_›

/-- The bytes of a value. -/
def bytes (v : Value p) : List UInt8 := bigEndianBytes 1 v.letter.toNat ++ v.body

/-- The bytes of a named value. -/
def elementBytes (element : p.At Entry.text × Value p) : List UInt8 :=
  element.1.bytes ++ element.2.bytes

/-- The numbers of values are written in two bytes each. -/
def Fits : Value p → Prop
  | nested _ elements => elements.length < 2 ^ 16 ∧ ∀ element ∈ elements, element.2.Fits
  | array values => values.length < 2 ^ 16 ∧ ∀ value ∈ values, value.Fits
  | _ => True
termination_by value => value
decreasing_by
  · exact sizeOf_lt_nested ‹_›
  · exact sizeOf_lt_array ‹_›

/-- What a value is read as. -/
def elementValue : Value p → ElementValue
  | int _ number => .int number.value.toInt
  | long number => .long number.value.toInt
  | float number => .float number.value.toNat
  | double number => .double number.value.toNat
  | string text => .string text.value
  | enum type constant => .enum type.value constant.value
  | classRef descriptor => .classRef descriptor.value
  | nested type elements =>
    .nested type.value (elements.map fun element => (element.1.value, element.2.elementValue))
  | array values => .array (values.map elementValue)
termination_by value => value
decreasing_by
  · exact sizeOf_lt_nested ‹_›
  · exact sizeOf_lt_array ‹_›

/-- What a named value is read as. -/
def element (e : p.At Entry.text × Value p) : String × ElementValue :=
  (e.1.value, e.2.elementValue)

/-- An annotation as a value is its type and its counted elements. -/
theorem body_nested (type : p.At Entry.text) (elements : List (p.At Entry.text × Value p)) :
    (nested type elements).body = type.bytes ++ countedBytes elements elementBytes := by
  rw [body]
  rfl

/-- An array is its counted values. -/
theorem body_array (values : List (Value p)) :
    (array values).body = countedBytes values bytes := by
  rw [body]
  rfl

/-- The letter of a value is a byte. -/
theorem letter_lt (v : Value p) : v.letter.toNat < 2 ^ 8 := by
  cases v with
  | int kind number => cases kind <;> simp [letter, IntKind.letter]
  | _ => simp [letter]

/-- A value is its letter and its body, so the body is shorter. -/
theorem length_lt_bytes (v : Value p) : v.body.length < v.bytes.length := by
  rw [bytes, List.length_append, length_bigEndianBytes]
  omega

/-- An annotation is read when the values in it are. -/
theorem reads_readWith {value : Reader ElementValue} (type : p.At Entry.text)
    {elements : List (p.At Entry.text × Value p)} (hcount : elements.length < 2 ^ 16)
    (hvalues : ∀ e ∈ elements, Reads value e.2.bytes e.2.elementValue) :
    Reads (AnnotationEntry.readWith p.constantPool value)
      (type.bytes ++ countedBytes elements elementBytes) ⟨type.value, elements.map element⟩ := by
  refine (Pool.reads_nextText type).bind ((reads_counted hcount fun e he => ?_).bind_pure
    (reads_pure _))
  exact (Pool.reads_nextText e.1).bind ((hvalues e he).bind_pure (reads_pure _))

/-- A value is read when as many levels are allowed as it has bytes. -/
theorem reads_readNested {depth : Nat} {v : Value p} (hfits : v.Fits)
    (hdepth : v.bytes.length ≤ depth) :
    Reads (ElementValue.readNested p.constantPool depth) v.bytes v.elementValue := by
  induction depth generalizing v with
  | zero =>
    have hlength := v.length_lt_bytes
    omega
  | succ depth ih =>
    have hbody : v.body.length ≤ depth := by
      have hlength := v.length_lt_bytes
      omega
    refine (reads_u1 v.letter_lt).bind ?_
    cases v with
    | int kind number =>
      have hint : Reads (do return ElementValue.int (← p.constantPool.integer (← u2)))
          number.bytes (.int number.value.toInt) :=
        (reads_u2Bytes number.index).bind_pure ((reads_lift (Pool.integer_at number)).bind_pure
          (reads_pure _))
      rw [body, elementValue]
      cases kind <;> exact hint
    | long number =>
      rw [body, elementValue]
      exact (reads_u2Bytes number.index).bind_pure
        ((reads_lift (Pool.get_constantPool number.stands)).bind_pure (reads_pure _))
    | float number =>
      rw [body, elementValue]
      exact (reads_u2Bytes number.index).bind_pure
        ((reads_lift (Pool.get_constantPool number.stands)).bind_pure (reads_pure _))
    | double number =>
      rw [body, elementValue]
      exact (reads_u2Bytes number.index).bind_pure
        ((reads_lift (Pool.get_constantPool number.stands)).bind_pure (reads_pure _))
    | string text =>
      rw [body, elementValue]
      exact (Pool.reads_nextText text).map _
    | enum type constant =>
      rw [body, elementValue]
      exact (Pool.reads_nextText type).bind ((Pool.reads_nextText constant).bind_pure
        (reads_pure _))
    | classRef descriptor =>
      rw [body, elementValue]
      exact (Pool.reads_nextText descriptor).map _
    | nested type elements =>
      rw [Fits] at hfits
      rw [body_nested] at hbody ⊢
      rw [elementValue]
      refine (reads_readWith type hfits.1 fun e he => ih (hfits.2 e he) ?_).map _
      have hinside := Lists.length_le_flatMap elementBytes he
      simp only [elementBytes, countedBytes, List.length_append] at hinside hbody
      omega
    | array values =>
      rw [Fits] at hfits
      rw [body_array] at hbody ⊢
      rw [elementValue]
      refine (reads_counted hfits.1 fun value hvalue => ih (hfits.2 value hvalue) ?_).map _
      have hinside := Lists.length_le_flatMap bytes hvalue
      simp only [countedBytes, List.length_append] at hbody
      omega

/-- Every value that fits is read back. -/
theorem reads {v : Value p} (hfits : v.Fits) :
    Reads (ElementValue.read p.constantPool) v.bytes v.elementValue := by
  intro offset rest
  exact reads_readNested hfits (by simp) offset rest

end Value

/-- An annotation as it is written for a pool. -/
structure AnnotationLayout (p : Pool) where
  /-- The type. -/
  type : p.At Entry.text
  /-- Values by name. -/
  elements : List (p.At Entry.text × Value p)

namespace AnnotationLayout

variable {p : Pool}

/-- The bytes of an annotation. -/
def bytes (a : AnnotationLayout p) : List UInt8 :=
  a.type.bytes ++ countedBytes a.elements Value.elementBytes

/-- The number of values is written in two bytes, and every value fits. -/
def Fits (a : AnnotationLayout p) : Prop :=
  a.elements.length < 2 ^ 16 ∧ ∀ element ∈ a.elements, element.2.Fits

/-- What an annotation is read as. -/
def entry (a : AnnotationLayout p) : AnnotationEntry :=
  ⟨a.type.value, a.elements.map Value.element⟩

/-- An annotation of a layout is read back, with values of every nesting. -/
theorem reads {a : AnnotationLayout p} (hfits : a.Fits) :
    Reads (AnnotationEntry.read p.constantPool) a.bytes a.entry :=
  Value.reads_readWith a.type hfits.1 fun e he => Value.reads (hfits.2 e he)

end AnnotationLayout

end LineAtlas.ClassFile.Layout
