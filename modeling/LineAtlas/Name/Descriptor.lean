/-!
# Method descriptors

A descriptor lists the parameter types of a method between parentheses and then its return
type. A field type is a primitive letter or a class name between `L` and `;`, after any
number of array brackets.
-/

namespace LineAtlas

/-- The primitive types that a descriptor can name. -/
inductive Primitive where
  | byte | char | double | float | int | long | short | boolean
  deriving DecidableEq, Repr

namespace Primitive

/-- The letter of a primitive type. -/
def letter : Primitive → Char
  | .byte => 'B'
  | .char => 'C'
  | .double => 'D'
  | .float => 'F'
  | .int => 'I'
  | .long => 'J'
  | .short => 'S'
  | .boolean => 'Z'

/-- The primitive type with a given letter. -/
def ofLetter? : Char → Option Primitive
  | 'B' => some .byte
  | 'C' => some .char
  | 'D' => some .double
  | 'F' => some .float
  | 'I' => some .int
  | 'J' => some .long
  | 'S' => some .short
  | 'Z' => some .boolean
  | _ => none

end Primitive

/-- The type of a parameter or of a result. -/
inductive FieldType where
  /-- A primitive type. -/
  | primitive (type : Primitive)
  /-- A class or interface, by its internal name. -/
  | object (name : List Char)
  /-- An array of another type. -/
  | array (element : FieldType)
  deriving DecidableEq, Repr

namespace FieldType

/-- The written form of a field type. -/
def render : FieldType → List Char
  | .primitive type => [type.letter]
  | .object name => 'L' :: name ++ [';']
  | .array element => '[' :: element.render

/-- A class name and the text after the semicolon that ends it. -/
def readName? : List Char → Option (List Char × List Char)
  | [] => none
  | c :: rest =>
    if c = ';' then some ([], rest)
    else (readName? rest).map fun (name, rest) => (c :: name, rest)

/-- One field type at the front of a text, and the text after it. A class name has at least
one character. -/
def read? : List Char → Option (FieldType × List Char)
  | [] => none
  | c :: rest =>
    if c = '[' then (read? rest).map fun (element, rest) => (.array element, rest)
    else if c = 'L' then
      match readName? rest with
      | none | some ([], _) => none
      | some (name, rest) => some (.object name, rest)
    else (Primitive.ofLetter? c).map fun type => (.primitive type, rest)

/-- Reading a class name consumes at least its semicolon. -/
theorem readName?_length {text name rest : List Char}
    (hread : readName? text = some (name, rest)) : rest.length < text.length := by
  induction text generalizing name with
  | nil => simp [readName?] at hread
  | cons c tail ih =>
    unfold readName? at hread
    split at hread
    · grind
    · simp only [Option.map_eq_some_iff, Prod.exists, Prod.mk.injEq] at hread
      obtain ⟨inner, after, hinner, -, rfl⟩ := hread
      have := ih hinner
      simp only [List.length_cons]
      omega

/-- Reading a field type consumes text. -/
theorem read?_length {text rest : List Char} {type : FieldType}
    (hread : read? text = some (type, rest)) : rest.length < text.length := by
  induction text generalizing type with
  | nil => simp [read?] at hread
  | cons c tail ih =>
    unfold read? at hread
    split at hread
    · simp only [Option.map_eq_some_iff, Prod.exists, Prod.mk.injEq] at hread
      obtain ⟨element, after, helement, -, rfl⟩ := hread
      have := ih helement
      simp only [List.length_cons]
      omega
    · split at hread
      · split at hread
        · simp at hread
        · simp at hread
        · next hname =>
          simp only [Option.some.injEq, Prod.mk.injEq] at hread
          obtain ⟨-, rfl⟩ := hread
          have := readName?_length hname
          simp only [List.length_cons]
          omega
      · simp only [Option.map_eq_some_iff, Prod.mk.injEq] at hread
        obtain ⟨_, -, -, rfl⟩ := hread
        simp

end FieldType

/-- The parameter types and the return type of a method; no return type means `V`. -/
structure Descriptor where
  /-- Types of the parameters, in order. -/
  parameters : List FieldType
  /-- Type of the result, when there is one. -/
  returns : Option FieldType
  deriving DecidableEq, Repr

namespace Descriptor

/-- The written form of a return type. -/
def renderReturn : Option FieldType → List Char
  | none => ['V']
  | some type => type.render

/-- The written form of a descriptor. -/
def render (d : Descriptor) : String :=
  String.ofList ('(' :: d.parameters.flatMap FieldType.render ++ ')' :: renderReturn d.returns)

/-- Parameter types up to the closing parenthesis, and the text after it. -/
def readParameters? : List Char → Option (List FieldType × List Char)
  | [] => none
  | c :: tail =>
    if c = ')' then some ([], tail)
    else
      match _hread : FieldType.read? (c :: tail) with
      | none => none
      | some (type, rest) =>
        (readParameters? rest).map fun (types, rest) => (type :: types, rest)
termination_by text => text.length
decreasing_by exact FieldType.read?_length _hread

/-- A return type that ends the text. -/
def readReturn? : List Char → Option (Option FieldType)
  | ['V'] => some none
  | text =>
    match FieldType.read? text with
    | some (type, []) => some (some type)
    | _ => none

/-- The descriptor that a text spells, when it spells one. -/
def parse? (text : String) : Option Descriptor :=
  match text.toList with
  | '(' :: rest => do
    let (parameters, rest) ← readParameters? rest
    let returns ← readReturn? rest
    return ⟨parameters, returns⟩
  | _ => none

/-- A text that is not a descriptor. -/
structure Malformed where
  /-- The whole text. -/
  text : String
  deriving DecidableEq, Repr

/-- The wording of a malformed descriptor. -/
def Malformed.message (m : Malformed) : String := "malformed descriptor: " ++ m.text

/-- The descriptor that a text spells. -/
def parse (text : String) : Except Malformed Descriptor :=
  match parse? text with
  | some descriptor => .ok descriptor
  | none => .error ⟨text⟩

end Descriptor

end LineAtlas
