/-!
# Data that was read

What a text offers to a reader that knows what it wants. A scalar may be open to several
readings: the same word can be a text and a truth value. Formats differ in what they offer,
and not in how it is read. Every list, record or table that is entered counts as one level,
and the number of levels is limited.
-/

namespace LineAtlas.Exchange

/-- The readings of a scalar. -/
structure Scalar where
  /-- As a text. -/
  text : Option String := none
  /-- As a natural number. -/
  number : Option Nat := none
  /-- As a truth value. -/
  truth : Option Bool := none
  /-- As the absence of an optional value. -/
  isNull : Bool := false
  /-- As a list, record or table without entries. -/
  isVoid : Bool := false
  deriving DecidableEq, Repr

/-- What a text offers. -/
inductive Node where
  /-- A scalar. -/
  | scalar (scalar : Scalar)
  /-- Items in order. If it is positional, it may stand for a record by giving the fields in
  their order. -/
  | list (positional : Bool) (items : List Node)
  /-- Entries by key. Keys that are no scalars are not told apart. If it is elective, a single
  key without a value may stand for the choice of that name. -/
  | table (elective : Bool) (entries : List (Option Scalar × Node))
  deriving Inhabited

/-- The fields that were read of a record, each at most once. -/
abbrev Fields := List (String × Node)

namespace Node

/-- Whether the node stands for the absence of an optional value. -/
def isNull : Node → Bool
  | .scalar s => s.isNull
  | _ => false

/-- Whether the node is a scalar that stands for something without entries. -/
def isVoid : Node → Bool
  | .scalar s => s.isVoid
  | _ => false

/-- The node as a text. -/
def text? : Node → Option String
  | .scalar s => s.text
  | _ => none

/-- The node as a truth value. -/
def truth? : Node → Option Bool
  | .scalar s => s.truth
  | _ => none

/-- The node as a natural number below a bound. -/
def numberBelow? (bound : Nat) : Node → Option Nat
  | .scalar s => s.number.filter (· < bound)
  | _ => none

/-- The node as the name of a choice. -/
def choiceName? : Node → Option String
  | .table true [(some key, value)] => if value.isNull then key.text else none
  | node => node.text?

/-- The node as one of some choices that go by names. -/
def choice? {α : Type} (choices : List α) (name : α → String) (node : Node) : Option α :=
  node.choiceName?.bind fun chosen => choices.find? (name · == chosen)

/-- An optional value. -/
def optional? {α : Type} (read : Node → Option α) (node : Node) : Option (Option α) :=
  if node.isNull then some none else (read node).map some

/-- The node as a list, given how its items are read. -/
def list? {α : Type} (read : Node → Option α) : Node → Option (List α)
  | .list _ items => items.mapM read
  | node => if node.isVoid then some [] else none

/-- The entries of a table with the known names, each at most once. All keys are texts. -/
def namedEntries? (names : List String) : List (Option Scalar × Node) → Option Fields
  | [] => some []
  | (key, value) :: rest => do
    let name ← key.bind (·.text)
    let fields ← namedEntries? names rest
    if names.contains name then
      if fields.any (·.1 == name) then none else return (name, value) :: fields
    else return fields

/-- The node as a record with the given names. Unknown fields are ignored. -/
def fields? (names : List String) : Node → Option Fields
  | .table _ entries => namedEntries? names entries
  | .list true items => if items.length ≤ names.length then some (names.zip items) else none
  | node => if node.isVoid then some [] else none

/-- The node as a table by numbers, given how its values are read. -/
def table? {α : Type} (bound : Nat) (read : Node → Option α) : Node → Option (List (Nat × α))
  | .table _ entries =>
    entries.mapM fun (key, value) => do
      let number ← (key.bind (·.number)).filter (· < bound)
      return (number, ← read value)
  | node => if node.isVoid then some [] else none

end Node

namespace Fields

/-- The value of a field. -/
def get? (fields : Fields) (name : String) : Option Node :=
  (fields.find? (·.1 == name)).map Prod.snd

/-- A field that has to be there. -/
def required? {α : Type} (fields : Fields) (name : String) (read : Node → Option α) :
    Option α :=
  (fields.get? name).bind read

/-- A field with a default. -/
def withDefault? {α : Type} (fields : Fields) (name : String) (default : α)
    (read : Node → Option α) : Option α :=
  match fields.get? name with
  | some node => read node
  | none => some default

/-- A field that may be missing or null. -/
def optional? {α : Type} (fields : Fields) (name : String) (read : Node → Option α) :
    Option (Option α) :=
  fields.withDefault? name none (Node.optional? read)

/-- The text of a field that has to be there. -/
def text? (fields : Fields) (name : String) : Option String := fields.required? name Node.text?

end Fields

end LineAtlas.Exchange
