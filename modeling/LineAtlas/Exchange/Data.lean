/-!
# Data to be written

Values on their way into a text, before it is known in which format they are written.
-/

namespace LineAtlas.Exchange

/-- A value to be written. -/
inductive Data where
  /-- Nothing. -/
  | null
  /-- A truth value. -/
  | truth (value : Bool)
  /-- A number. -/
  | number (value : Nat)
  /-- A text. -/
  | text (value : String)
  /-- Values in order. -/
  | list (items : List Data)
  /-- Values by name, in the order in which they are written. -/
  | record (fields : List (String × Data))
  /-- Values by number, in the order in which they are written. -/
  | table (entries : List (Nat × Data))
  deriving Inhabited

namespace Data

/-- A field that is always written. -/
def field (name : String) (value : Data) : List (String × Data) := [(name, value)]

/-- A field that is written when it has a value. -/
def fieldOf? (name : String) (value : Option Data) : List (String × Data) :=
  match value with
  | some value => [(name, value)]
  | none => []

/-- A field for a list, written unless the list is empty. -/
def fieldOfList (name : String) (items : List Data) : List (String × Data) :=
  if items.isEmpty then [] else [(name, .list items)]

/-- A value, or nothing. -/
def ofOption (value : Option Data) : Data := value.getD .null

end Data

end LineAtlas.Exchange
