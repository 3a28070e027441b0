/-!
# JSON values

A JSON value keeps the order of its object entries and the literal of every number. Keys
remember whether they are written with escapes, because a number does not stand in such a key.
-/

namespace LineAtlas.Json

/-- The key of an object. -/
structure Key where
  /-- The text that it stands for. -/
  text : String
  /-- Whether it is written as it is, without an escape. -/
  isVerbatim : Bool := true
  deriving DecidableEq, Inhabited, Repr

/-- A text stands for the key that spells it. -/
instance : Coe String Key := ⟨fun text => { text }⟩

/-- A JSON value. -/
inductive Value where
  /-- The literal `null`. -/
  | null
  /-- A truth value. -/
  | bool (value : Bool)
  /-- A number, by its literal. -/
  | number (literal : String)
  /-- A string. -/
  | string (text : String)
  /-- A string that has no text, because an escape in it names half of a surrogate pair, or an
  object with such a key. -/
  | unpaired
  /-- A list of values. -/
  | array (items : List Value)
  /-- Named values in the order in which they are written. -/
  | object (entries : List (Key × Value))
  deriving Inhabited, Repr

namespace Value

/-- A natural number. -/
def ofNat (n : Nat) : Value := .number (toString n)

/-- A string, or `null`. -/
def ofString? : Option String → Value
  | some text => .string text
  | none => .null

end Value

end LineAtlas.Json
