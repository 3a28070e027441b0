/-!
# YAML values

A YAML value keeps its scalars as text, and the order of its entries. What a plain scalar
means is left to the reader of the value.
-/

namespace LineAtlas.Yaml

/-- A YAML value. -/
inductive Value where
  /-- A scalar, plain or in quotes. -/
  | scalar (isPlain : Bool) (text : String)
  /-- Values in order. -/
  | sequence (items : List Value)
  /-- Pairs of key and value, in the order in which they are written. -/
  | mapping (entries : List (Value × Value))
  deriving Inhabited, Repr

namespace Value

/-- What stands where a value is left out. -/
def missing : Value := .scalar true ""

end Value

end LineAtlas.Yaml
