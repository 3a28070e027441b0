import LineAtlas.Exchange.Data
import LineAtlas.Exchange.Node
import LineAtlas.Json.Value
import LineAtlas.Text.Decimal

/-!
# Data and JSON

Numbers that name the entries of a table are written in quotes. When JSON is read, an array
may stand for a record and an object for a choice, and a scalar offers nothing but what it is.
-/

namespace LineAtlas.Exchange

open Json (Key Value)

namespace Data

mutual

/-- The JSON value of data. -/
def toJson : Data → Value
  | .null => .null
  | .truth value => .bool value
  | .number value => Value.ofNat value
  | .text value => .string value
  | .list items => .array (toJsonItems items)
  | .record fields => .object (toJsonFields fields)
  | .table entries => .object (toJsonEntries entries)

/-- The JSON values of the items of a list. -/
def toJsonItems : List Data → List Value
  | [] => []
  | first :: rest => first.toJson :: toJsonItems rest

/-- The JSON values of the fields of a record. -/
def toJsonFields : List (String × Data) → List (Key × Value)
  | [] => []
  | (name, value) :: rest => (name, value.toJson) :: toJsonFields rest

/-- The JSON values of the entries of a table. -/
def toJsonEntries : List (Nat × Data) → List (Key × Value)
  | [] => []
  | (key, value) :: rest => (toString key, value.toJson) :: toJsonEntries rest

end

end Data

namespace Node

/-- The natural number that decimal digits spell, if no zero stands in front. -/
def plainDecimal? (text : String) : Option Nat :=
  match text.toList with
  | '0' :: _ :: _ => none
  | digits => Text.decimal? digits

/-- What the key of an object offers. A number stands there in plain digits. -/
def ofJsonKey (key : Key) : Scalar :=
  { text := some key.text, number := if key.isVerbatim then plainDecimal? key.text else none }

mutual

/-- What a JSON value offers. -/
def ofJson : Value → Node
  | .null => .scalar { isNull := true }
  | .bool value => .scalar { truth := some value }
  | .number literal => .scalar { number := plainDecimal? literal }
  | .string text => .scalar { text := some text }
  | .unpaired => .scalar {}
  | .array items => .list true (ofJsonItems items)
  | .object entries => .table true (ofJsonEntries entries)

/-- What the items of an array offer. -/
def ofJsonItems : List Value → List Node
  | [] => []
  | first :: rest => ofJson first :: ofJsonItems rest

/-- What the entries of an object offer. -/
def ofJsonEntries : List (Key × Value) → List (Option Scalar × Node)
  | [] => []
  | (key, value) :: rest => (some (ofJsonKey key), ofJson value) :: ofJsonEntries rest

end

end Node

end LineAtlas.Exchange
