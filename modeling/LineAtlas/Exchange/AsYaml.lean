import LineAtlas.Exchange.Data
import LineAtlas.Exchange.Node
import LineAtlas.Yaml.Write

/-!
# Data and YAML

Numbers, truth values and null are plain scalars. When YAML is read, a plain scalar is open to
every reading that its text allows, and a scalar in quotes is a text.
-/

namespace LineAtlas.Exchange

open Yaml (Value)

namespace Data

mutual

/-- The YAML value of data. -/
def toYaml : Data → Value
  | .null => .scalar true "null"
  | .truth value => .scalar true (if value then "true" else "false")
  | .number value => .scalar true (toString value)
  | .text value => .ofText value
  | .list items => .sequence (toYamlItems items)
  | .record fields => .mapping (toYamlFields fields)
  | .table entries => .mapping (toYamlEntries entries)

/-- The YAML values of the items of a list. -/
def toYamlItems : List Data → List Value
  | [] => []
  | first :: rest => first.toYaml :: toYamlItems rest

/-- The YAML values of the fields of a record. -/
def toYamlFields : List (String × Data) → List (Value × Value)
  | [] => []
  | (name, value) :: rest => (.ofText name, value.toYaml) :: toYamlFields rest

/-- The YAML values of the entries of a table. -/
def toYamlEntries : List (Nat × Data) → List (Value × Value)
  | [] => []
  | (key, value) :: rest => (.scalar true (toString key), value.toYaml) :: toYamlEntries rest

end

end Data

namespace Node

/-- What a scalar offers. -/
def ofYamlScalar (isPlain : Bool) (text : String) : Scalar :=
  if isPlain then
    { text := some text
      number := Yaml.Plain.natural? text.toList
      truth := Yaml.Plain.truth? text
      isNull := text.isEmpty || Yaml.Plain.isNullWord text
      isVoid := text.isEmpty }
  else { text := some text }

/-- What a key offers. -/
def ofYamlKey : Value → Option Scalar
  | .scalar isPlain text => some (ofYamlScalar isPlain text)
  | _ => none

mutual

/-- What a YAML value offers. -/
def ofYaml : Value → Node
  | .scalar isPlain text => .scalar (ofYamlScalar isPlain text)
  | .sequence items => .list false (ofYamlItems items)
  | .mapping entries => .table false (ofYamlEntries entries)

/-- What the items of a sequence offer. -/
def ofYamlItems : List Value → List Node
  | [] => []
  | first :: rest => ofYaml first :: ofYamlItems rest

/-- What the entries of a mapping offer. -/
def ofYamlEntries : List (Value × Value) → List (Option Scalar × Node)
  | [] => []
  | (key, value) :: rest => (ofYamlKey key, ofYaml value) :: ofYamlEntries rest

end

end Node

end LineAtlas.Exchange
