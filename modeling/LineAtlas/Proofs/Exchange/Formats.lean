import LineAtlas.Proofs.Exchange.Offering
import LineAtlas.Proofs.Json.ReadBack

/-!
# Both formats offer what was written

A number that names an entry is a text in JSON and a plain scalar in YAML, and both spell it. In
YAML a text is in quotes where it could be taken for nothing.
-/

namespace LineAtlas

namespace Yaml.Value

mutual

/-- Whether two values are equal. -/
def decEq : (a b : Value) → Decidable (a = b)
  | .scalar isPlain text, .scalar isPlain' text' =>
    decidable_of_iff (isPlain = isPlain' ∧ text = text') (by simp)
  | .sequence items, .sequence items' =>
    have := decEqItems items items'
    decidable_of_iff (items = items') (by simp)
  | .mapping entries, .mapping entries' =>
    have := decEqEntries entries entries'
    decidable_of_iff (entries = entries') (by simp)
  | .scalar _ _, .sequence _ | .scalar _ _, .mapping _ | .sequence _, .scalar _ _
  | .sequence _, .mapping _ | .mapping _, .scalar _ _ | .mapping _, .sequence _ =>
    isFalse (by simp)

/-- Whether two lists of items are equal. -/
def decEqItems : (items items' : List Value) → Decidable (items = items')
  | [], [] => isTrue rfl
  | first :: rest, first' :: rest' =>
    have := decEq first first'
    have := decEqItems rest rest'
    decidable_of_iff (first = first' ∧ rest = rest') (by simp)
  | [], _ :: _ | _ :: _, [] => isFalse (by simp)

/-- Whether two lists of entries are equal. -/
def decEqEntries : (entries entries' : List (Value × Value)) → Decidable (entries = entries')
  | [], [] => isTrue rfl
  | (key, value) :: rest, (key', value') :: rest' =>
    have := decEq key key'
    have := decEq value value'
    have := decEqEntries rest rest'
    decidable_of_iff ((key = key' ∧ value = value') ∧ rest = rest') (by simp)
  | [], _ :: _ | _ :: _, [] => isFalse (by simp)

end

/-- Values can be compared. -/
instance : DecidableEq Value := decEq

end Yaml.Value

namespace Exchange

namespace Data

mutual

/-- Data has no numbers but natural ones. -/
theorem natural_toJson : (d : Data) → d.toJson.Natural
  | .null | .truth _ | .text _ => trivial
  | .number value => ⟨value, rfl⟩
  | .list items => natural_toJsonItems items
  | .record fields => natural_toJsonFields fields
  | .table entries => natural_toJsonEntries entries

/-- The items of a list have only natural numbers in JSON. -/
theorem natural_toJsonItems : (items : List Data) → Json.Value.NaturalItems (toJsonItems items)
  | [] => trivial
  | first :: rest => ⟨natural_toJson first, natural_toJsonItems rest⟩

/-- The fields of a record have only natural numbers in JSON. -/
theorem natural_toJsonFields :
    (fields : List (String × Data)) → Json.Value.NaturalEntries (toJsonFields fields)
  | [] => trivial
  | (_, value) :: rest => ⟨natural_toJson value, natural_toJsonFields rest⟩

/-- The entries of a table have only natural numbers in JSON. -/
theorem natural_toJsonEntries :
    (entries : List (Nat × Data)) → Json.Value.NaturalEntries (toJsonEntries entries)
  | [] => trivial
  | (_, value) :: rest => ⟨natural_toJson value, natural_toJsonEntries rest⟩

end

/-- What data offers that went through JSON text. -/
def jsonNode (d : Data) : Node := Node.ofJson d.toJson.reread

/-- What a name offers as a key of JSON text. -/
def jsonKey (name : String) : Scalar :=
  Node.ofJsonKey ⟨name, Json.Token.staysVerbatim name.toList⟩

/-- A list offers its items again, in their order. -/
theorem ofJsonItems_toJsonItems (items : List Data) :
    Node.ofJsonItems (Json.Value.rereadItems (toJsonItems items)) = items.map jsonNode := by
  induction items with
  | nil => rfl
  | cons first rest ih =>
    rw [toJsonItems, Json.Value.rereadItems, Node.ofJsonItems, ih, List.map_cons, jsonNode]

/-- A record offers its fields again, in their order and under their names. -/
theorem ofJsonEntries_toJsonFields (fields : List (String × Data)) :
    Node.ofJsonEntries (Json.Value.rereadEntries (toJsonFields fields))
      = fields.map fun f => (some (jsonKey f.1), jsonNode f.2) := by
  induction fields with
  | nil => rfl
  | cons first rest ih =>
    rw [toJsonFields, Json.Value.rereadEntries, Node.ofJsonEntries, ih, List.map_cons, jsonKey,
      jsonNode]

/-- A table offers its entries again, each under the text of its number. -/
theorem ofJsonEntries_toJsonEntries (entries : List (Nat × Data)) :
    Node.ofJsonEntries (Json.Value.rereadEntries (toJsonEntries entries))
      = entries.map fun e => (some (jsonKey (toString e.1)), jsonNode e.2) := by
  induction entries with
  | nil => rfl
  | cons first rest ih =>
    rw [toJsonEntries, Json.Value.rereadEntries, Node.ofJsonEntries, ih, List.map_cons, jsonKey,
      jsonNode]

/-- No digit is escaped. -/
theorem jsonKey_number (n : Nat) : (jsonKey (toString n)).number = some n := by
  have hverbatim : Json.Token.staysVerbatim (toString n).toList = true := by
    rw [Nat.toString_eq_repr, Nat.toList_repr, Json.Token.staysVerbatim_toDigits]
  rw [jsonKey, Node.ofJsonKey, hverbatim]
  exact Node.plainDecimal?_toString n

/-- In YAML a list offers its items, in their order. -/
theorem ofYamlItems_toYamlItems (items : List Data) :
    Node.ofYamlItems (toYamlItems items) = items.map fun d => Node.ofYaml d.toYaml := by
  induction items with
  | nil => rfl
  | cons first rest ih => rw [toYamlItems, Node.ofYamlItems, ih, List.map_cons]

/-- In YAML a record offers its fields, in their order and under their names. -/
theorem ofYamlEntries_toYamlFields (fields : List (String × Data)) :
    Node.ofYamlEntries (toYamlFields fields)
      = fields.map fun f => (Node.ofYamlKey (.ofText f.1), Node.ofYaml f.2.toYaml) := by
  induction fields with
  | nil => rfl
  | cons first rest ih => rw [toYamlFields, Node.ofYamlEntries, ih, List.map_cons]

/-- In YAML a table offers its entries, each under a plain scalar that spells its number. -/
theorem ofYamlEntries_toYamlEntries (entries : List (Nat × Data)) :
    Node.ofYamlEntries (toYamlEntries entries)
      = entries.map fun e =>
          (Node.ofYamlKey (.scalar true (toString e.1)), Node.ofYaml e.2.toYaml) := by
  induction entries with
  | nil => rfl
  | cons first rest ih => rw [toYamlEntries, Node.ofYamlEntries, ih, List.map_cons]

end Data

/-- Data that went through JSON text comes back as readers need it. -/
theorem offering_json : Offering Data.jsonNode where
  null := rfl
  truth _ := rfl
  number value := ⟨_, rfl, rfl, Node.plainDecimal?_toString value⟩
  text _ := ⟨_, rfl, rfl, rfl⟩
  list items := ⟨true, congrArg (Node.list true) (Data.ofJsonItems_toJsonItems items)⟩
  record fields := ⟨true, Data.jsonKey, fun _ => rfl,
    congrArg (Node.table true) (Data.ofJsonEntries_toJsonFields fields)⟩
  table entries := ⟨true, fun n => Data.jsonKey (toString n), Data.jsonKey_number,
    congrArg (Node.table true) (Data.ofJsonEntries_toJsonEntries entries)⟩

namespace Node

/-- A scalar offers the text it spells, in quotes or without. -/
theorem ofYamlScalar_text (isPlain : Bool) (text : String) :
    (ofYamlScalar isPlain text).text = some text := by
  cases isPlain <;> rfl

/-- A text that could be taken for nothing is not plain. -/
theorem ofYamlScalar_isNull (text : String) :
    (ofYamlScalar (Yaml.mayBePlain text) text).isNull = false := by
  cases hplain : Yaml.mayBePlain text with
  | false => rfl
  | true =>
    have hsafe : Yaml.Plain.isAmbiguous text = false := by
      simp only [Yaml.mayBePlain, Bool.and_eq_true, Bool.not_eq_true'] at hplain
      exact hplain.1.1.1.1.1.1.1
    simp only [Yaml.Plain.isAmbiguous, Bool.or_eq_false_iff] at hsafe
    simp [ofYamlScalar, hsafe.1.1.1.1.1, hsafe.1.1.1.1.2]

/-- A plain scalar that spells a number offers that number. -/
theorem ofYamlScalar_number (n : Nat) : (ofYamlScalar true (toString n)).number = some n := by
  have hnatural := Yaml.Plain.natural?_toDigits n
  rw [← Nat.toList_repr] at hnatural
  exact hnatural

/-- No number is a word for nothing. -/
theorem ofYamlScalar_isNull_toString (n : Nat) :
    (ofYamlScalar true (toString n)).isNull = false := by
  have hne (word : String) (hword : word.toList.all Char.isDigit = false) : n.repr ≠ word := by
    rintro rfl
    have hdigits : n.repr.toList.all Char.isDigit = true :=
      List.all_eq_true.mpr fun c hc => Text.isDigit_of_mem (Nat.toList_repr ▸ hc)
    rw [hdigits] at hword
    cases hword
  simp [ofYamlScalar, Yaml.Plain.isNullWord, hne "null" (by decide), hne "Null" (by decide),
    hne "NULL" (by decide), hne "~" (by decide)]

end Node

/-- Data that went through YAML comes back as readers need it. -/
theorem offering_yaml : Offering fun d => Node.ofYaml d.toYaml where
  null := rfl
  truth value := by cases value <;> rfl
  number value := ⟨_, rfl, Node.ofYamlScalar_isNull_toString value, Node.ofYamlScalar_number value⟩
  text value := ⟨_, rfl, Node.ofYamlScalar_isNull value, Node.ofYamlScalar_text _ value⟩
  list items := ⟨false, congrArg (Node.list false) (Data.ofYamlItems_toYamlItems items)⟩
  record fields := ⟨false, fun name => Node.ofYamlScalar (Yaml.mayBePlain name) name,
    fun name => Node.ofYamlScalar_text _ name,
    congrArg (Node.table false) (Data.ofYamlEntries_toYamlFields fields)⟩
  table entries := ⟨false, fun n => Node.ofYamlScalar true (toString n), Node.ofYamlScalar_number,
    congrArg (Node.table false) (Data.ofYamlEntries_toYamlEntries entries)⟩

end Exchange

end LineAtlas
