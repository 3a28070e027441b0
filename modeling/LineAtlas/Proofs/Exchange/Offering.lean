import LineAtlas.Exchange.Data
import LineAtlas.Exchange.Node
import LineAtlas.Proofs.Lists

/-!
# Data offered to a reader

Data that went through a format is offered to readers again. What they need to know of the format
is how each kind of data comes back; everything else about records is said once for all formats.
-/

namespace LineAtlas.Exchange

namespace Data

mutual

/-- The number of levels: each list, record or table that is entered is one. -/
def levels : Data → Nat
  | .null | .truth _ | .number _ | .text _ => 0
  | .list items => levelsOfItems items + 1
  | .record fields => levelsOfFields fields + 1
  | .table entries => levelsOfEntries entries + 1

/-- The number of levels in the items of a list. -/
def levelsOfItems : List Data → Nat
  | [] => 0
  | first :: rest => max first.levels (levelsOfItems rest)

/-- The number of levels in the fields of a record. -/
def levelsOfFields : List (String × Data) → Nat
  | [] => 0
  | (_, value) :: rest => max value.levels (levelsOfFields rest)

/-- The number of levels in the entries of a table. -/
def levelsOfEntries : List (Nat × Data) → Nat
  | [] => 0
  | (_, value) :: rest => max value.levels (levelsOfEntries rest)

end

variable {limit : Nat}

/-- The items of a list have as many levels as their deepest one. -/
theorem levelsOfItems_le {items : List Data} :
    levelsOfItems items ≤ limit ↔ ∀ item ∈ items, item.levels ≤ limit := by
  induction items with
  | nil => simp [levelsOfItems]
  | cons first rest ih => rw [levelsOfItems, Nat.max_le, ih, List.forall_mem_cons]

/-- The entries of a table have as many levels as their deepest one. -/
theorem levelsOfEntries_le {entries : List (Nat × Data)} :
    levelsOfEntries entries ≤ limit ↔ ∀ entry ∈ entries, entry.2.levels ≤ limit := by
  induction entries with
  | nil => simp [levelsOfEntries]
  | cons first rest ih => rw [levelsOfEntries, Nat.max_le, ih, List.forall_mem_cons]

/-- A list takes one level off what its items may have. -/
theorem exists_of_levels_list_le {items : List Data} (h : (Data.list items).levels ≤ limit) :
    ∃ inner, limit = inner + 1 ∧ ∀ item ∈ items, item.levels ≤ inner := by
  obtain ⟨inner, rfl⟩ := Nat.exists_eq_add_of_le' (Nat.one_le_of_lt h)
  exact ⟨inner, rfl, levelsOfItems_le.mp (Nat.le_of_succ_le_succ h)⟩

/-- A record takes one level more than its fields. -/
theorem levels_record_le_succ {fields : List (String × Data)} :
    (Data.record fields).levels ≤ limit + 1 ↔ levelsOfFields fields ≤ limit :=
  Nat.succ_le_succ_iff

/-- A record takes one level off what its fields may have. -/
theorem exists_of_levels_record_le {fields : List (String × Data)}
    (h : (Data.record fields).levels ≤ limit) :
    ∃ inner, limit = inner + 1 ∧ levelsOfFields fields ≤ inner := by
  obtain ⟨inner, rfl⟩ := Nat.exists_eq_add_of_le' (Nat.one_le_of_lt h)
  exact ⟨inner, rfl, Nat.le_of_succ_le_succ h⟩

/-- A table takes one level off what its entries may have. -/
theorem exists_of_levels_table_le {entries : List (Nat × Data)}
    (h : (Data.table entries).levels ≤ limit) :
    ∃ inner, limit = inner + 1 ∧ ∀ entry ∈ entries, entry.2.levels ≤ inner := by
  obtain ⟨inner, rfl⟩ := Nat.exists_eq_add_of_le' (Nat.one_le_of_lt h)
  exact ⟨inner, rfl, levelsOfEntries_le.mp (Nat.le_of_succ_le_succ h)⟩

/-- Fields that are put together have as many levels as the deeper part. -/
@[simp]
theorem levelsOfFields_append_le {fields more : List (String × Data)} :
    levelsOfFields (fields ++ more) ≤ limit ↔
      levelsOfFields fields ≤ limit ∧ levelsOfFields more ≤ limit := by
  induction fields with
  | nil => simp [levelsOfFields]
  | cons first rest ih =>
    rw [List.cons_append, levelsOfFields, Nat.max_le, ih, levelsOfFields, Nat.max_le, and_assoc]

/-- A field has the levels of its value. -/
@[simp]
theorem levelsOfFields_field_le {name : String} {value : Data} :
    levelsOfFields (field name value) ≤ limit ↔ value.levels ≤ limit := by
  simp [field, levelsOfFields]

/-- A field that may be left out has the levels of its value, or none. -/
@[simp]
theorem levelsOfFields_fieldOf?_le {name : String} {value : Option Data} :
    levelsOfFields (fieldOf? name value) ≤ limit ↔ ∀ v, value = some v → v.levels ≤ limit := by
  cases value <;> simp [fieldOf?, levelsOfFields]

/-- A list that is left out when it is empty has no levels then. -/
@[simp]
theorem levelsOfFields_fieldOfList_le {name : String} {items : List Data} :
    levelsOfFields (fieldOfList name items) ≤ limit ↔
      (items ≠ [] → (Data.list items).levels ≤ limit) := by
  cases items <;> simp [fieldOfList, levelsOfFields]

/-- The value of a field. -/
def fieldIn? (fields : List (String × Data)) (name : String) : Option Data :=
  (fields.find? (·.1 == name)).map Prod.snd

variable {name other : String}

/-- A field is looked for among the first fields, and then among the others. -/
@[simp]
theorem fieldIn?_append (fields more : List (String × Data)) :
    fieldIn? (fields ++ more) name = (fieldIn? fields name).or (fieldIn? more name) := by
  simp [fieldIn?, List.find?_append, Option.map_or]

/-- A single field is found under its own name only. -/
@[simp]
theorem fieldIn?_field (value : Data) :
    fieldIn? (field other value) name = if other = name then some value else none := by
  by_cases h : other = name <;> simp [fieldIn?, field, h]

/-- A field that may be left out is found under its name if there is a value. -/
@[simp]
theorem fieldIn?_fieldOf? (value : Option Data) :
    fieldIn? (fieldOf? other value) name = if other = name then value else none := by
  by_cases h : other = name <;> cases value <;> simp [fieldIn?, fieldOf?, h]

/-- A list is found under its name if it has items. -/
@[simp]
theorem fieldIn?_fieldOfList (items : List Data) :
    fieldIn? (fieldOfList other items) name =
      if other = name ∧ items ≠ [] then some (.list items) else none := by
  by_cases h : other = name <;> cases items <;> simp [fieldIn?, fieldOfList, h]

/-- The fields of a record are among some names, each at most once and in their order. -/
def NamedBy (fields : List (String × Data)) (names : List String) : Prop :=
  (fields.map Prod.fst).Sublist names

/-- A single field is named by its name. -/
theorem namedBy_field (name : String) (value : Data) : NamedBy (field name value) [name] :=
  List.Sublist.refl [name]

/-- A field that may be left out is named by its name, or absent. -/
theorem namedBy_fieldOf? (name : String) (value : Option Data) :
    NamedBy (fieldOf? name value) [name] := by
  cases value <;> simp [NamedBy, fieldOf?]

/-- A list that is left out when it is empty is named by its name, or absent. -/
theorem namedBy_fieldOfList (name : String) (items : List Data) :
    NamedBy (fieldOfList name items) [name] := by
  cases items <;> simp [NamedBy, fieldOfList]

/-- Fields that are put together are named by both lists of names in turn. -/
theorem NamedBy.append {fields more : List (String × Data)} {names others : List String}
    (h : NamedBy fields names) (hmore : NamedBy more others) :
    NamedBy (fields ++ more) (names ++ others) := by
  rw [NamedBy, List.map_append]
  exact List.Sublist.append h hmore

/-- Only names of a record lead to its fields. -/
theorem NamedBy.fieldIn?_eq_none {fields : List (String × Data)} {names : List String}
    (h : NamedBy fields names) (hname : name ∉ names) : fieldIn? fields name = none := by
  rw [fieldIn?, Option.map_eq_none_iff, List.find?_eq_none]
  intro f hf heq
  exact hname (h.subset (List.mem_map.mpr ⟨f, hf, beq_iff_eq.mp heq⟩))

end Data

/-- How a format offers data again. -/
structure Offering (node : Data → Node) : Prop where
  /-- Nothing is offered as nothing. -/
  null : (node .null).isNull = true
  /-- A truth value is offered as such. -/
  truth (value : Bool) : (node (.truth value)).truth? = some value
  /-- A number is offered as such, and not as nothing. -/
  number (value : Nat) : ∃ s : Scalar, node (.number value) = .scalar s ∧ s.isNull = false ∧
    s.number = some value
  /-- A text is offered as such, and not as nothing. -/
  text (value : String) : ∃ s : Scalar, node (.text value) = .scalar s ∧ s.isNull = false ∧
    s.text = some value
  /-- A list is offered with its items. -/
  list (items : List Data) : ∃ positional, node (.list items) = .list positional (items.map node)
  /-- A record is offered with its fields by their names. -/
  record (fields : List (String × Data)) : ∃ (elective : Bool) (key : String → Scalar),
    (∀ name, (key name).text = some name) ∧
      node (.record fields) = .table elective (fields.map fun f => (some (key f.1), node f.2))
  /-- A table is offered with its entries by their numbers. -/
  table (entries : List (Nat × Data)) : ∃ (elective : Bool) (key : Nat → Scalar),
    (∀ n, (key n).number = some n) ∧
      node (.table entries) = .table elective (entries.map fun e => (some (key e.1), node e.2))

namespace Node

/-- Distinct fields with known names are found. -/
theorem namedEntries?_eq_some (node : Data → Node) {names : List String} {key : String → Scalar}
    (hkey : ∀ name, (key name).text = some name) {fields : List (String × Data)}
    (hknown : ∀ f ∈ fields, f.1 ∈ names) (hnodup : (fields.map Prod.fst).Nodup) :
    namedEntries? names (fields.map fun f => (some (key f.1), node f.2))
      = some (fields.map fun f => (f.1, node f.2)) := by
  induction fields with
  | nil => rfl
  | cons first rest ih =>
    rw [List.map_cons, List.nodup_cons] at hnodup
    have hrest := ih (fun f hf => hknown f (List.mem_cons_of_mem first hf)) hnodup.2
    have hfirst : names.contains first.1 = true :=
      List.contains_iff_mem.mpr (hknown first List.mem_cons_self)
    have hnew : (rest.map fun f => (f.1, node f.2)).any (·.1 == first.1) = false := by
      rw [List.any_eq_false]
      intro entry hentry heq
      obtain ⟨f, hf, rfl⟩ := List.mem_map.mp hentry
      exact hnodup.1 (List.mem_map.mpr ⟨f, hf, beq_iff_eq.mp heq⟩)
    simp only [List.map_cons, namedEntries?, Option.bind_some, hkey, hrest, hfirst, hnew,
      Option.bind_eq_bind]
    rfl

end Node

namespace Offering

variable {node : Data → Node} (offering : Offering node)
include offering

/-- A number is not taken for nothing. -/
theorem isNull_number (value : Nat) : (node (.number value)).isNull = false := by
  obtain ⟨s, hnode, hnull, -⟩ := offering.number value
  rw [hnode]
  exact hnull

/-- A number below a bound is read back. -/
theorem numberBelow? {value bound : Nat} (h : value < bound) :
    (node (.number value)).numberBelow? bound = some value := by
  obtain ⟨s, hnode, -, hnumber⟩ := offering.number value
  simp [hnode, Node.numberBelow?, hnumber, h]

/-- A text is not taken for nothing. -/
theorem isNull_text (value : String) : (node (.text value)).isNull = false := by
  obtain ⟨s, hnode, hnull, -⟩ := offering.text value
  rw [hnode]
  exact hnull

/-- A text is read back. -/
theorem text? (value : String) : (node (.text value)).text? = some value := by
  obtain ⟨s, hnode, -, htext⟩ := offering.text value
  rw [hnode]
  exact htext

/-- A record is not taken for nothing, not even one without fields. -/
theorem isNull_record (fields : List (String × Data)) :
    (node (.record fields)).isNull = false := by
  obtain ⟨elective, key, -, hnode⟩ := offering.record fields
  rw [hnode]
  rfl

/-- A table is not taken for nothing, not even one without entries. -/
theorem isNull_table (entries : List (Nat × Data)) : (node (.table entries)).isNull = false := by
  obtain ⟨elective, key, -, hnode⟩ := offering.table entries
  rw [hnode]
  rfl

/-- A list is read when its items are. -/
theorem list? {α : Type} {read : Node → Option α} {write : α → Data} {xs : List α}
    (h : ∀ x ∈ xs, read (node (write x)) = some x) :
    (node (.list (xs.map write))).list? read = some xs := by
  obtain ⟨positional, hnode⟩ := offering.list (xs.map write)
  rw [hnode, Node.list?, List.map_map, List.mapM_map]
  exact (Lists.mapM_eq_some h).trans (congrArg some (List.map_id' xs))

/-- A record is read field by field, when it has only known fields. -/
theorem fields? {fields : List (String × Data)} {names : List String}
    (h : Data.NamedBy fields names) (hnames : names.Nodup) :
    ∃ found : Fields, (node (.record fields)).fields? names = some found ∧
      ∀ name, found.get? name = (Data.fieldIn? fields name).map node := by
  obtain ⟨elective, key, hkey, hnode⟩ := offering.record fields
  have hknown (f : String × Data) (hf : f ∈ fields) : f.1 ∈ names :=
    h.subset (List.mem_map_of_mem hf)
  have hread := Node.namedEntries?_eq_some node hkey hknown (h.nodup hnames)
  refine ⟨_, by rw [hnode, Node.fields?, hread], fun name => ?_⟩
  rw [Fields.get?, Data.fieldIn?, List.find?_map]
  simp [Function.comp_def]

/-- A table is read when its values are, and its numbers are below the bound. -/
theorem table? {α : Type} {bound : Nat} {read : Node → Option α} {write : α → Data}
    {entries : List (Nat × α)} (hbound : ∀ e ∈ entries, e.1 < bound)
    (h : ∀ e ∈ entries, read (node (write e.2)) = some e.2) :
    (node (.table (entries.map fun e => (e.1, write e.2)))).table? bound read = some entries := by
  obtain ⟨elective, key, hkey, hnode⟩ := offering.table (entries.map fun e => (e.1, write e.2))
  rw [hnode, Node.table?, List.map_map, List.mapM_map]
  refine (Lists.mapM_eq_some fun e he => ?_).trans (congrArg some (List.map_id entries))
  have hnumber : (some e.1).filter (· < bound) = some e.1 := by simp [hbound e he]
  simp [hkey, hnumber, h e he]

/-- Fields that were found are those that were written. -/
theorem text?_field {found : Fields} {name value : String}
    (h : found.get? name = some (node (.text value))) : found.text? name = some value := by
  rw [Fields.text?, Fields.required?, h]
  exact offering.text? value

/-- A flag that was written is read back, and its default does not matter. -/
theorem truth_field {found : Fields} {name : String} {value : Bool}
    (h : found.get? name = some (node (.truth value))) :
    found.withDefault? name false Node.truth? = some value := by
  rw [Fields.withDefault?, h]
  exact offering.truth value

/-- What is offered as an optional value comes back, if it cannot be taken for nothing. -/
theorem optional? {α : Type} {read : Node → Option α} {write : α → Data} {value : Option α}
    (h : ∀ a ∈ value, (node (write a)).isNull = false ∧ read (node (write a)) = some a) :
    Node.optional? read (node (Data.ofOption (value.map write))) = some value := by
  cases value with
  | none => exact if_pos offering.null
  | some a =>
    obtain ⟨hnull, hread⟩ := h a rfl
    rw [Option.map_some, Data.ofOption, Option.getD_some, Node.optional?, hnull, hread]
    rfl

/-- A part that may be missing comes back, whether it was left out or not. -/
theorem optional?_field {α : Type} {found : Fields} {name : String} {read : Node → Option α}
    (write : α → Data) {value : Option α} (hget : found.get? name = (value.map write).map node)
    (h : ∀ a ∈ value, (node (write a)).isNull = false ∧ read (node (write a)) = some a) :
    found.optional? name read = some value := by
  cases value with
  | none => rw [Fields.optional?, Fields.withDefault?, hget]; rfl
  | some a =>
    rw [Fields.optional?, Fields.withDefault?, hget]
    exact offering.optional? h

/-- A part that is always written comes back, nothing as nothing. -/
theorem optional?_ofOption {α : Type} {found : Fields} {name : String} {read : Node → Option α}
    (write : α → Data) {value : Option α}
    (hget : found.get? name = some (node (Data.ofOption (value.map write))))
    (h : ∀ a ∈ value, (node (write a)).isNull = false ∧ read (node (write a)) = some a) :
    found.optional? name read = some value := by
  rw [Fields.optional?, Fields.withDefault?, hget]
  exact offering.optional? h

end Offering

end LineAtlas.Exchange
