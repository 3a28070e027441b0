import LineAtlas.Proofs.Metadata.Flags
import LineAtlas.Proofs.Metadata.Writing

/-!
# Types come back from their messages

Names, types and value parameters as the messages they are written in. Names are indexes of
strings, and types stand where they are used.
-/

namespace LineAtlas.Metadata.Written

open Wire

variable {strings : List String}

/-- A string that is referred to by its index. -/
structure Name (strings : List String) where
  /-- The index. -/
  index : Nat
  /-- There is a string at the index. -/
  lt : index < strings.length
  /-- The index is not negative when it is read with its sign. -/
  fits : index < 2 ^ 31

/-- The string that is referred to. -/
def Name.text (n : Name strings) : String := strings.get ⟨n.index, n.lt⟩

/-- What can be referred to where there are no tables and no records about names. -/
def scope (strings : List String) : Scope := { names := ⟨strings, []⟩ }

/-- A name is given back from its index. -/
theorem get_name (n : Name strings) : (scope strings).names.get n.index = .ok n.text := by
  have hindex : ¬ (n.index : Int) < 0 := by omega
  simp [scope, NameTable.get, NameTable.get?, itemAt?, hindex, Name.text, n.lt]

/-- A name that may be missing is given back from its index. -/
theorem name?_name (n : Option (Name strings)) :
    (scope strings).name? (n.map fun n => (n.index : Int)) = .ok (n.map Name.text) := by
  cases n with
  | none => rfl
  | some n => exact Except.map_ok some (get_name n)

/-- Names written for a field. -/
def nameItems (number : Nat) (names : List (Name strings)) : List Item :=
  numberItems number (names.map Name.index)

/-- Words written for a field. -/
def wordItems (number : Nat) (words : List (BitVec 32)) : List Item :=
  numberItems number (words.map word)

/-- The fields for names can be written. -/
theorem fits_nameItems {number : Nat} (hpos : 0 < number) (hlt : number < 2 ^ 32)
    (names : List (Name strings)) : ∀ i ∈ nameItems number names, i.Fits := by
  refine fits_numberItems hpos hlt fun value hvalue => ?_
  obtain ⟨n, -, rfl⟩ := List.mem_map.mp hvalue
  have hfits := n.fits
  omega

/-- The fields for words can be written. -/
theorem fits_wordItems {number : Nat} (hpos : 0 < number) (hlt : number < 2 ^ 32)
    (words : List (BitVec 32)) : ∀ i ∈ wordItems number words, i.Fits := by
  refine fits_numberItems hpos hlt fun value hvalue => ?_
  obtain ⟨w, -, rfl⟩ := List.mem_map.mp hvalue
  exact word_lt w

section Lookup

variable {number other : Nat}

/-- The indexes of names are small enough to be read as they are. -/
theorem map_int32_index (names : List (Name strings)) :
    (names.map Name.index).map int32 = names.map fun n => (n.index : Int) := by
  induction names with
  | nil => rfl
  | cons n rest ih => rw [List.map_cons, List.map_cons, List.map_cons, ih, int32_of_lt n.fits]

/-- Words are read with their sign. -/
theorem map_int32_word (words : List (BitVec 32)) :
    (words.map word).map int32 = words.map BitVec.toInt := by
  induction words with
  | nil => rfl
  | cons w rest ih => rw [List.map_cons, List.map_cons, List.map_cons, ih, int32_word]

/-- Names are found as their indexes under their own field only. -/
@[simp]
theorem numbersOf_nameItems (names : List (Name strings)) :
    numbersOf number (nameItems other names)
      = if other = number then names.map fun n => (n.index : Int) else [] := by
  rw [nameItems, numbersOf_numberItems, map_int32_index]

/-- Words are found under their own field only. -/
@[simp]
theorem numbersOf_wordItems (words : List (BitVec 32)) :
    numbersOf number (wordItems other words)
      = if other = number then words.map BitVec.toInt else [] := by
  rw [wordItems, numbersOf_numberItems, map_int32_word]

/-- The fields for names hold no messages. -/
@[simp]
theorem bodiesOf_nameItems (names : List (Name strings)) :
    bodiesOf number (nameItems other names) = [] := bodiesOf_numberItems _

/-- The fields for words hold no messages. -/
@[simp]
theorem bodiesOf_wordItems (words : List (BitVec 32)) :
    bodiesOf number (wordItems other words) = [] := bodiesOf_numberItems _

/-- The fields for names have no other number. -/
theorem nameItems_ne (h : other ≠ number) (names : List (Name strings)) :
    ∀ i ∈ nameItems other names, i.number ≠ number := numberItems_ne h _

end Lookup

/-- What a type can refer to. -/
inductive Target where
  /-- A class. -/
  | classRef
  /-- A type parameter. -/
  | typeParameter
  /-- A type alias. -/
  | typeAlias
  deriving DecidableEq

/-- The field for the name of what a type refers to. -/
def Target.number : Target → Nat
  | classRef => 6
  | typeParameter => 9
  | typeAlias => 12

/-- What a type with a given name refers to. A type parameter has no number of its own here. -/
def Target.classifier (name : String) : Target → Classifier
  | classRef => .classRef name
  | typeParameter => .typeParameter (-1) (some name)
  | typeAlias => .typeAlias name

/-- A type. -/
structure TypeMessage (strings : List String) where
  /-- What it refers to. -/
  target : Target
  /-- Name of what it refers to. -/
  name : Name strings
  /-- Whether null belongs to it. -/
  nullable : Bool

namespace TypeMessage

/-- The fields of a type. -/
def items (t : TypeMessage strings) : List Item :=
  wordItems 3 (if t.nullable then [1] else []) ++ nameItems t.target.number [t.name]

/-- The bytes of a type. -/
def bytes (t : TypeMessage strings) : List UInt8 := messageBytes t.items

/-- What a type is read as. -/
def typeRef (t : TypeMessage strings) : TypeRef :=
  ⟨some (t.target.classifier t.name.text), t.nullable⟩

/-- The fields of a type can be written. -/
theorem fits (t : TypeMessage strings) : ∀ i ∈ t.items, i.Fits := by
  have htarget : 0 < t.target.number ∧ t.target.number < 2 ^ 32 := by
    cases t.target <;> simp [Target.number]
  exact List.forall_mem_append.mpr ⟨fits_wordItems (by decide) (by decide) _,
    fits_nameItems htarget.1 htarget.2 _⟩

/-- A type is read back from its message. -/
theorem type_bytes (t : TypeMessage strings) (hlength : t.bytes.length < 2 ^ 64) :
    (scope strings).type t.bytes = .ok t.typeRef := by
  have hmessage := Message.ofBytes_messageBytes "Type" t.fits hlength
  have hname := get_name t.name
  have hflag : (Message.ofItems "Type" t.items).flag 3 = t.nullable := by
    rw [Message.flag, Message.int?_ofItems]
    cases htarget : t.target <;> cases hnullable : t.nullable <;>
      simp [items, htarget, hnullable, Target.number]
  have hclassifier : (scope strings).classifier (.ofItems "Type" t.items)
      = .ok (some (t.target.classifier t.name.text)) := by
    rw [Scope.classifier]
    simp only [Message.int?_ofItems, items, numbersOf_append, numbersOf_wordItems]
    cases t.target with
    | classRef =>
      simpa [Target.number, Target.classifier] using
        Except.map_ok (some ∘ Classifier.classRef) hname
    | typeParameter =>
      simpa [Target.number, Target.classifier] using
        Except.map_ok (fun name => some (Classifier.typeParameter (-1) (some name))) hname
    | typeAlias =>
      simpa [Target.number, Target.classifier] using
        Except.map_ok (some ∘ Classifier.typeAlias) hname
  refine Except.bind_ok hmessage (Except.bind_ok hclassifier ?_)
  rw [hflag]
  rfl

end TypeMessage

section Fields

variable (kind : String) {items : List Item}

/-- A field that must be there, and is. -/
theorem int_ofItems {field : Nat} {value : Int} (h : numbersOf field items = [value]) :
    (Message.ofItems kind items).int field = .ok value := by
  rw [Message.int, Message.int?_ofItems, h]
  rfl

/-- A number that may be there. -/
theorem int?_of_numbers {α : Type} {value : α → Int} {field : Nat} {o : Option α}
    (h : numbersOf field items = o.toList.map value) :
    (Message.ofItems kind items).int? field = o.map value := by
  rw [Message.int?_ofItems, h, Lists.getLast?_map_toList]

section Bodies

variable {α β : Type} {written : α → List UInt8} {field : Nat}

/-- Messages inside another are as short as it. -/
theorem length_lt_of_bodies (hlength : (messageBytes items).length < 2 ^ 64) {values : List α}
    (hbodies : bodiesOf field items = values.map written) :
    ∀ a ∈ values, (written a).length < 2 ^ 64 := by
  intro a ha
  have hshort := length_le_messageBytes (hbodies ▸ List.mem_map_of_mem ha)
  omega

/-- A message that may be inside another. -/
theorem message?_of_bodies {o : Option α}
    (hbodies : bodiesOf field items = o.toList.map written) :
    (Message.ofItems kind items).message? field = o.map written := by
  rw [Message.message?_ofItems, hbodies, Lists.getLast?_map_toList]

/-- Messages inside another come back when each of them does by itself. -/
theorem mapM_bodies {read : List UInt8 → Except Malformed β} {meaning : α → β}
    (hread : ∀ a, (written a).length < 2 ^ 64 → read (written a) = .ok (meaning a))
    (hlength : (messageBytes items).length < 2 ^ 64) {values : List α}
    (hbodies : bodiesOf field items = values.map written) :
    ((Message.ofItems kind items).messages field).mapM read = .ok (values.map meaning) := by
  rw [Message.messages_ofItems, hbodies]
  exact Except.mapM_ok fun a ha => hread a (length_lt_of_bodies hlength hbodies a ha)

end Bodies

/-- A type that may be given in place. -/
theorem typeIn_ofItems {inPlace : Nat} (byIndex : Nat) (type : Option (TypeMessage strings))
    (hlength : (messageBytes items).length < 2 ^ 64)
    (hbodies : bodiesOf inPlace items = type.toList.map TypeMessage.bytes)
    (hindexes : numbersOf byIndex items = []) :
    (scope strings).typeIn (.ofItems kind items) inPlace byIndex
      = .ok (type.map TypeMessage.typeRef) := by
  have hshort := length_lt_of_bodies hlength hbodies
  rw [Scope.typeIn, message?_of_bodies kind hbodies, Message.int?_ofItems, hindexes]
  cases type with
  | none => rfl
  | some t => exact Except.map_ok some (t.type_bytes (hshort t List.mem_cons_self))

/-- All types that are given in place. -/
theorem typesIn_ofItems {inPlace : Nat} (byIndex : Nat) (types : List (TypeMessage strings))
    (hlength : (messageBytes items).length < 2 ^ 64)
    (hbodies : bodiesOf inPlace items = types.map TypeMessage.bytes)
    (hindexes : ∀ i ∈ items, i.number ≠ byIndex) :
    (scope strings).typesIn (.ofItems kind items) inPlace byIndex
      = .ok (types.map TypeMessage.typeRef) := by
  have hgiven := mapM_bodies kind TypeMessage.type_bytes hlength hbodies
  rw [Scope.typesIn, Message.ints_ofItems]
  refine Except.bind_ok hgiven (Except.bind_ok (intsOf_of_ne hindexes) (Except.bind_ok rfl ?_))
  exact congrArg Except.ok (List.append_nil _)

/-- Without tables, what can be referred to stays the same inside a message. -/
theorem inside_ofItems {parameters : Option Nat}
    (hparameters : ∀ number ∈ parameters, bodiesOf number items = [])
    (htypes : bodiesOf 30 items = []) :
    (scope strings).inside (.ofItems kind items) parameters = .ok (scope strings) := by
  cases parameters with
  | none =>
    simp only [Scope.inside, Message.message?_ofItems, htypes]
    rfl
  | some number =>
    simp only [Scope.inside, Message.messages_ofItems, Message.message?_ofItems,
      hparameters number rfl, htypes]
    rfl

/-- A bit counts as not set when there is no word. -/
theorem hasFlag_getD_int?_ofItems {field bit : Nat} (hbit : bit < 32)
    {flags : Option (BitVec 32)} (h : numbersOf field items = flags.toList.map BitVec.toInt) :
    hasFlag (((Message.ofItems kind items).int? field).getD 0) bit
      = flags.any fun flags => flags.getLsbD bit := by
  rw [int?_of_numbers kind h]
  cases flags with
  | none => exact (hasFlag_toInt 0 hbit).trans (BitVec.getLsbD_zero)
  | some flags => exact hasFlag_toInt flags hbit

end Fields

/-- A value parameter. -/
structure ParameterMessage (strings : List String) where
  /-- Flags. -/
  flags : Option (BitVec 32)
  /-- Name. -/
  name : Name strings
  /-- Type of the value. -/
  type : Option (TypeMessage strings)
  /-- Type of each value, when any number of them can be given. -/
  vararg : Option (TypeMessage strings)

namespace ParameterMessage

/-- The fields of a value parameter. -/
def items (p : ParameterMessage strings) : List Item :=
  wordItems 1 p.flags.toList ++ (nameItems 2 [p.name] ++
    (messageItems 3 (p.type.toList.map TypeMessage.bytes) ++
      messageItems 4 (p.vararg.toList.map TypeMessage.bytes)))

/-- The bytes of a value parameter. -/
def bytes (p : ParameterMessage strings) : List UInt8 := messageBytes p.items

/-- What a value parameter is read as. -/
def parameter (p : ParameterMessage strings) : Parameter where
  name := p.name.text
  hasDefault := p.flags.any fun flags => flags.getLsbD 1
  type := p.type.map TypeMessage.typeRef
  vararg := p.vararg.map TypeMessage.typeRef

/-- The fields of a value parameter can be written. -/
theorem fits (p : ParameterMessage strings) : ∀ i ∈ p.items, i.Fits := by
  simp only [items, List.forall_mem_append]
  exact ⟨fits_wordItems (by decide) (by decide) _, fits_nameItems (by decide) (by decide) _,
    fits_messageItems (by decide) (by decide) _, fits_messageItems (by decide) (by decide) _⟩

/-- A value parameter is read back from its message. -/
theorem parameter_bytes (p : ParameterMessage strings) (hlength : p.bytes.length < 2 ^ 64) :
    (scope strings).parameter p.bytes = .ok p.parameter := by
  have hmessage := Message.ofBytes_messageBytes "ValueParameter" p.fits hlength
  have hname : numbersOf 2 p.items = [(p.name.index : Int)] := by simp [items]
  have htype := typeIn_ofItems "ValueParameter" 5 p.type hlength
    (show bodiesOf 3 p.items = _ by simp [items]) (by simp [items])
  have hvararg := typeIn_ofItems "ValueParameter" 6 p.vararg hlength
    (show bodiesOf 4 p.items = _ by simp [items]) (by simp [items])
  have hflags := hasFlag_getD_int?_ofItems "ValueParameter" (show 1 < 32 by decide)
    (show numbersOf 1 p.items = p.flags.toList.map _ by simp [items])
  refine Except.bind_ok hmessage (Except.bind_ok (int_ofItems _ hname)
    (Except.bind_ok (get_name p.name) (Except.bind_ok htype (Except.bind_ok hvararg ?_))))
  rw [hflags]
  rfl

end ParameterMessage

end LineAtlas.Metadata.Written
