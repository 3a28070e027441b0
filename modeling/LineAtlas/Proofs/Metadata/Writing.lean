import Mathlib.Algebra.Group.Nat.Defs
import LineAtlas.Proofs.Lists
import LineAtlas.Proofs.Metadata.Fields

/-!
# Messages come back from their bytes

Fields as they are written, in each of the forms that a field can have, and the messages that
are made of them. Every message is read as the fields that were written, in order, and what is
looked up in it is what was written for the number.
-/

namespace LineAtlas.Metadata.Wire

/-- The bytes of a number, seven bits in each, the least significant first. All but the last are
marked. -/
def varintBytes (n : Nat) : List UInt8 :=
  if n < 128 then [UInt8.ofNat n] else UInt8.ofNat (128 + n % 128) :: varintBytes (n / 128)

/-- The last byte of a number is not marked. -/
theorem varintWithin_last {n : Nat} (hn : n < 128) (count : Nat) (rest : List UInt8) :
    varintWithin (count + 1) (UInt8.ofNat n :: rest) = .ok (n, rest) := by
  rw [varintWithin, UInt8.toNat_ofNat', Nat.mod_eq_of_lt (by omega), if_pos hn]

/-- A number that fits some groups of seven bits is read back from as many bytes. -/
theorem varintWithin_varintBytes {count n : Nat} (hn : n < 128 ^ (count + 1))
    (rest : List UInt8) : varintWithin (count + 1) (varintBytes n ++ rest) = .ok (n, rest) := by
  induction count generalizing n with
  | zero =>
    have hsmall : n < 128 := by simpa using hn
    rw [varintBytes, if_pos hsmall]
    exact varintWithin_last hsmall 0 rest
  | succ count ih =>
    rw [varintBytes]
    split
    · next hsmall => exact varintWithin_last hsmall (count + 1) rest
    · have hhigh : n / 128 < 128 ^ (count + 1) := by
        rw [Nat.div_lt_iff_lt_mul (by decide)]
        simpa [Nat.pow_succ] using hn
      rw [List.cons_append, varintWithin, UInt8.toNat_ofNat', Nat.mod_eq_of_lt (by omega),
        if_neg (by omega), ih hhigh]
      dsimp only
      congr 2
      omega

/-- A number of 64 bits is read from its bytes, whatever follows them. -/
theorem varint_varintBytes {n : Nat} (hn : n < 2 ^ 64) (rest : List UInt8) :
    varint (varintBytes n ++ rest) = .ok (n, rest) := by
  have hread := varintWithin_varintBytes (show n < 128 ^ (9 + 1) by omega) rest
  rw [varint, hread]
  dsimp only
  rw [Nat.mod_eq_of_lt (show n < UInt64.size from hn)]

/-- A signed number of 32 bits as it is written, with its sign carried on to 64 bits. -/
def word (value : BitVec 32) : Nat := (value.signExtend 64).toNat

/-- A word has at most 64 bits. -/
theorem word_lt (value : BitVec 32) : word value < 2 ^ 64 := (value.signExtend 64).isLt

/-- The lower half of a word is the signed number without its sign. -/
theorem word_mod (value : BitVec 32) : word value % 2 ^ 32 = value.toNat := by
  have hlt := value.isLt
  rw [word, BitVec.toNat_signExtend, BitVec.toNat_setWidth]
  split <;> omega

/-- Reading a signed number takes the lower 32 bits. -/
theorem int32_eq (n : Nat) : int32 n = Int.bmod n 4294967296 := rfl

/-- A signed number comes back with its sign. -/
theorem int32_word (value : BitVec 32) : int32 (word value) = value.toInt := by
  have hmod := word_mod value
  rw [int32_eq, BitVec.toInt_eq_toNat_bmod, Int.bmod, Int.bmod]
  omega

/-- A small number is read as it is. -/
theorem int32_of_lt {n : Nat} (hn : n < 2 ^ 31) : int32 n = n := by
  rw [int32_eq, Int.bmod]
  omega

/-- Bytes with their length in front. -/
def delimitedBytes (body : List UInt8) : List UInt8 := varintBytes body.length ++ body

/-- Bytes behind their length are read back, and the rest is left. -/
theorem delimited_delimitedBytes {body : List UInt8} (hbody : body.length < 2 ^ 64)
    (rest : List UInt8) : delimited (delimitedBytes body ++ rest) = .ok (body, rest) := by
  rw [delimitedBytes, List.append_assoc, delimited, varint_varintBytes hbody]
  simp

/-- Every number has a byte. -/
theorem varintBytes_ne_nil (n : Nat) : varintBytes n ≠ [] := by
  rw [varintBytes]
  split <;> simp

/-- Numbers one after the other are read to their end. -/
theorem packed_varintBytes {values : List Nat} (hvalues : ∀ value ∈ values, value < 2 ^ 64) :
    packed (values.flatMap varintBytes) = .ok (values.map int32) := by
  induction values with
  | nil => simp [packed]
  | cons value rest ih =>
    have hread := varint_varintBytes (hvalues value List.mem_cons_self) (rest.flatMap varintBytes)
    rw [List.flatMap_cons]
    cases hbytes : varintBytes value ++ rest.flatMap varintBytes with
    | nil => simp [varintBytes_ne_nil] at hbytes
    | cons byte tail =>
      rw [hbytes] at hread
      rw [packed]
      split
      · next herror => simp [hread] at herror
      · next read others hok =>
        obtain ⟨rfl, rfl⟩ := Prod.mk.inj (Except.ok.inj (hread.symm.trans hok))
        rw [ih fun other hother => hvalues other (List.mem_cons_of_mem value hother)]
        rfl

/-- The contents of a field as they are written. -/
inductive Content where
  /-- A variable-length number. -/
  | varint (value : Nat)
  /-- Bytes with their length in front. -/
  | bytes (value : List UInt8)
  /-- A value of four bytes. -/
  | fixed32 (value : List UInt8)
  /-- A value of eight bytes. -/
  | fixed64 (value : List UInt8)

namespace Content

/-- The code of the form. -/
def code : Content → Nat
  | varint _ => 0
  | fixed64 _ => 1
  | bytes _ => 2
  | fixed32 _ => 5

/-- The bytes of the contents. -/
def toBytes : Content → List UInt8
  | varint value => varintBytes value
  | bytes value => delimitedBytes value
  | fixed32 value => value
  | fixed64 value => value

/-- Numbers have at most 64 bits, and values of fixed width are as wide. -/
def Fits : Content → Prop
  | varint value => value < 2 ^ 64
  | bytes _ => True
  | fixed32 value => value.length = 4
  | fixed64 value => value.length = 8

/-- What the contents are read as. -/
def value : Content → FieldValue
  | varint value => .varint value
  | bytes value => .bytes value
  | fixed32 _ => .fixed
  | fixed64 _ => .fixed

end Content

/-- A field as it is written. -/
structure Item where
  /-- Number of the field. -/
  number : Nat
  /-- Contents of the field. -/
  content : Content

namespace Item

/-- The bytes of a field. -/
def bytes (i : Item) : List UInt8 :=
  varintBytes (8 * i.number + i.content.code) ++ i.content.toBytes

/-- The number of a field has 32 bits and is not zero, and its contents fit. -/
structure Fits (i : Item) : Prop where
  /-- The number is not zero. -/
  pos : 0 < i.number
  /-- The number has 32 bits. -/
  lt : i.number < 2 ^ 32
  /-- The contents fit. -/
  content : i.content.Fits

/-- What a field is read as. -/
def field (i : Item) : Field := ⟨i.number, i.content.value⟩

end Item

/-- The code of a form has three bits. -/
theorem Content.code_lt (c : Content) : c.code < 8 := by
  cases c <;> simp [Content.code]

/-- The form of the contents, whose code stands in front. -/
def Content.form : Content → Form
  | varint _ => .varint
  | bytes _ => .bytes
  | fixed32 _ => .fixed 4
  | fixed64 _ => .fixed 8

/-- The form of contents is known by its code. -/
theorem Content.ofCode_code (c : Content) : Form.ofCode c.code = .ok c.form := by
  cases c <;> rfl

/-- The contents of a field are read back by their form. -/
theorem Content.valueOf_toBytes {c : Content} (hfits : c.Fits)
    (hlength : c.toBytes.length < 2 ^ 64) (rest : List UInt8) :
    valueOf c.form (c.toBytes ++ rest) = .ok (c.value, rest) := by
  cases c with
  | varint value =>
    rw [form, toBytes, valueOf, varint_varintBytes hfits]
    rfl
  | bytes value =>
    have hbody : value.length < 2 ^ 64 := by
      rw [toBytes, delimitedBytes, List.length_append] at hlength
      omega
    rw [form, toBytes, valueOf, delimited_delimitedBytes hbody]
    rfl
  | fixed32 value =>
    have hwidth : value.length = 4 := hfits
    simp [form, toBytes, valueOf, ← hwidth, Content.value]
  | fixed64 value =>
    have hwidth : value.length = 8 := hfits
    simp [form, toBytes, valueOf, ← hwidth, Content.value]

namespace Item

/-- The key of a field gives its number and its form. -/
theorem key_bytes {i : Item} (hfits : i.Fits) (rest : List UInt8) :
    key (varintBytes (8 * i.number + i.content.code) ++ rest)
      = .ok ((i.number, i.content.form), rest) := by
  have hpos := hfits.pos
  have hlt := hfits.lt
  have hcode := i.content.code_lt
  have hnumber : (8 * i.number + i.content.code) / 8 = i.number := by omega
  have hform : (8 * i.number + i.content.code) % 8 = i.content.code := by omega
  rw [key, varint_varintBytes (by omega)]
  dsimp only
  rw [hnumber, hform, if_neg (by simp only [UInt32.size]; omega), if_neg (by omega),
    i.content.ofCode_code]

/-- A field is read from its bytes, whatever follows them. -/
theorem fieldBy_bytes {i : Item} (hfits : i.Fits) (hlength : i.bytes.length < 2 ^ 64)
    (rest : List UInt8) : fieldBy asWritten (i.bytes ++ rest) = .ok (i.field, rest) := by
  have hcontent : i.content.toBytes.length < 2 ^ 64 := by
    rw [bytes, List.length_append] at hlength
    omega
  rw [bytes, List.append_assoc, fieldBy, key_bytes hfits]
  dsimp only [asWritten]
  rw [Content.valueOf_toBytes hfits.content hcontent]
  rfl

end Item

/-- The bytes of a message. -/
def messageBytes (items : List Item) : List UInt8 := items.flatMap Item.bytes

/-- The bytes of a message spell the fields that were written. -/
theorem spells_messageBytes {items : List Item} (hfits : ∀ i ∈ items, i.Fits)
    (hlength : (messageBytes items).length < 2 ^ 64) :
    Spells asWritten (messageBytes items) (items.map Item.field) := by
  induction items with
  | nil => exact .nil
  | cons i rest ih =>
    have hsplit : messageBytes (i :: rest) = i.bytes ++ messageBytes rest := List.flatMap_cons
    rw [hsplit, List.length_append] at hlength
    have hread := i.fieldBy_bytes (hfits i List.mem_cons_self) (by omega) (messageBytes rest)
    have hrest := ih (fun other hother => hfits other (List.mem_cons_of_mem i hother)) (by omega)
    rw [hsplit]
    exact .cons hread hrest

/-- The fields of a message go into a state as they were written. -/
theorem foldFields_messageBytes {σ : Type} (step : σ → Field → Except Malformed σ)
    {items : List Item} (hfits : ∀ i ∈ items, i.Fits)
    (hlength : (messageBytes items).length < 2 ^ 64) (state : σ) :
    foldFields asWritten step state (messageBytes items)
      = (items.map Item.field).foldlM step state :=
  (spells_messageBytes hfits hlength).foldFields_eq state

/-- The message of the fields that were written. -/
def Message.ofItems (kind : String) (items : List Item) : Message :=
  ⟨kind, items.map Item.field⟩

/-- Fields that are put in front one by one come in reverse order. -/
theorem foldlM_cons_ok (fields found : List Field) :
    fields.foldlM (fun fields field => Except.ok (ε := Malformed) (field :: fields)) found
      = .ok (fields.reverse ++ found) := by
  induction fields generalizing found with
  | nil => rfl
  | cons field rest ih =>
    rw [List.foldlM_cons, List.reverse_cons, List.append_assoc]
    exact ih (field :: found)

/-- Every message is read from its bytes. -/
theorem Message.ofBytes_messageBytes (kind : String) {items : List Item}
    (hfits : ∀ i ∈ items, i.Fits) (hlength : (messageBytes items).length < 2 ^ 64) :
    Message.ofBytes kind (messageBytes items) = .ok (Message.ofItems kind items) := by
  rw [Message.ofBytes, foldFields_messageBytes _ hfits hlength, foldlM_cons_ok]
  simp [Message.ofItems]

/-- Numbers written for a field. -/
def numberItems (number : Nat) (values : List Nat) : List Item :=
  values.map fun value => ⟨number, .varint value⟩

/-- Messages written for a field. -/
def messageItems (number : Nat) (bodies : List (List UInt8)) : List Item :=
  bodies.map fun body => ⟨number, .bytes body⟩

/-- The numbers that are found for a field. -/
def numbersOf (number : Nat) (items : List Item) : List Int :=
  (items.map Item.field).filterMap (Message.numberIn? number)

/-- The messages that are found for a field. -/
def bodiesOf (number : Nat) (items : List Item) : List (List UInt8) :=
  (items.map Item.field).filterMap (Message.bytesIn? number)

/-- The numbers that are found for a field with lists of them. -/
def intsOf (number : Nat) (items : List Item) : Except Malformed (List Int) :=
  List.flatten <$> (items.map Item.field).mapM (Message.intsIn number)

namespace Message

/-- Of several numbers for a field the last one counts. -/
theorem int?_ofItems (kind : String) (items : List Item) (number : Nat) :
    (ofItems kind items).int? number = (numbersOf number items).getLast? := rfl

/-- The messages for a field are those that were written for it. -/
theorem messages_ofItems (kind : String) (items : List Item) (number : Nat) :
    (ofItems kind items).messages number = bodiesOf number items := rfl

/-- Of several messages for a field the last one counts. -/
theorem message?_ofItems (kind : String) (items : List Item) (number : Nat) :
    (ofItems kind items).message? number = (bodiesOf number items).getLast? := rfl

/-- The numbers of a list are those that were written for it. -/
theorem ints_ofItems (kind : String) (items : List Item) (number : Nat) :
    (ofItems kind items).ints number = intsOf number items := rfl

end Message

variable {number other : Nat} {one two : List Item}

/-- The numbers for a field come from all parts of a message, in order. -/
@[simp]
theorem numbersOf_append : numbersOf number (one ++ two)
    = numbersOf number one ++ numbersOf number two := by
  simp [numbersOf]

/-- The messages for a field come from all parts of a message, in order. -/
@[simp]
theorem bodiesOf_append : bodiesOf number (one ++ two)
    = bodiesOf number one ++ bodiesOf number two := by
  simp [bodiesOf]

/-- Numbers are found under their own field only. -/
@[simp]
theorem numbersOf_numberItems (values : List Nat) : numbersOf number (numberItems other values)
    = if other = number then values.map int32 else [] := by
  split
  · next h =>
    subst h
    simp [numbersOf, numberItems, Item.field, Content.value, Message.numberIn?,
      List.filterMap_map, Function.comp_def]
  · next h =>
    simp [numbersOf, numberItems, Item.field, Content.value, Message.numberIn?, h]

/-- Messages are not found as numbers. -/
@[simp]
theorem numbersOf_messageItems (bodies : List (List UInt8)) :
    numbersOf number (messageItems other bodies) = [] := by
  simp [numbersOf, messageItems, Item.field, Content.value, Message.numberIn?]

/-- Numbers are not found as messages. -/
@[simp]
theorem bodiesOf_numberItems (values : List Nat) :
    bodiesOf number (numberItems other values) = [] := by
  simp [bodiesOf, numberItems, Item.field, Content.value, Message.bytesIn?]

/-- Messages are found under their own field only. -/
@[simp]
theorem bodiesOf_messageItems (bodies : List (List UInt8)) :
    bodiesOf number (messageItems other bodies) = if other = number then bodies else [] := by
  split
  · next h =>
    subst h
    simp [bodiesOf, messageItems, Item.field, Content.value, Message.bytesIn?,
      List.filterMap_map, Function.comp_def]
  · next h =>
    simp [bodiesOf, messageItems, Item.field, Content.value, Message.bytesIn?, h]

/-- The numbers of a list come from all parts of a message, in order. -/
theorem intsOf_append {first second : List Int} (hone : intsOf number one = .ok first)
    (htwo : intsOf number two = .ok second) :
    intsOf number (one ++ two) = .ok (first ++ second) := by
  obtain ⟨firsts, hfirsts, rfl⟩ := Except.map_eq_ok hone
  obtain ⟨seconds, hseconds, rfl⟩ := Except.map_eq_ok htwo
  rw [intsOf, List.map_append, ← List.flatten_append]
  exact Except.map_ok List.flatten (Except.mapM_append_ok hfirsts hseconds)

/-- Fields with other numbers hold no numbers of a list. -/
theorem intsOf_of_ne {items : List Item} (h : ∀ i ∈ items, i.number ≠ number) :
    intsOf number items = .ok [] := by
  induction items with
  | nil => rfl
  | cons i rest ih =>
    have hfirst : intsOf number [i] = .ok [] := by
      simp [intsOf, Message.intsIn, Item.field, h i List.mem_cons_self]
    exact intsOf_append hfirst (ih fun other hother => h other (List.mem_cons_of_mem i hother))

/-- Numbers that are written one by one are found. -/
theorem intsOf_numberItems (values : List Nat) :
    intsOf number (numberItems number values) = .ok (values.map int32) := by
  induction values with
  | nil => rfl
  | cons value rest ih =>
    have hfirst : intsOf number (numberItems number [value]) = .ok [int32 value] := by
      simp [intsOf, numberItems, Message.intsIn, Item.field, Content.value]
    exact intsOf_append hfirst ih

/-- A list of numbers that is written as one field is found. -/
theorem intsOf_packed {values : List Nat} (hvalues : ∀ value ∈ values, value < 2 ^ 64) :
    intsOf number (messageItems number [values.flatMap varintBytes])
      = .ok (values.map int32) := by
  simp [intsOf, messageItems, Message.intsIn, Item.field, Content.value,
    packed_varintBytes hvalues]

/-- The fields for numbers can be written. -/
theorem fits_numberItems (hpos : 0 < number) (hlt : number < 2 ^ 32) {values : List Nat}
    (hvalues : ∀ value ∈ values, value < 2 ^ 64) : ∀ i ∈ numberItems number values, i.Fits := by
  intro i hi
  obtain ⟨value, hvalue, rfl⟩ := List.mem_map.mp hi
  exact ⟨hpos, hlt, hvalues value hvalue⟩

/-- The fields for messages can be written. -/
theorem fits_messageItems (hpos : 0 < number) (hlt : number < 2 ^ 32)
    (bodies : List (List UInt8)) : ∀ i ∈ messageItems number bodies, i.Fits := by
  intro i hi
  obtain ⟨body, hbody, rfl⟩ := List.mem_map.mp hi
  exact ⟨hpos, hlt, trivial⟩

/-- The fields for numbers have no other number. -/
theorem numberItems_ne (h : other ≠ number) (values : List Nat) :
    ∀ i ∈ numberItems other values, i.number ≠ number := by
  intro i hi
  obtain ⟨value, -, rfl⟩ := List.mem_map.mp hi
  exact h

/-- The fields for messages have no other number. -/
theorem messageItems_ne (h : other ≠ number) (bodies : List (List UInt8)) :
    ∀ i ∈ messageItems other bodies, i.number ≠ number := by
  intro i hi
  obtain ⟨body, -, rfl⟩ := List.mem_map.mp hi
  exact h

/-- A message inside another is no longer than it. -/
theorem length_le_messageBytes {items : List Item} {body : List UInt8}
    (hbody : body ∈ bodiesOf number items) : body.length ≤ (messageBytes items).length := by
  obtain ⟨field, hfield, hfound⟩ := List.mem_filterMap.mp hbody
  obtain ⟨⟨number', content⟩, hi, rfl⟩ := List.mem_map.mp hfield
  have hitem := Lists.length_le_flatMap Item.bytes hi
  rw [Item.bytes, List.length_append] at hitem
  cases content with
  | bytes value =>
    have heq : value = body := by
      have hvalue : (if number' = number then some value else none) = some body := hfound
      split at hvalue
      · exact Option.some.inj hvalue
      · simp at hvalue
    subst heq
    simp only [Content.toBytes, delimitedBytes, List.length_append] at hitem
    rw [messageBytes]
    omega
  | varint value => simp [Item.field, Content.value, Message.bytesIn?] at hfound
  | fixed32 value => simp [Item.field, Content.value, Message.bytesIn?] at hfound
  | fixed64 value => simp [Item.field, Content.value, Message.bytesIn?] at hfound

end LineAtlas.Metadata.Wire
