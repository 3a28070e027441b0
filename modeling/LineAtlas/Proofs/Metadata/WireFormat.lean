import LineAtlas.Proofs.Metadata.Writing

/-!
# The wire format, written and read

Numbers are written in as few bytes as there can be, and fields one after the other. What was
written is read back, and what follows it is left. A message that is cut off inside a field is
refused as one that ends too early. Every field takes two bytes at least, so that reading ends on
any bytes, with fields that fill them or with a fault.
-/

namespace LineAtlas

/-- A cut of two lists in a row is inside the first one, or behind it. -/
theorem Lists.cut_append {α : Type} {one two cut more : List α} (h : one ++ two = cut ++ more) :
    (∃ left, left ≠ [] ∧ one = cut ++ left) ∨ ∃ part, cut = one ++ part ∧ two = part ++ more := by
  rcases List.append_eq_append_iff.mp h with ⟨part, hcut, htwo⟩ | ⟨left, hone, hmore⟩
  · exact Or.inr ⟨part, hcut, htwo⟩
  · by_cases hleft : left = []
    · subst hleft
      exact Or.inr ⟨[], by rw [hone, List.append_nil, List.append_nil], hmore.symm⟩
    · exact Or.inl ⟨left, hleft, hone⟩

namespace Metadata

/-- Whether bytes are refused because they end too early. -/
def WireFault.IsEarlyEnd (fault : WireFault) : Prop :=
  fault = .truncatedVarint ∨ fault = .truncatedBytes ∨ fault = .truncatedFixed

/-- Whether what goes wrong is that the bytes are not in the wire format. -/
def Malformed.IsWire (cause : Malformed) : Prop := ∃ fault, cause = .wire fault

namespace Wire

section Numbers

variable {bytes rest cut more : List UInt8} {n count : Nat}

/-- A number is read from bytes that have seven of its bits each. -/
theorem exists_taken_of_varintWithin (h : varintWithin count bytes = .ok (n, rest)) :
    ∃ width, n < 128 ^ (width + 1) ∧ width + 1 + rest.length = bytes.length := by
  induction count generalizing n bytes with
  | zero => simp [varintWithin] at h
  | succ count ih =>
    cases bytes with
    | nil => simp [varintWithin] at h
    | cons byte tail =>
      rw [varintWithin] at h
      split at h
      · next hlast =>
        obtain ⟨rfl, rfl⟩ := Prod.mk.inj (Except.ok.inj h)
        refine ⟨0, by omega, ?_⟩
        rw [List.length_cons]
        omega
      · split at h
        · next high after hhigh =>
          obtain ⟨rfl, rfl⟩ := Prod.mk.inj (Except.ok.inj h)
          obtain ⟨width, hlt, hlength⟩ := ih hhigh
          have hbyte := byte.toNat_lt
          refine ⟨width + 1, ?_, ?_⟩
          · rw [Nat.pow_succ]
            omega
          · rw [List.length_cons]
            omega
        · simp at h

/-- A number that fits some groups of seven bits is written in as many bytes. -/
theorem length_varintBytes_le {width : Nat} (hn : n < 128 ^ (width + 1)) :
    (varintBytes n).length ≤ width + 1 := by
  induction width generalizing n with
  | zero =>
    rw [varintBytes, if_pos (by omega)]
    exact Nat.le_refl 1
  | succ width ih =>
    rw [varintBytes]
    split
    · rw [List.length_singleton]
      omega
    · have hhigh : n / 128 < 128 ^ (width + 1) := by
        rw [Nat.div_lt_iff_lt_mul (by decide), ← Nat.pow_succ]
        exact hn
      have hrest := ih hhigh
      rw [List.length_cons]
      omega

/-- No bytes that are read as a number are fewer than those in which it is written. -/
theorem length_varintBytes_add_le (h : varint bytes = .ok (n, rest)) :
    (varintBytes n).length + rest.length ≤ bytes.length := by
  rw [varint] at h
  split at h
  · next value after hread =>
    obtain ⟨rfl, rfl⟩ := Prod.mk.inj (Except.ok.inj h)
    obtain ⟨width, hlt, hlength⟩ := exists_taken_of_varintWithin hread
    have hle := length_varintBytes_le (Nat.lt_of_le_of_lt (Nat.mod_le value UInt64.size) hlt)
    omega
  · simp at h

/-- All bytes of a number but the last one are marked, so that a part of them is no number. -/
theorem varintWithin_of_cut (hn : n < 128 ^ (count + 1)) (h : varintBytes n = cut ++ more)
    (hmore : more ≠ []) : varintWithin (count + 1) cut = .error (.wire .truncatedVarint) := by
  induction count generalizing n cut with
  | zero =>
    rw [varintBytes, if_pos (by omega)] at h
    cases cut with
    | nil => rfl
    | cons byte cut => simp_all
  | succ count ih =>
    cases cut with
    | nil => rfl
    | cons byte cut =>
      rw [varintBytes] at h
      split at h
      · simp_all
      · obtain ⟨rfl, hrest⟩ := List.cons.inj h
        have hhigh : n / 128 < 128 ^ (count + 1) := by
          rw [Nat.div_lt_iff_lt_mul (by decide), ← Nat.pow_succ]
          exact hn
        have hmarked : (UInt8.ofNat (128 + n % 128)).toNat = 128 + n % 128 := by
          rw [UInt8.toNat_ofNat', Nat.mod_eq_of_lt (by omega)]
        rw [varintWithin, hmarked, if_neg (by omega), ih hhigh hrest]

/-- A strict cut of a varint ends too early. -/
theorem varint_of_cut (hn : n < 2 ^ 64) (h : varintBytes n = cut ++ more) (hmore : more ≠ []) :
    varint cut = .error (.wire .truncatedVarint) := by
  rw [varint, varintWithin_of_cut (show n < 128 ^ (9 + 1) by omega) h hmore]

end Numbers

section Cuts

variable {cut more : List UInt8}

/-- Bytes with their length in front are refused when they are cut off anywhere. -/
theorem delimited_of_cut {body : List UInt8} (hbody : body.length < 2 ^ 64)
    (h : delimitedBytes body = cut ++ more) (hmore : more ≠ []) :
    ∃ fault : WireFault, fault.IsEarlyEnd ∧ delimited cut = .error (.wire fault) := by
  rcases Lists.cut_append h with ⟨left, hleft, hlength⟩ | ⟨part, rfl, rfl⟩
  · refine ⟨.truncatedVarint, Or.inl rfl, ?_⟩
    rw [delimited, varint_of_cut hbody hlength hleft]
  · have hpos := List.length_pos_iff.mpr hmore
    have hshort : (part.take (part ++ more).length).length ≠ (part ++ more).length := by
      rw [List.length_take, List.length_append]
      omega
    refine ⟨.truncatedBytes, Or.inr (Or.inl rfl), ?_⟩
    rw [delimited, varint_varintBytes hbody]
    dsimp only
    rw [if_neg hshort]

/-- So are the contents of a field. -/
theorem Content.valueOf_of_cut {c : Content} (hfits : c.Fits) (hlength : c.toBytes.length < 2 ^ 64)
    (h : c.toBytes = cut ++ more) (hmore : more ≠ []) :
    ∃ fault : WireFault, fault.IsEarlyEnd ∧ valueOf c.form cut = .error (.wire fault) := by
  have hpos := List.length_pos_iff.mpr hmore
  have hcut : c.toBytes.length = cut.length + more.length := by rw [h, List.length_append]
  have hfixed (width : Nat) (hwidth : c.toBytes.length = width) :
      valueOf (.fixed width) cut = .error (.wire .truncatedFixed) := by
    rw [valueOf, if_neg]
    rw [List.length_take]
    omega
  cases c with
  | varint value =>
    refine ⟨.truncatedVarint, Or.inl rfl, ?_⟩
    rw [form, valueOf, varint_of_cut hfits h hmore]
  | bytes value =>
    have hbody : value.length < 2 ^ 64 := by
      rw [toBytes, delimitedBytes, List.length_append] at hlength
      omega
    obtain ⟨fault, hearly, hread⟩ := delimited_of_cut hbody h hmore
    refine ⟨fault, hearly, ?_⟩
    rw [form, valueOf, hread]
  | fixed32 value => exact ⟨.truncatedFixed, Or.inr (Or.inr rfl), hfixed 4 hfits⟩
  | fixed64 value => exact ⟨.truncatedFixed, Or.inr (Or.inr rfl), hfixed 8 hfits⟩

/-- So is a field as a whole. -/
theorem Item.fieldBy_of_cut {i : Item} (hfits : i.Fits) (hlength : i.bytes.length < 2 ^ 64)
    (h : i.bytes = cut ++ more) (hmore : more ≠ []) :
    ∃ fault : WireFault, fault.IsEarlyEnd ∧ fieldBy asWritten cut = .error (.wire fault) := by
  rcases Lists.cut_append h with ⟨left, hleft, hkey⟩ | ⟨part, rfl, hcontent⟩
  · have hcode := i.content.code_lt
    have hlt := hfits.lt
    refine ⟨.truncatedVarint, Or.inl rfl, ?_⟩
    rw [fieldBy, key, varint_of_cut (by omega) hkey hleft]
  · have hshort : i.content.toBytes.length < 2 ^ 64 := by
      rw [Item.bytes, List.length_append] at hlength
      omega
    obtain ⟨fault, hearly, hread⟩ := Content.valueOf_of_cut hfits.content hshort hcontent hmore
    refine ⟨fault, hearly, ?_⟩
    rw [fieldBy, key_bytes hfits]
    dsimp only [asWritten]
    rw [hread]

/-- The fields of a message up to a cut are those in front of it, unless the cut is inside a
field. -/
theorem fieldsIn_of_cut {items : List Item} (hfits : ∀ i ∈ items, i.Fits)
    (hlength : (messageBytes items).length < 2 ^ 64) (h : messageBytes items = cut ++ more) :
    (∃ before after, items = before ++ after ∧ cut = messageBytes before) ∨
      ∃ fault : WireFault, fault.IsEarlyEnd ∧ fieldsIn cut = .error (.wire fault) := by
  induction items generalizing cut with
  | nil =>
    have hcut : cut = [] := (List.append_eq_nil_iff.mp h.symm).1
    exact Or.inl ⟨[], [], rfl, hcut⟩
  | cons i rest ih =>
    have hsplit : messageBytes (i :: rest) = i.bytes ++ messageBytes rest := List.flatMap_cons
    rw [hsplit, List.length_append] at hlength
    rw [hsplit] at h
    have hfirst := hfits i List.mem_cons_self
    rcases Lists.cut_append h with ⟨left, hleft, hinside⟩ | ⟨part, rfl, hbehind⟩
    · cases cut with
      | nil => exact Or.inl ⟨[], i :: rest, rfl, rfl⟩
      | cons byte tail =>
        obtain ⟨fault, hearly, hread⟩ := Item.fieldBy_of_cut hfirst (by omega) hinside hleft
        refine Or.inr ⟨fault, hearly, ?_⟩
        rw [fieldsIn, gather_of_error hread]
        rfl
    · have hread := i.fieldBy_bytes hfirst (by omega) part
      have hothers : ∀ other ∈ rest, other.Fits := fun other hother =>
        hfits other (List.mem_cons_of_mem i hother)
      rcases ih hothers (by omega) hbehind with ⟨before, after, rfl, rfl⟩ | ⟨fault, hearly, hrest⟩
      · exact Or.inl ⟨i :: before, after, rfl, List.flatMap_cons.symm⟩
      · refine Or.inr ⟨fault, hearly, ?_⟩
        rw [fieldsIn_of_fieldBy hread, hrest]
        rfl

end Cuts

section Faults

variable {bytes : List UInt8} {cause : Malformed}

/-- A varint is refused only for a fault of the wire format. -/
theorem varint_isWire (h : varint bytes = .error cause) : cause.IsWire := by
  have hwithin (count : Nat) (bytes : List UInt8) :
      ∀ cause, varintWithin count bytes = .error cause → cause.IsWire := by
    induction count generalizing bytes with
    | zero =>
      intro cause h
      exact ⟨.longVarint, (Except.error.inj h).symm⟩
    | succ count ih =>
      intro cause h
      cases bytes with
      | nil => exact ⟨.truncatedVarint, (Except.error.inj h).symm⟩
      | cons byte tail =>
        rw [varintWithin] at h
        split at h
        · simp at h
        · split at h
          · simp at h
          · next hrest =>
            obtain rfl := Except.error.inj h
            exact ih tail _ hrest
  rw [varint] at h
  split at h
  · simp at h
  · next hread =>
    obtain rfl := Except.error.inj h
    exact hwithin 10 bytes _ hread

/-- A key is refused only for a fault of the wire format. -/
theorem key_isWire (h : key bytes = .error cause) : cause.IsWire := by
  rw [key] at h
  split at h
  · next hcode =>
    obtain rfl := Except.error.inj h
    exact varint_isWire hcode
  · split at h
    · exact ⟨.fieldOutOfRange, (Except.error.inj h).symm⟩
    · split at h
      · exact ⟨.fieldZero, (Except.error.inj h).symm⟩
      · split at h
        · simp at h
        · next hform =>
          obtain rfl := Except.error.inj h
          unfold Form.ofCode at hform
          split at hform
          case h_5 => exact ⟨_, (Except.error.inj hform).symm⟩
          all_goals simp at hform

/-- A value is refused only for a fault of the wire format. -/
theorem valueOf_isWire {form : Form} (h : valueOf form bytes = .error cause) : cause.IsWire := by
  cases form with
  | varint =>
    rw [valueOf] at h
    split at h
    · simp at h
    · next hread =>
      obtain rfl := Except.error.inj h
      exact varint_isWire hread
  | bytes =>
    rw [valueOf, delimited] at h
    split at h
    · simp at h
    · next hread =>
      obtain rfl := Except.error.inj h
      split at hread
      · dsimp only at hread
        split at hread
        · simp at hread
        · exact ⟨.truncatedBytes, (Except.error.inj hread).symm⟩
      · next hlength =>
        obtain rfl := Except.error.inj hread
        exact varint_isWire hlength
  | fixed width =>
    rw [valueOf] at h
    split at h
    · simp at h
    · exact ⟨.truncatedFixed, (Except.error.inj h).symm⟩

/-- Only the wire format keeps a field from being read. -/
theorem fieldBy_isWire (h : fieldBy asWritten bytes = .error cause) : cause.IsWire := by
  rw [fieldBy] at h
  split at h
  · next hkey =>
    obtain rfl := Except.error.inj h
    exact key_isWire hkey
  · dsimp only [asWritten] at h
    split at h
    · simp at h
    · next hvalue =>
      obtain rfl := Except.error.inj h
      exact valueOf_isWire hvalue

end Faults

section Passes

variable {bytes rest : List UInt8} {field : Field} {fields : List Field}

/-- Delimited bytes take at least their length off the front. -/
theorem delimited_length {body : List UInt8} (h : delimited bytes = .ok (body, rest)) :
    rest.length < bytes.length := by
  rw [delimited] at h
  split at h
  · next hlength =>
    have hshorter := varint_length hlength
    dsimp only at h
    split at h
    · rw [← (Prod.mk.inj (Except.ok.inj h)).2, List.length_drop]
      omega
    · simp at h
  · simp at h

/-- The key of a field takes a byte, and its contents are not empty. -/
theorem key_length {number : Nat} {form : Form} (h : key bytes = .ok ((number, form), rest)) :
    rest.length < bytes.length ∧ ∀ width, form = .fixed width → 0 < width := by
  rw [key] at h
  split at h
  · simp at h
  · next code after hcode =>
    have hshorter := varint_length hcode
    split at h
    · simp at h
    · split at h
      · simp at h
      · split at h
        · next form' hform =>
          obtain ⟨hfound, rfl⟩ := Prod.mk.inj (Except.ok.inj h)
          obtain ⟨-, rfl⟩ := Prod.mk.inj hfound
          refine ⟨hshorter, ?_⟩
          rintro width rfl
          unfold Form.ofCode at hform
          split at hform <;> simp_all <;> omega
        · simp at h

/-- The contents of a field take a byte, too, unless they are of no width. -/
theorem valueOf_length_lt {form : Form} {value : FieldValue}
    (hwidth : ∀ width, form = .fixed width → 0 < width)
    (h : valueOf form bytes = .ok (value, rest)) : rest.length < bytes.length := by
  cases form with
  | varint =>
    rw [valueOf] at h
    split at h
    · next hread =>
      rw [← (Prod.mk.inj (Except.ok.inj h)).2]
      exact varint_length hread
    · simp at h
  | bytes =>
    rw [valueOf] at h
    split at h
    · next hread =>
      rw [← (Prod.mk.inj (Except.ok.inj h)).2]
      exact delimited_length hread
    · simp at h
  | fixed width =>
    have hpos := hwidth width rfl
    rw [valueOf] at h
    split at h
    · next htaken =>
      rw [List.length_take] at htaken
      rw [← (Prod.mk.inj (Except.ok.inj h)).2, List.length_drop]
      omega
    · simp at h

/-- Reading a field consumes two bytes at least: one of its key, and one of its contents. -/
theorem fieldBy_asWritten_length (h : fieldBy asWritten bytes = .ok (field, rest)) :
    2 + rest.length ≤ bytes.length := by
  rw [fieldBy] at h
  split at h
  · simp at h
  · next number form after hkey =>
    obtain ⟨hshorter, hwidth⟩ := key_length hkey
    dsimp only [asWritten] at h
    split at h
    · next value behind hvalue =>
      obtain ⟨-, rfl⟩ := Prod.mk.inj (Except.ok.inj h)
      have hcontents := valueOf_length_lt hwidth hvalue
      omega
    · simp at h

/-- Fields that are read one after the other, and what they leave. -/
inductive Leaves : List UInt8 → List Field → List UInt8 → Prop
  /-- No field is read, and all bytes are left. -/
  | here {bytes : List UInt8} : Leaves bytes [] bytes
  /-- A field is read from the front, and then the others. -/
  | behind {bytes next rest : List UInt8} {field : Field} {fields : List Field}
      (hread : fieldBy asWritten bytes = .ok (field, next)) (hrest : Leaves next fields rest) :
      Leaves bytes (field :: fields) rest

/-- Each field takes two bytes at least. -/
theorem Leaves.length_le (h : Leaves bytes fields rest) :
    2 * fields.length + rest.length ≤ bytes.length := by
  induction h with
  | here => simp
  | behind hread _ ih =>
    have hshorter := fieldBy_asWritten_length hread
    rw [List.length_cons]
    omega

/-- Reading goes on until nothing is left, or something that is no field. -/
theorem exists_leaves (bytes : List UInt8) : ∃ fields rest, Leaves bytes fields rest ∧
    (rest = [] ∧ fieldsIn bytes = .ok fields ∨
      rest ≠ [] ∧ ∃ fault, fieldBy asWritten rest = .error (.wire fault) ∧
        fieldsIn bytes = .error (.wire fault)) := by
  induction bytes using fieldwise asWritten with
  | nil => exact ⟨[], [], .here, Or.inl ⟨rfl, by rw [fieldsIn, gather, foldFields_nil]; rfl⟩⟩
  | refused byte tail cause hread =>
    obtain ⟨fault, rfl⟩ := fieldBy_isWire hread
    refine ⟨[], byte :: tail, .here, Or.inr ⟨List.cons_ne_nil _ _, fault, hread, ?_⟩⟩
    rw [fieldsIn, gather_of_error hread]
    rfl
  | more bytes field next hread ih =>
    obtain ⟨fields, rest, hleaves, hend⟩ := ih
    refine ⟨field :: fields, rest, .behind hread hleaves, ?_⟩
    rw [fieldsIn_of_fieldBy hread]
    rcases hend with ⟨hnil, hfields⟩ | ⟨hne, fault, hfault, hfields⟩
    · exact Or.inl ⟨hnil, by rw [hfields]; rfl⟩
    · exact Or.inr ⟨hne, fault, hfault, by rw [hfields]; rfl⟩

end Passes

/-- The number in a field, when it is the field asked for. -/
def Item.varint? (number : Nat) (i : Item) : Option Nat :=
  match i.content with
  | .varint value => if i.number = number then some value else none
  | _ => none

/-- What a field adds to the list of numbers that is asked for: the one number in it, or those
that are packed into it. -/
inductive Item.Adds (number : Nat) : Item → List Nat → Prop
  /-- A single number adds itself. -/
  | single (value : Nat) : Adds number ⟨number, .varint value⟩ [value]
  /-- Packed numbers add all of them. -/
  | packed {values : List Nat} (h : ∀ value ∈ values, value < 2 ^ 64) :
    Adds number ⟨number, .bytes (values.flatMap varintBytes)⟩ values
  /-- A value of fixed width adds nothing. -/
  | fixed32 (value : List UInt8) : Adds number ⟨number, .fixed32 value⟩ []
  /-- A value of fixed width adds nothing. -/
  | fixed64 (value : List UInt8) : Adds number ⟨number, .fixed64 value⟩ []
  /-- Another field adds nothing. -/
  | other {i : Item} (h : i.number ≠ number) : Adds number i []

section Lookups

variable {number : Nat} {items : List Item}

/-- The numbers of a field are those of its varints, read with their sign. -/
theorem numbersOf_eq (number : Nat) (items : List Item) :
    numbersOf number items = (items.filterMap (Item.varint? number)).map int32 := by
  rw [numbersOf, List.filterMap_map, List.map_filterMap]
  refine List.filterMap_congr fun i _ => ?_
  obtain ⟨own, content⟩ := i
  cases content with
  | varint value =>
    by_cases hnumber : own = number
    · simp [Item.field, Content.value, Message.numberIn?, Item.varint?, hnumber]
    · simp [Item.field, Content.value, Message.numberIn?, Item.varint?, hnumber]
  | bytes value | fixed32 value | fixed64 value => rfl

/-- What a field adds to a list of numbers is read from it. -/
theorem Item.Adds.intsOf_eq {i : Item} {values : List Nat} (h : i.Adds number values) :
    intsOf number [i] = .ok (values.map int32) := by
  cases h with
  | single value => exact intsOf_numberItems [value]
  | packed hvalues => exact intsOf_packed hvalues
  | fixed32 value | fixed64 value =>
    simp [intsOf, Message.intsIn, Item.field, Content.value]
  | other hne =>
    apply intsOf_of_ne
    simpa using hne

/-- The lists of all fields with a number are joined in order. -/
theorem intsOf_eq {lists : List (List Nat)} (h : List.Forall₂ (Item.Adds number) items lists) :
    intsOf number items = .ok (lists.flatten.map int32) := by
  induction h with
  | nil => rfl
  | cons hfirst _ ih =>
    rw [List.flatten_cons, List.map_append]
    exact intsOf_append hfirst.intsOf_eq ih

end Lookups

/-- What becomes of a message that was written when it is read. -/
structure Message.IsReadBack (kind : String) (items : List Item) : Prop where
  /-- It has the fields that were written, in order. -/
  whole : ofBytes kind (messageBytes items) = .ok (ofItems kind items)
  /-- The last number that was written for a field counts. -/
  last : ∀ number, (ofItems kind items).int? number
    = (items.filterMap (Item.varint? number)).getLast?.map int32
  /-- Numbers that were written singly or packed are joined. -/
  joined : ∀ number lists, List.Forall₂ (Item.Adds number) items lists →
    (ofItems kind items).ints number = .ok (lists.flatten.map int32)
  /-- A part of it has the fields that are whole, or ends too early. -/
  cut : ∀ part more, messageBytes items = part ++ more →
    (∃ before after, items = before ++ after ∧ part = messageBytes before ∧
      ofBytes kind part = .ok (ofItems kind before)) ∨
      ∃ fault : WireFault, fault.IsEarlyEnd ∧ ofBytes kind part = .error (.wire fault)

/-- Every message is read back. -/
theorem Message.isReadBack (kind : String) {items : List Item} (hfits : ∀ i ∈ items, i.Fits)
    (hlength : (messageBytes items).length < 2 ^ 64) : IsReadBack kind items := by
  constructor
  · exact ofBytes_messageBytes kind hfits hlength
  · intro number
    rw [int?_ofItems, numbersOf_eq, List.getLast?_map]
  · intro number lists hlists
    rw [ints_ofItems, intsOf_eq hlists]
  · intro part more hpart
    rcases fieldsIn_of_cut hfits hlength hpart with
      ⟨before, after, rfl, rfl⟩ | ⟨fault, hearly, hread⟩
    · have hshorter : (messageBytes before).length < 2 ^ 64 := by
        rw [hpart, List.length_append] at hlength
        omega
      refine Or.inl ⟨before, after, rfl, rfl, ?_⟩
      exact ofBytes_messageBytes kind (fun i hi => hfits i (List.mem_append_left after hi)) hshorter
    · refine Or.inr ⟨fault, hearly, ?_⟩
      rw [ofBytes_eq, hread]
      rfl

/-- What was written is read back: a number of 64 bits, which takes the fewest bytes that it can
have; a signed one of 32 bits, whose sign is carried on; and a message, of which no part is taken
for another one. Reading comes to its end on any bytes, after no more fields than half of them. -/
theorem reading_invertsWriting :
    (∀ n < 2 ^ 64, ∀ rest, varint (varintBytes n ++ rest) = .ok (n, rest)) ∧
    (∀ n bytes rest, varint bytes = .ok (n, rest) →
      (varintBytes n).length + rest.length ≤ bytes.length) ∧
    (∀ (value : BitVec 32) (rest : List UInt8),
      Prod.map int32 id <$> varint (varintBytes (word value) ++ rest)
        = .ok (value.toInt, rest)) ∧
    (∀ kind items, (∀ i ∈ items, i.Fits) → (messageBytes items).length < 2 ^ 64 →
      Message.IsReadBack kind items) ∧
    ∀ kind bytes, ∃ fields rest, Leaves bytes fields rest ∧
      2 * fields.length + rest.length ≤ bytes.length ∧
      (rest = [] ∧ Message.ofBytes kind bytes = .ok ⟨kind, fields⟩ ∨
        rest ≠ [] ∧ ∃ fault, fieldBy asWritten rest = .error (.wire fault) ∧
          Message.ofBytes kind bytes = .error (.wire fault)) := by
  refine ⟨fun n hn rest => varint_varintBytes hn rest,
    fun n bytes rest h => length_varintBytes_add_le h, fun value rest => ?_,
    fun kind items hfits hlength => Message.isReadBack kind hfits hlength,
    fun kind bytes => ?_⟩
  · rw [varint_varintBytes (word_lt value), ← int32_word value]
    rfl
  · obtain ⟨fields, rest, hleaves, hend⟩ := exists_leaves bytes
    refine ⟨fields, rest, hleaves, hleaves.length_le, ?_⟩
    rw [Message.ofBytes_eq]
    rcases hend with ⟨hnil, hfields⟩ | ⟨hne, fault, hfault, hfields⟩
    · exact Or.inl ⟨hnil, by rw [hfields]; rfl⟩
    · exact Or.inr ⟨hne, fault, hfault, by rw [hfields]; rfl⟩

/-- A message with a number of two bytes, a list of numbers that is written twice, and two values
of fixed width. The field with the list has the highest number that there is. -/
def mixedItems : List Item :=
  [⟨1, .varint 300⟩, ⟨2 ^ 32 - 1, .bytes ([7, word (-1)].flatMap varintBytes)⟩,
    ⟨2, .fixed32 [1, 2, 3, 4]⟩, ⟨2 ^ 32 - 1, .varint (word (-2))⟩,
    ⟨2, .fixed64 [1, 2, 3, 4, 5, 6, 7, 8]⟩]

/-- The list in it is joined, and without its last byte the message ends too early. -/
theorem reading_invertsWriting_mixedItems :
    (∀ i ∈ mixedItems, i.Fits) ∧ (messageBytes mixedItems).length < 2 ^ 64 ∧
      varint (varintBytes 300 ++ [255]) = .ok (300, [255]) ∧
      Message.ofBytes "Mixed" (messageBytes mixedItems)
        = .ok ⟨"Mixed", mixedItems.map Item.field⟩ ∧
      (Message.ofItems "Mixed" mixedItems).int? (2 ^ 32 - 1) = some (-2) ∧
      (Message.ofItems "Mixed" mixedItems).ints (2 ^ 32 - 1) = .ok [7, -1, -2] := by
  have hsmall : (7 : Nat) < 2 ^ 64 := by decide
  have hpacked : ∀ value ∈ [7, word (-1)], value < 2 ^ 64 := by
    intro value hvalue
    rcases List.mem_pair.mp hvalue with rfl | rfl
    · exact hsmall
    · exact word_lt (-1)
  have hfits : ∀ i ∈ mixedItems, i.Fits := by
    intro i hi
    simp only [mixedItems, List.mem_cons, List.not_mem_nil, or_false] at hi
    rcases hi with rfl | rfl | rfl | rfl | rfl
    · exact ⟨by decide, by decide, show (300 : Nat) < 2 ^ 64 by decide⟩
    · exact ⟨by decide, by decide, trivial⟩
    · exact ⟨by decide, by decide, rfl⟩
    · exact ⟨by decide, by decide, word_lt (-2)⟩
    · exact ⟨by decide, by decide, rfl⟩
  have hlength : (messageBytes mixedItems).length < 2 ^ 64 := by
    simp [mixedItems, messageBytes, Item.bytes, Content.code, Content.toBytes, delimitedBytes,
      varintBytes, word]
  have hback := reading_invertsWriting.2.2.2.1 "Mixed" mixedItems hfits hlength
  have hadds : List.Forall₂ (Item.Adds (2 ^ 32 - 1)) mixedItems
      [[], [7, word (-1)], [], [word (-2)], []] := by
    refine .cons (.other (by decide)) (.cons (.packed hpacked) (.cons (.other (by decide))
      (.cons (.single _) (.cons (.other (by decide)) .nil))))
  refine ⟨hfits, hlength, reading_invertsWriting.1 300 (by decide) [255], hback.whole, ?_, ?_⟩
  · rw [hback.last]
    have hlast :
        (mixedItems.filterMap (Item.varint? (2 ^ 32 - 1))).getLast? = some (word (-2)) := by decide
    rw [hlast, Option.map_some, int32_word]
    decide
  · rw [hback.joined _ _ hadds]
    have hseven : int32 7 = 7 := int32_of_lt (by decide)
    simp [int32_word, hseven]

end Wire

end Metadata

end LineAtlas
