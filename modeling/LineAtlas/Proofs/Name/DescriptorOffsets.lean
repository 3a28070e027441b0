import Mathlib.Data.String.Basic
import LineAtlas.Proofs.Except
import LineAtlas.Proofs.Name.Descriptor

/-!
# Descriptors read by offset

A descriptor can be read where it stands: the byte at an offset tells what comes next, and types
are cut out of the text between two offsets. No cut of such a reader falls inside a character,
and it finds what is found character by character, which is what the grammar of descriptors says.
-/

namespace LineAtlas.Descriptor

open String (utf8Len)

/-- Why reading by offset ends early. -/
inductive Stop where
  /-- The text is no descriptor. -/
  | malformed
  /-- A cut would fall inside a character, behind the end of the text, or backwards. -/
  | badCut
  deriving DecidableEq, Repr

section Reader

variable (text : String)

/-- The byte at an offset, as the character with that code. -/
def codeAt? (offset : Nat) : Option Char := text.toByteArray.data[offset]?.map Char.ofUInt8

/-- The part of a text between two offsets. -/
def cut (start stop : Nat) : Except Stop String :=
  if start ≤ stop ∧ String.Pos.Raw.isValid text ⟨start⟩ ∧ String.Pos.Raw.isValid text ⟨stop⟩ then
    .ok (String.Pos.Raw.extract text ⟨start⟩ ⟨stop⟩)
  else .error .badCut

/-- There is a byte only inside of a text. -/
theorem lt_of_codeAt? {offset : Nat} {c : Char} (h : codeAt? text offset = some c) :
    offset < text.utf8ByteSize := by
  obtain ⟨byte, hbyte, -⟩ := Option.map_eq_some_iff.mp h
  exact (Array.getElem?_eq_some_iff.mp hbyte).1

/-- The offset behind all array brackets. -/
def skipBrackets (offset : Nat) : Nat :=
  if _h : codeAt? text offset = some '[' then skipBrackets (offset + 1) else offset
termination_by text.utf8ByteSize - offset
decreasing_by
  have := lt_of_codeAt? text _h
  omega

/-- The number of bytes in front of the first semicolon. -/
def bytesToSemicolon? : List Char → Option Nat
  | [] => none
  | c :: rest => if c = ';' then some 0 else (c.utf8Size + ·) <$> bytesToSemicolon? rest

/-- The offset behind a type that is no array. -/
def elementEnd (offset : Nat) : Except Stop Nat :=
  match codeAt? text offset with
  | none => .error .malformed
  | some c =>
    if (Primitive.ofLetter? c).isSome then .ok (offset + 1)
    else if c = 'L' then do
      let tail ← cut text offset text.utf8ByteSize
      match bytesToSemicolon? tail.toList with
      | none | some 1 => .error .malformed
      | some length => .ok (offset + (length + 1))
    else .error .malformed

/-- The field type at an offset, and the offset behind it. -/
def fieldAt (start : Nat) : Except Stop (String × Nat) := do
  let stop ← elementEnd text (skipBrackets text start)
  return (← cut text start stop, stop)

/-- Skipping brackets never goes back. -/
theorem le_skipBrackets (offset : Nat) : offset ≤ skipBrackets text offset := by
  fun_induction skipBrackets text offset with
  | case1 offset h ih => omega
  | case2 offset h => exact Nat.le_refl offset

/-- A type that is no array takes at least a byte. -/
theorem lt_of_elementEnd {offset stop : Nat} (h : elementEnd text offset = .ok stop) :
    offset < stop := by
  unfold elementEnd at h
  split at h
  · simp at h
  · split at h
    · obtain rfl := Except.ok.inj h
      omega
    · split at h
      · obtain ⟨tail, -, h⟩ := Except.bind_eq_ok h
        split at h
        · simp at h
        · simp at h
        · obtain rfl := Except.ok.inj h
          omega
      · simp at h

/-- A field type takes at least a byte, so that reading types ends. -/
theorem lt_of_fieldAt {start stop : Nat} {part : String}
    (h : fieldAt text start = .ok (part, stop)) : start < stop := by
  obtain ⟨found, hfound, h⟩ := Except.bind_eq_ok h
  obtain ⟨_, -, h⟩ := Except.bind_eq_ok h
  obtain ⟨-, rfl⟩ := Prod.mk.inj (Except.ok.inj h)
  exact Nat.lt_of_le_of_lt (le_skipBrackets text start) (lt_of_elementEnd text hfound)

/-- The field types from an offset up to the closing parenthesis, and the offset of that. -/
def fieldsAt (start : Nat) : Except Stop (List String × Nat) :=
  match _hcode : codeAt? text start with
  | none => .error .malformed
  | some c =>
    if c = ')' then .ok ([], start)
    else
      match _hfield : fieldAt text start with
      | .error stop => .error stop
      | .ok (part, stop) =>
        (fun (parts, stop) => (part :: parts, stop)) <$> fieldsAt stop
termination_by text.utf8ByteSize - start
decreasing_by
  have := lt_of_codeAt? text _hcode
  have := lt_of_fieldAt text _hfield
  omega

/-- The return type at an offset, which has to end the text. -/
def returnAt (start : Nat) : Except Stop String := do
  let (part, stop) ←
    if codeAt? text start = some 'V' then .ok ("V", start + 1) else fieldAt text start
  if stop < text.utf8ByteSize then .error .malformed else .ok part

/-- The written forms of the parameter types and of the return type, read by offset. -/
def readByOffset : Except Stop (List String × String) :=
  if codeAt? text 0 = some '(' then do
    let (parameters, stop) ← fieldsAt text 1
    return (parameters, ← returnAt text (stop + 1))
  else .error .malformed

end Reader

section Bytes

/-- The first byte of a character, as the character with that code. -/
def lead (c : Char) : Char := Char.ofUInt8 ((String.utf8EncodeChar c).headD 0)

/-- A byte has its number as a character. -/
theorem toNat_ofUInt8 (byte : UInt8) : (Char.ofUInt8 byte).toNat = byte.toNat := rfl

/-- A character with a code of seven bits is its first byte. -/
theorem lead_of_lt {c : Char} (hc : c.toNat < 128) : lead c = c := by
  have hbyte : lead c = Char.ofUInt8 (UInt8.ofNat c.toNat) := by
    have hval : c.val.toNat ≤ 127 := Nat.le_of_lt_succ hc
    rw [lead, String.utf8EncodeChar, if_pos hval]
    rfl
  refine Char.ext (UInt32.toNat_inj.mp ?_)
  have hcode : (lead c).toNat = c.toNat := by
    rw [hbyte, toNat_ofUInt8, UInt8.toNat_ofNat', Nat.mod_eq_of_lt (by omega)]
  exact hcode

/-- The first byte of any other character has its high bit set. -/
theorem le_toNat_lead {c : Char} (hc : 128 ≤ c.toNat) : 128 ≤ (lead c).toNat := by
  have hval : ¬ c.val.toNat ≤ 127 := Nat.not_le.mpr hc
  rw [lead, toNat_ofUInt8, String.utf8EncodeChar, if_neg hval]
  split
  · rw [List.headD_cons, UInt8.toNat_ofNat']
    omega
  · split
    · rw [List.headD_cons, UInt8.toNat_ofNat']
      omega
    · rw [List.headD_cons, UInt8.toNat_ofNat']
      omega

/-- A character with a code of seven bits is told by its first byte. -/
theorem lead_eq_iff {c d : Char} (hd : d.toNat < 128) : lead c = d ↔ c = d := by
  by_cases hc : c.toNat < 128
  · rw [lead_of_lt hc]
  · have hlead := le_toNat_lead (Nat.not_lt.mp hc)
    constructor <;> rintro rfl <;> omega

/-- Whether a character is the letter of a primitive type is told by its first byte. -/
theorem ofLetter?_lead (c : Char) : (Primitive.ofLetter? (lead c)).isSome
    = (Primitive.ofLetter? c).isSome := by
  have hnone {d : Char} (hd : 128 ≤ d.toNat) : Primitive.ofLetter? d = none := by
    cases hletter : Primitive.ofLetter? d with
    | none => rfl
    | some type =>
      rw [Primitive.eq_letter_of_ofLetter? hletter] at hd
      cases type <;> simp [Primitive.letter] at hd
  by_cases hc : c.toNat < 128
  · rw [lead_of_lt hc]
  · rw [hnone (Nat.not_lt.mp hc), hnone (le_toNat_lead (Nat.not_lt.mp hc))]

variable {text : String} {front middle rest : List Char}

/-- A text has as many bytes as its characters take. -/
theorem length_flatMap_encode (l : List Char) :
    (l.flatMap String.utf8EncodeChar).length = utf8Len l := by
  induction l with
  | nil => rfl
  | cons c l ih =>
    rw [List.flatMap_cons, List.length_append, ih, String.length_utf8EncodeChar,
      String.utf8Len_cons, Nat.add_comm]

/-- Between two characters stands the first byte of the second one. -/
theorem codeAt?_eq (h : text.toList = front ++ rest) :
    codeAt? text (utf8Len front) = rest.head?.map lead := by
  have hbytes : text.toByteArray.data.toList
      = front.flatMap String.utf8EncodeChar ++ rest.flatMap String.utf8EncodeChar := by
    rw [← String.ofList_toList (s := text), h, String.toByteArray_ofList, List.utf8Encode,
      List.toList_data_toByteArray, List.flatMap_append]
  rw [codeAt?, ← Array.getElem?_toList, hbytes,
    List.getElem?_append_right (Nat.le_of_eq (length_flatMap_encode front)),
    length_flatMap_encode, Nat.sub_self]
  cases rest with
  | nil => rfl
  | cons c rest =>
    rw [List.flatMap_cons]
    cases hc : String.utf8EncodeChar c with
    | nil =>
      have hlength := String.length_utf8EncodeChar c
      have hpos := c.utf8Size_pos
      rw [hc, List.length_nil] at hlength
      omega
    | cons byte others => simp [lead, hc]

/-- Behind the bytes of some characters, a byte of seven bits is the next character. -/
theorem codeAt?_eq_some_iff {d : Char} (hd : d.toNat < 128) (h : text.toList = front ++ rest) :
    codeAt? text (utf8Len front) = some d ↔ rest.head? = some d := by
  rw [codeAt?_eq h]
  cases rest with
  | nil => simp
  | cons c rest => simp [lead_eq_iff hd]

/-- The offset behind some characters falls on none of them. -/
theorem isValid_utf8Len (h : text.toList = front ++ rest) :
    String.Pos.Raw.isValid text ⟨utf8Len front⟩ = true := by
  rw [String.Pos.Raw.isValid_eq_true_iff, ← String.ofList_toList (s := text), h,
    String.Pos.Raw.isValid_ofList]
  exact ⟨front.length, by rw [List.take_left, String.utf8ByteSize_ofList]⟩

/-- A cut between characters succeeds. -/
theorem cut_eq (h : text.toList = front ++ (middle ++ rest)) :
    cut text (utf8Len front) (utf8Len (front ++ middle)) = .ok (String.ofList middle) := by
  have hstart := isValid_utf8Len h
  have hstop := isValid_utf8Len (h.trans (List.append_assoc front middle rest).symm)
  have hle : utf8Len front ≤ utf8Len (front ++ middle) := by
    rw [String.utf8Len_append]
    omega
  rw [cut, if_pos ⟨hle, hstart, hstop⟩, String.utf8Len_append,
    ← String.ofList_toList (s := text), h, ← List.append_assoc, String.extract_of_valid]

end Bytes

section Agreement

variable {text : String} {front rest : List Char}

/-- A character with a code of seven bits takes one byte. -/
theorem utf8Len_concat {c : Char} (hc : c.toNat < 128) (front : List Char) :
    utf8Len (front ++ [c]) = utf8Len front + 1 := by
  have hsize : c.utf8Size = 1 := Char.utf8Size_eq_one_iff.mpr (Nat.le_of_lt_succ hc)
  rw [String.utf8Len_append, String.utf8Len_cons, String.utf8Len_nil, hsize]

/-- The bytes up to the semicolon are those of the class name. -/
theorem bytesToSemicolon?_eq (l : List Char) :
    bytesToSemicolon? l = (FieldType.readName? l).map fun (name, _) => utf8Len name := by
  induction l with
  | nil => rfl
  | cons c l ih =>
    rw [bytesToSemicolon?, FieldType.readName?]
    split
    · rfl
    · rw [ih]
      cases FieldType.readName? l with
      | none => rfl
      | some found =>
        obtain ⟨name, rest⟩ := found
        simp [Nat.add_comm]

/-- The offset behind the field type that is read. -/
def endOf (front : List Char) : Option (FieldType × List Char) → Except Stop Nat
  | some (type, _) => .ok (utf8Len (front ++ type.render))
  | none => .error .malformed

/-- The type of a class ends where it does character by character. -/
theorem elementEnd_class {tail : List Char} (h : text.toList = front ++ 'L' :: tail) :
    elementEnd text (utf8Len front) = endOf front (FieldType.read? ('L' :: tail)) := by
  have hcode : codeAt? text (utf8Len front) = some 'L' :=
    (codeAt?_eq_some_iff (by decide) h).mpr rfl
  have hwhole : text.utf8ByteSize = utf8Len (front ++ 'L' :: tail) := by
    rw [← h, ← String.utf8ByteSize_ofList, String.ofList_toList]
  have hcut : cut text (utf8Len front) text.utf8ByteSize = .ok (String.ofList ('L' :: tail)) := by
    have hnothing : text.toList = front ++ ('L' :: tail ++ []) := by rw [h, List.append_nil]
    rw [hwhole]
    exact cut_eq hnothing
  have hletter : ¬ (Primitive.ofLetter? 'L').isSome = true := by decide
  simp only [elementEnd, hcode, if_neg hletter, if_true, hcut, bind, Except.bind,
    String.toList_ofList]
  rw [FieldType.read?, if_neg (by decide), if_pos rfl, bytesToSemicolon?, if_neg (by decide),
    bytesToSemicolon?_eq]
  cases FieldType.readName? tail with
  | none => rfl
  | some found =>
    obtain ⟨name, after⟩ := found
    cases name with
    | nil => rfl
    | cons d name =>
      have hlength : utf8Len (d :: name) ≠ 0 := by
        have hpos := d.utf8Size_pos
        rw [String.utf8Len_cons]
        omega
      have hstop : utf8Len (front ++ (FieldType.object (d :: name)).render)
          = utf8Len front + (1 + utf8Len (d :: name) + 1) := by
        have hrender : front ++ (FieldType.object (d :: name)).render
            = front ++ ['L'] ++ (d :: name) ++ [';'] := by simp [FieldType.render]
        rw [hrender, utf8Len_concat (by decide), String.utf8Len_append,
          utf8Len_concat (by decide)]
        omega
      have hsize : Char.utf8Size 'L' = 1 := rfl
      rw [endOf, hstop, hsize, Option.map_some, Option.map_eq_map, Option.map_some]
      split
      · next heq => simp at heq
      · next heq =>
        have : 1 + utf8Len (d :: name) = 1 := Option.some.inj heq
        omega
      · next heq => rw [Option.some.inj heq]

/-- A type that is no array ends where it does character by character. -/
theorem elementEnd_eq (h : text.toList = front ++ rest) (hrest : rest.head? ≠ some '[') :
    elementEnd text (utf8Len front) = endOf front (FieldType.read? rest) := by
  cases rest with
  | nil =>
    rw [elementEnd, codeAt?_eq h]
    rfl
  | cons c tail =>
    by_cases hL : c = 'L'
    · subst hL
      exact elementEnd_class h
    · have hbracket : c ≠ '[' := by simpa using hrest
      rw [elementEnd, codeAt?_eq h, List.head?_cons, Option.map_some]
      dsimp only
      rw [ofLetter?_lead, FieldType.read?, if_neg hbracket, if_neg hL,
        if_neg (mt (lead_eq_iff (by decide)).mp hL)]
      cases hletter : Primitive.ofLetter? c with
      | none => rfl
      | some type =>
        obtain rfl := Primitive.eq_letter_of_ofLetter? hletter
        have hsmall : type.letter.toNat < 128 := by cases type <;> decide
        rw [Option.isSome_some, if_pos rfl, Option.map_some, endOf, FieldType.render,
          utf8Len_concat hsmall]

/-- A bracket is skipped. -/
theorem skipBrackets_cons {tail : List Char} (h : text.toList = front ++ '[' :: tail) :
    skipBrackets text (utf8Len front) = skipBrackets text (utf8Len (front ++ ['['])) := by
  have hcode : codeAt? text (utf8Len front) = some '[' :=
    (codeAt?_eq_some_iff (by decide) h).mpr rfl
  rw [skipBrackets, dif_pos hcode, utf8Len_concat (by decide)]

/-- Nothing is skipped where there is no bracket. -/
theorem skipBrackets_eq (h : text.toList = front ++ rest) (hrest : rest.head? ≠ some '[') :
    skipBrackets text (utf8Len front) = utf8Len front := by
  rw [skipBrackets, dif_neg]
  rwa [codeAt?_eq_some_iff (by decide) h]

/-- The element type of an array ends where the array does. -/
theorem elementEnd_skipBrackets (h : text.toList = front ++ rest) :
    elementEnd text (skipBrackets text (utf8Len front)) = endOf front (FieldType.read? rest) := by
  induction rest generalizing front with
  | nil => rw [skipBrackets_eq h (by simp), elementEnd_eq h (by simp)]
  | cons c tail ih =>
    by_cases hc : c = '['
    · subst hc
      rw [skipBrackets_cons h, ih (by rw [h, List.append_assoc]; rfl), FieldType.read?, if_pos rfl]
      cases FieldType.read? tail with
      | none => rfl
      | some found => simp [endOf, FieldType.render]
    · have hhead : (c :: tail).head? ≠ some '[' := by simpa using hc
      rw [skipBrackets_eq h hhead, elementEnd_eq h hhead]

/-- A field type is cut out where the reader of characters finds one. -/
theorem fieldAt_eq_ok {type : FieldType} {after : List Char} (h : text.toList = front ++ rest)
    (hread : FieldType.read? rest = some (type, after)) :
    fieldAt text (utf8Len front)
      = .ok (String.ofList type.render, utf8Len (front ++ type.render)) := by
  have hstop := elementEnd_skipBrackets h
  rw [hread] at hstop
  have hcut : cut text (utf8Len front) (utf8Len (front ++ type.render))
      = .ok (String.ofList type.render) :=
    cut_eq (by rw [h, (FieldType.eq_of_read? hread).2])
  exact Except.bind_ok hstop (Except.bind_ok hcut rfl)

/-- Where no field type is found character by character, none is found by offset. -/
theorem fieldAt_eq_error (h : text.toList = front ++ rest) (hread : FieldType.read? rest = none) :
    fieldAt text (utf8Len front) = .error .malformed := by
  have hstop := elementEnd_skipBrackets h
  rw [hread] at hstop
  rw [fieldAt, hstop]
  rfl

/-- The parameter types that are found at an offset. -/
def fieldsOf (front : List Char) :
    Option (List FieldType × List Char) → Except Stop (List String × Nat)
  | some (types, _) => .ok (types.map (String.ofList ∘ FieldType.render),
      utf8Len (front ++ types.flatMap FieldType.render))
  | none => .error .malformed

section Steps

variable {c : Char} {tail : List Char}

/-- A character that is not some other one is not taken for it by its first byte. -/
theorem codeAt?_ne {d : Char} (hd : d.toNat < 128) (h : text.toList = front ++ c :: tail)
    (hc : ¬ c = d) : ∃ code, codeAt? text (utf8Len front) = some code ∧ code ≠ d :=
  ⟨lead c, codeAt?_eq h, mt (lead_eq_iff hd).mp hc⟩

/-- A field type that is refused is the fault of the parameters. -/
theorem fieldsAt_of_error {stop : Stop} (h : text.toList = front ++ c :: tail) (hc : ¬ c = ')')
    (hfield : fieldAt text (utf8Len front) = .error stop) :
    fieldsAt text (utf8Len front) = .error stop := by
  obtain ⟨code, hcode, hne⟩ := codeAt?_ne (by decide) h hc
  rw [fieldsAt]
  split
  · next hnone => simp [hcode] at hnone
  · next found hfound =>
    obtain rfl := Option.some.inj (hcode.symm.trans hfound)
    rw [if_neg hne]
    split
    · next herror => exact congrArg _ (Except.error.inj (herror.symm.trans hfield))
    · next hok => simp [hfield] at hok

/-- A field type that is read comes in front of those behind it. -/
theorem fieldsAt_of_ok {part : String} {stop : Nat} (h : text.toList = front ++ c :: tail)
    (hc : ¬ c = ')') (hfield : fieldAt text (utf8Len front) = .ok (part, stop)) :
    fieldsAt text (utf8Len front)
      = (fun (parts, stop) => (part :: parts, stop)) <$> fieldsAt text stop := by
  obtain ⟨code, hcode, hne⟩ := codeAt?_ne (by decide) h hc
  rw [fieldsAt]
  split
  · next hnone => simp [hcode] at hnone
  · next found hfound =>
    obtain rfl := Option.some.inj (hcode.symm.trans hfound)
    rw [if_neg hne]
    split
    · next herror => simp [hfield] at herror
    · next hok =>
      obtain ⟨rfl, rfl⟩ := Prod.mk.inj (Except.ok.inj (hok.symm.trans hfield))
      rfl

end Steps

/-- The parameter types at an offset are those found character by character. -/
theorem fieldsAt_eq (h : text.toList = front ++ rest) :
    fieldsAt text (utf8Len front) = fieldsOf front (readParameters? rest) := by
  induction rest using readParameters?.induct generalizing front with
  | case1 =>
    rw [fieldsAt]
    split
    · simp [readParameters?, fieldsOf]
    · next hcode => simp [codeAt?_eq h] at hcode
  | case2 tail =>
    have hcode : codeAt? text (utf8Len front) = some ')' :=
      (codeAt?_eq_some_iff (by decide) h).mpr rfl
    rw [fieldsAt]
    split
    · next hnone => simp [hcode] at hnone
    · next c hc =>
      obtain rfl := Option.some.inj (hcode.symm.trans hc)
      simp [readParameters?, fieldsOf]
  | case3 c tail hc hread =>
    have hfield := fieldAt_eq_error h hread
    have hnone : readParameters? (c :: tail) = none := by
      rw [readParameters?, if_neg hc]
      split
      · rfl
      · next hsome => simp [hread] at hsome
    rw [hnone, fieldsAt_of_error h hc hfield]
    rfl
  | case4 c tail hc type after hread ih =>
    have hfield := fieldAt_eq_ok h hread
    have htext := (FieldType.eq_of_read? hread).2
    have hsome : readParameters? (c :: tail)
        = (readParameters? after).map fun found => (type :: found.1, found.2) := by
      rw [readParameters?, if_neg hc]
      split
      · next hnone => simp [hread] at hnone
      · next found after' hfound =>
        obtain ⟨rfl, rfl⟩ := Prod.mk.inj (Option.some.inj (hread.symm.trans hfound))
        rfl
    have hafter : text.toList = front ++ type.render ++ after := by
      rw [h, htext, List.append_assoc]
    rw [hsome, fieldsAt_of_ok h hc hfield, ih hafter]
    cases readParameters? after with
    | none => rfl
    | some found => simp [fieldsOf, Functor.map, Except.map]

/-- What is found as the return type. -/
def returnOf : Option (Option FieldType) → Except Stop String
  | some returns => .ok (String.ofList (renderReturn returns))
  | none => .error .malformed

/-- Whether an offset is the end of the text shows from what follows it. -/
theorem utf8Len_lt_iff (h : text.toList = front ++ rest) :
    utf8Len front < text.utf8ByteSize ↔ rest ≠ [] := by
  have hwhole : text.utf8ByteSize = utf8Len front + utf8Len rest := by
    rw [← String.utf8Len_append, ← h, ← String.utf8ByteSize_ofList, String.ofList_toList]
  cases rest with
  | nil => simp [hwhole]
  | cons c rest =>
    have hpos := c.utf8Size_pos
    rw [String.utf8Len_cons] at hwhole
    simp only [ne_eq, List.cons_ne_nil, not_false_eq_true, iff_true]
    omega

/-- The letter of no value has to end the text. -/
theorem returnAt_of_void {tail : List Char} (h : text.toList = front ++ 'V' :: tail) :
    returnAt text (utf8Len front) = returnOf (readReturn? ('V' :: tail)) := by
  have hcode : codeAt? text (utf8Len front) = some 'V' :=
    (codeAt?_eq_some_iff (by decide) h).mpr rfl
  have hbehind : text.toList = front ++ ['V'] ++ tail := by
    rw [h, List.append_assoc]
    rfl
  have hend := utf8Len_lt_iff hbehind
  rw [utf8Len_concat (by decide)] at hend
  rw [returnAt, if_pos hcode]
  simp only [bind, Except.bind]
  cases tail with
  | nil =>
    rw [if_neg (mt hend.mp (by simp))]
    rfl
  | cons c tail =>
    rw [if_pos (hend.mpr (by simp))]
    rfl

/-- The return type at an offset is the one found character by character. -/
theorem returnAt_eq (h : text.toList = front ++ rest) :
    returnAt text (utf8Len front) = returnOf (readReturn? rest) := by
  by_cases hvoid : rest.head? = some 'V'
  · obtain ⟨tail, rfl⟩ := List.head?_eq_some_iff.mp hvoid
    exact returnAt_of_void h
  · have hother : rest = ['V'] → False := fun hrest => hvoid (by rw [hrest]; rfl)
    rw [returnAt, if_neg (mt (codeAt?_eq_some_iff (by decide) h).mp hvoid),
      readReturn?.eq_2 rest hother]
    cases hread : FieldType.read? rest with
    | none =>
      rw [fieldAt_eq_error h hread]
      rfl
    | some found =>
      obtain ⟨type, after⟩ := found
      have hbehind : text.toList = front ++ type.render ++ after := by
        rw [h, (FieldType.eq_of_read? hread).2, List.append_assoc]
      have hend := utf8Len_lt_iff hbehind
      rw [fieldAt_eq_ok h hread]
      simp only [bind, Except.bind]
      cases after with
      | nil =>
        rw [if_neg (mt hend.mp (by simp))]
        rfl
      | cons c after =>
        rw [if_pos (hend.mpr (by simp))]
        rfl

/-- Reading by offset and reading character by character find the same. -/
theorem readByOffset_eq (text : String) : readByOffset text
    = (parse? text).elim (.error .malformed) fun d =>
      .ok (d.parameters.map (String.ofList ∘ FieldType.render),
        String.ofList (renderReturn d.returns)) := by
  by_cases hopen : text.toList.head? = some '('
  · obtain ⟨rest, htext⟩ := List.head?_eq_some_iff.mp hopen
    have hstart : text.toList = [] ++ '(' :: rest := htext
    have hbehind : text.toList = ['('] ++ rest := htext
    have hcode : codeAt? text 0 = some '(' := (codeAt?_eq_some_iff (by decide) hstart).mpr rfl
    have hfields := fieldsAt_eq hbehind
    have hone : utf8Len ['('] = 1 := rfl
    have hparse : parse? text = (readParameters? rest).bind fun found =>
        (readReturn? found.2).bind fun returns => some ⟨found.1, returns⟩ := by
      rw [parse?, htext]
      rfl
    rw [hone] at hfields
    rw [readByOffset, if_pos hcode, hfields, hparse]
    cases hread : readParameters? rest with
    | none => rfl
    | some found =>
      obtain ⟨types, after⟩ := found
      obtain ⟨-, hrest⟩ := readParameters?_eq_some_iff.mp hread
      have hparameters : text.toList
          = '(' :: types.flatMap FieldType.render ++ [')'] ++ after := by
        rw [htext, hrest]
        simp
      have hreturn := returnAt_eq hparameters
      rw [utf8Len_concat (by decide)] at hreturn
      simp only [fieldsOf, bind, Except.bind, List.singleton_append, Option.bind_some]
      rw [hreturn]
      cases readReturn? after with
      | none => rfl
      | some returns => rfl
  · have hstart : text.toList = [] ++ text.toList := rfl
    have hcode : codeAt? text 0 ≠ some '(' :=
      mt (codeAt?_eq_some_iff (by decide) hstart).mp hopen
    have hnone : parse? text = none := by
      unfold parse?
      split
      · next htext => exact absurd (by rw [htext]; rfl) hopen
      · rfl
    rw [readByOffset, if_neg hcode, hnone]
    rfl

end Agreement

end LineAtlas.Descriptor
