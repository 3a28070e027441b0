import LineAtlas.ClassFile.ModifiedUtf8

/-!
# Reading modified UTF-8

Bytes are read sequence by sequence, up to the first place where no sequence of one, two or three
bytes begins. The written form of a text is made of such sequences, so that code units come back
from their bytes, and characters from their code units.
-/

namespace LineAtlas.Text.Utf16

/-- A character is no surrogate, and is written in at most two units. -/
theorem toNat_char (c : Char) : (c.toNat < 0xD800 ∨ 0xDFFF < c.toNat) ∧ c.toNat < 0x110000 := by
  have hvalid : c.toNat < 0xD800 ∨ 0xDFFF < c.toNat ∧ c.toNat < 0x110000 := c.valid
  omega

/-- The first half of a pair lies in its range. -/
theorem isHigh_iff {unit : Nat} : isHigh unit = true ↔ 0xD800 ≤ unit ∧ unit < 0xDC00 := by
  simp [isHigh]

/-- The second half of a pair lies in its range. -/
theorem isLow_iff {unit : Nat} : isLow unit = true ↔ 0xDC00 ≤ unit ∧ unit < 0xE000 := by
  simp [isLow]

/-- A unit that is no surrogate is a character by itself. -/
theorem decode_cons {unit : Nat} (hhigh : isHigh unit = false) (hlow : isLow unit = false)
    (units : List Nat) : decode (unit :: units) = Char.ofNat unit :: decode units := by
  cases units <;> simp [decode, hhigh, hlow]

/-- The units of a character are read as the character, whatever follows them. -/
theorem decode_encodeChar (c : Char) (units : List Nat) :
    decode (encodeChar c ++ units) = c :: decode units := by
  obtain ⟨hvalid, hbound⟩ := toNat_char c
  unfold encodeChar
  split
  · have hhigh : isHigh c.toNat = false := by
      rw [← Bool.not_eq_true, isHigh_iff]
      omega
    have hlow : isLow c.toNat = false := by
      rw [← Bool.not_eq_true, isLow_iff]
      omega
    rw [List.singleton_append, decode_cons hhigh hlow, Char.ofNat_toNat]
  · have hhigh : isHigh (0xD800 + (c.toNat - 0x10000) / 0x400) = true := by
      rw [isHigh_iff]
      omega
    have hlow : isLow (0xDC00 + (c.toNat - 0x10000) % 0x400) = true := by
      rw [isLow_iff]
      omega
    have hcode : 0x10000 + (0xD800 + (c.toNat - 0x10000) / 0x400 - 0xD800) * 0x400
        + (0xDC00 + (c.toNat - 0x10000) % 0x400 - 0xDC00) = c.toNat := by omega
    rw [List.cons_append, List.singleton_append, decode, hhigh, hlow, pair, hcode,
      Char.ofNat_toNat]
    rfl

/-- Characters are given back from their units, those beyond the first plane from pairs. -/
theorem decode_flatMap_encodeChar (chars : List Char) :
    decode (chars.flatMap encodeChar) = chars := by
  induction chars with
  | nil => rfl
  | cons c rest ih => rw [List.flatMap_cons, decode_encodeChar, ih]

/-- Each unit of a character fits two bytes. -/
theorem lt_of_mem_encodeChar {c : Char} {unit : Nat} (hunit : unit ∈ encodeChar c) :
    unit < 0x10000 := by
  obtain ⟨-, hbound⟩ := toNat_char c
  unfold encodeChar at hunit
  split at hunit
  · rw [List.mem_singleton.mp hunit]
    assumption
  · simp only [List.mem_cons, List.not_mem_nil, or_false] at hunit
    omega

end LineAtlas.Text.Utf16

namespace LineAtlas.ClassFile.ModifiedUtf8

/-- The bytes of a code unit. -/
def unitBytes (unit : Nat) : List UInt8 :=
  if unit = 0 then [0xC0, 0x80]
  else if unit < 0x80 then [UInt8.ofNat unit]
  else if unit < 0x800 then [UInt8.ofNat (0xC0 + unit / 64), UInt8.ofNat (0x80 + unit % 64)]
  else [UInt8.ofNat (0xE0 + unit / 4096), UInt8.ofNat (0x80 + unit / 64 % 64),
    UInt8.ofNat (0x80 + unit % 64)]

/-- The bytes of a text. -/
def encode (text : String) : List UInt8 :=
  (text.toList.flatMap Text.Utf16.encodeChar).flatMap unitBytes

/-- A number below 256 is given back from its byte. -/
theorem toNat_ofNat {n : Nat} (hn : n < 256) : (UInt8.ofNat n).toNat = n :=
  UInt8.toNat_ofNat_of_lt' hn

/-- Six bits are given back from the byte that continues a sequence with them. -/
theorem continuation?_ofNat {low : Nat} (hlow : low < 64) :
    continuation? (UInt8.ofNat (0x80 + low)) = some low := by
  have hbyte : (UInt8.ofNat (0x80 + low)).toNat = 0x80 + low :=
    toNat_ofNat (by omega)
  rw [continuation?, hbyte, if_pos (by omega)]
  congr 1
  omega

/-- A byte stands for itself exactly when its number is below 128. -/
theorem ofNat_lt_iff {n : Nat} (hn : n < 256) : UInt8.ofNat n < 0x80 ↔ n < 0x80 := by
  rw [UInt8.lt_iff_toNat_lt, toNat_ofNat hn]
  rfl

/-- A unit of one byte. -/
theorem unit?_one {unit : Nat} (hunit : unit < 0x80) (rest : List UInt8) :
    unit? (UInt8.ofNat unit :: rest) = some (unit, rest) := by
  unfold unit?
  dsimp only
  rw [if_pos ((ofNat_lt_iff (by omega)).mpr hunit), toNat_ofNat (by omega)]

/-- A unit of two bytes. -/
theorem unit?_two {high low : Nat} (hhigh : high < 32) (hlow : low < 64) (rest : List UInt8) :
    unit? (UInt8.ofNat (0xC0 + high) :: UInt8.ofNat (0x80 + low) :: rest)
      = some (high * 64 + low, rest) := by
  have hbyte : (UInt8.ofNat (0xC0 + high)).toNat = 0xC0 + high :=
    toNat_ofNat (by omega)
  unfold unit?
  dsimp only
  rw [if_neg (by rw [ofNat_lt_iff (by omega)]; omega), hbyte, if_pos (by omega)]
  rw [continuation?_ofNat hlow]
  dsimp only
  rw [show (0xC0 + high) % 32 = high by omega]

/-- A unit of three bytes. -/
theorem unit?_three {high middle low : Nat} (hhigh : high < 16) (hmiddle : middle < 64)
    (hlow : low < 64) (rest : List UInt8) :
    unit? (UInt8.ofNat (0xE0 + high) :: UInt8.ofNat (0x80 + middle) :: UInt8.ofNat (0x80 + low)
      :: rest) = some (high * 4096 + middle * 64 + low, rest) := by
  have hbyte : (UInt8.ofNat (0xE0 + high)).toNat = 0xE0 + high :=
    toNat_ofNat (by omega)
  unfold unit?
  dsimp only
  rw [if_neg (by rw [ofNat_lt_iff (by omega)]; omega), hbyte, if_neg (by omega),
    if_pos (by omega)]
  rw [continuation?_ofNat hmiddle, continuation?_ofNat hlow]
  dsimp only
  rw [show (0xE0 + high) % 16 = high by omega]

/-- Some bytes are a sequence for a code unit. The highest bits of the first byte tell how many
bytes there are, and each further byte has six bits of the unit. A sequence may be longer than the
unit needs. -/
inductive IsSequence : Nat → List UInt8 → Prop
  /-- Seven bits in one byte. -/
  | one {unit : Nat} (hunit : unit < 0x80) : IsSequence unit [UInt8.ofNat unit]
  /-- Five and six bits. -/
  | two {high low : Nat} (hhigh : high < 0x20) (hlow : low < 0x40) :
    IsSequence (high * 0x40 + low) [UInt8.ofNat (0xC0 + high), UInt8.ofNat (0x80 + low)]
  /-- Four, six and six bits. -/
  | three {high middle low : Nat} (hhigh : high < 0x10) (hmiddle : middle < 0x40)
    (hlow : low < 0x40) : IsSequence (high * 0x1000 + middle * 0x40 + low)
      [UInt8.ofNat (0xE0 + high), UInt8.ofNat (0x80 + middle), UInt8.ofNat (0x80 + low)]

/-- Some bytes are sequences for code units, one after the other. -/
inductive AreSequences : List Nat → List UInt8 → Prop
  /-- No bytes. -/
  | nil : AreSequences [] []
  /-- A sequence, and more behind it. -/
  | cons {unit : Nat} {codes : List Nat} {piece rest : List UInt8}
    (hpiece : IsSequence unit piece) (hrest : AreSequences codes rest) :
    AreSequences (unit :: codes) (piece ++ rest)

/-- There are bytes, and no sequence is at their front. -/
def IsFaulty (bytes : List UInt8) : Prop :=
  bytes ≠ [] ∧ ∀ unit piece, IsSequence unit piece → ¬ piece <+: bytes

/-- The code unit of a sequence is read, whatever follows it. -/
theorem IsSequence.unit?_append {unit : Nat} {piece : List UInt8} (h : IsSequence unit piece)
    (rest : List UInt8) : unit? (piece ++ rest) = some (unit, rest) := by
  cases h with
  | one hunit => exact unit?_one hunit rest
  | two hhigh hlow => exact unit?_two hhigh hlow rest
  | three hhigh hmiddle hlow => exact unit?_three hhigh hmiddle hlow rest

/-- The first byte tells the length of a sequence. -/
theorem IsSequence.exists_first {unit : Nat} {piece : List UInt8} (h : IsSequence unit piece) :
    ∃ byte tail, piece = byte :: tail ∧ width byte = piece.length := by
  cases h with
  | one hunit =>
    refine ⟨_, _, rfl, ?_⟩
    rw [width, if_pos ((ofNat_lt_iff (by omega)).mpr hunit)]
    rfl
  | @two high low hhigh hlow =>
    have hlead : ¬ UInt8.ofNat (0xC0 + high) < 0x80 := by
      rw [ofNat_lt_iff (by omega)]
      omega
    refine ⟨_, _, rfl, ?_⟩
    rw [width, if_neg hlead, toNat_ofNat (by omega), if_pos (by omega)]
    rfl
  | @three high middle low hhigh hmiddle hlow =>
    have hlead : ¬ UInt8.ofNat (0xE0 + high) < 0x80 := by
      rw [ofNat_lt_iff (by omega)]
      omega
    refine ⟨_, _, rfl, ?_⟩
    rw [width, if_neg hlead, toNat_ofNat (by omega), if_neg (by omega)]
    rfl

/-- A byte is determined by its number. -/
theorem eq_ofNat {byte : UInt8} {n : Nat} (h : byte.toNat = n) : byte = UInt8.ofNat n := by
  rw [← h, UInt8.ofNat_toNat]

/-- A byte that continues a sequence is made of its six bits. -/
theorem eq_of_continuation? {byte : UInt8} {low : Nat} (h : continuation? byte = some low) :
    low < 0x40 ∧ byte = UInt8.ofNat (0x80 + low) := by
  rw [continuation?] at h
  split at h
  next hbits =>
    obtain rfl := Option.some.inj h
    exact ⟨Nat.mod_lt _ (by decide), eq_ofNat (by omega)⟩
  next => cases h

/-- What is read as a code unit is a sequence for it. -/
theorem exists_isSequence {bytes rest : List UInt8} {unit : Nat} :
    unit? bytes = some (unit, rest) → ∃ piece, IsSequence unit piece ∧ bytes = piece ++ rest := by
  fun_cases unit? bytes with
  | case2 first tail hone =>
    rintro ⟨⟩
    refine ⟨[UInt8.ofNat first.toNat], .one (UInt8.lt_iff_toNat_lt.mp hone), ?_⟩
    rw [UInt8.ofNat_toNat, List.singleton_append]
  | case3 first hone hlead second tail low hsecond =>
    rintro ⟨⟩
    obtain ⟨hlow, rfl⟩ := eq_of_continuation? hsecond
    refine ⟨_, .two (Nat.mod_lt _ (by decide)) hlow, ?_⟩
    rw [← eq_ofNat (show first.toNat = 0xC0 + first.toNat % 32 by omega)]
    rfl
  | case6 first hone htwo hlead second third tail middle low hthird hsecond =>
    rintro ⟨⟩
    obtain ⟨hmiddle, rfl⟩ := eq_of_continuation? hsecond
    obtain ⟨hlow, rfl⟩ := eq_of_continuation? hthird
    refine ⟨_, .three (Nat.mod_lt _ (by decide)) hmiddle hlow, ?_⟩
    rw [← eq_ofNat (show first.toNat = 0xE0 + first.toNat % 16 by omega)]
    rfl
  | _ =>
    intro h
    cases h

/-- No code unit is read just where no sequence is at the front. -/
theorem unit?_eq_none_iff {bytes : List UInt8} :
    unit? bytes = none ↔ ∀ unit piece, IsSequence unit piece → ¬ piece <+: bytes := by
  constructor
  · rintro hnone unit piece hpiece ⟨rest, rfl⟩
    rw [hpiece.unit?_append] at hnone
    cases hnone
  · intro hfaulty
    cases hread : unit? bytes with
    | none => rfl
    | some found =>
      obtain ⟨unit, rest⟩ := found
      obtain ⟨piece, hpiece, rfl⟩ := exists_isSequence hread
      exact absurd (List.prefix_append piece rest) (hfaulty unit piece hpiece)

/-- A sequence is read, and then what follows it. -/
theorem IsSequence.units_append {unit : Nat} {piece : List UInt8} (h : IsSequence unit piece)
    (offset : Nat) (rest : List UInt8) : units offset (piece ++ rest)
      = (unit :: ·) <$> units (offset + piece.length) rest := by
  have hread := h.unit?_append rest
  obtain ⟨byte, tail, rfl, hwidth⟩ := h.exists_first
  rw [← hwidth, List.cons_append, units]
  rw [List.cons_append] at hread
  split
  next hnone =>
    rw [hread] at hnone
    cases hnone
  next other after hsome =>
    obtain ⟨rfl, rfl⟩ := Prod.mk.inj (Option.some.inj (hread.symm.trans hsome))
    rfl

/-- Sequences are read, and then what follows them. -/
theorem AreSequences.units_append {codes : List Nat} {bytes : List UInt8}
    (h : AreSequences codes bytes) (offset : Nat) (rest : List UInt8) :
    units offset (bytes ++ rest) = (codes ++ ·) <$> units (offset + bytes.length) rest := by
  induction h generalizing offset with
  | nil => exact (id_map (units offset rest)).symm
  | @cons unit codes piece more hpiece hmore ih =>
    rw [List.append_assoc, hpiece.units_append, ih, List.length_append, Nat.add_assoc,
      ← comp_map]
    rfl

/-- Bytes at whose front no sequence is are refused there. -/
theorem IsFaulty.units_eq {bytes : List UInt8} (h : IsFaulty bytes) (offset : Nat) :
    units offset bytes = .error offset := by
  obtain ⟨hsome, hfaulty⟩ := h
  obtain ⟨byte, tail, rfl⟩ := List.exists_cons_of_ne_nil hsome
  have hnone := unit?_eq_none_iff.mpr hfaulty
  rw [units]
  split
  next => rfl
  next hread =>
    rw [hnone] at hread
    cases hread

/-- All bytes are sequences up to a place where there is none. -/
theorem exists_areSequences (bytes : List UInt8) :
    ∃ codes before rest, bytes = before ++ rest ∧ AreSequences codes before ∧
      (rest = [] ∨ IsFaulty rest) := by
  induction hlength : bytes.length using Nat.strongRecOn generalizing bytes with
  | ind length ih =>
    by_cases hnil : bytes = []
    · exact ⟨[], [], [], hnil, .nil, Or.inl rfl⟩
    cases hread : unit? bytes with
    | none => exact ⟨[], [], bytes, rfl, .nil, Or.inr ⟨hnil, unit?_eq_none_iff.mp hread⟩⟩
    | some found =>
      obtain ⟨unit, rest⟩ := found
      obtain ⟨piece, hpiece, rfl⟩ := exists_isSequence hread
      obtain ⟨codes, before, after, rfl, hbefore, hafter⟩ :=
        ih rest.length (hlength ▸ unit?_length hread) rest rfl
      exact ⟨unit :: codes, piece ++ before, after, (List.append_assoc _ _ _).symm,
        .cons hpiece hbefore, hafter⟩

/-- The bytes of a unit are a sequence for it, of one, two or three bytes. -/
theorem isSequence_unitBytes {unit : Nat} (hunit : unit < 0x10000) :
    IsSequence unit (unitBytes unit) := by
  unfold unitBytes
  split
  · next hzero =>
    rw [hzero]
    exact .two (show 0 < 0x20 by decide) (show 0 < 0x40 by decide)
  · split
    · next hone => exact .one hone
    · split
      · next htwo =>
        have h := IsSequence.two (show unit / 64 < 0x20 by omega) (show unit % 64 < 0x40 by omega)
        rwa [show unit / 64 * 0x40 + unit % 64 = unit by omega] at h
      · have h := IsSequence.three (show unit / 4096 < 0x10 by omega)
          (show unit / 64 % 64 < 0x40 by omega) (show unit % 64 < 0x40 by omega)
        rwa [show unit / 4096 * 0x1000 + unit / 64 % 64 * 0x40 + unit % 64 = unit by omega] at h

/-- The bytes of code units are sequences for them. -/
theorem areSequences_flatMap_unitBytes {codes : List Nat}
    (hcodes : ∀ code ∈ codes, code < 0x10000) :
    AreSequences codes (codes.flatMap unitBytes) := by
  induction codes with
  | nil => exact .nil
  | cons code rest ih =>
    exact .cons (isSequence_unitBytes (hcodes code List.mem_cons_self))
      (ih fun other hother => hcodes other (List.mem_cons_of_mem code hother))

/-- Sequences are the text of their code units. -/
theorem AreSequences.decode_eq {codes : List Nat} {bytes : List UInt8}
    (h : AreSequences codes bytes) :
    decode bytes = .ok (String.ofList (Text.Utf16.decode codes)) := by
  have hunits : units 0 bytes = .ok codes := by
    have hread := h.units_append 0 []
    rw [List.append_nil, units] at hread
    rw [hread]
    exact congrArg Except.ok (List.append_nil codes)
  rw [decode, hunits]
  rfl

/-- Every text comes back from its bytes. -/
theorem decode_encode (text : String) : decode (encode text) = .ok text := by
  have hcodes : ∀ code ∈ text.toList.flatMap Text.Utf16.encodeChar, code < 0x10000 := by
    intro code hcode
    obtain ⟨c, -, hc⟩ := List.mem_flatMap.mp hcode
    exact Text.Utf16.lt_of_mem_encodeChar hc
  rw [encode, (areSequences_flatMap_unitBytes hcodes).decode_eq,
    Text.Utf16.decode_flatMap_encodeChar, String.ofList_toList]

/-- Bytes behind sequences are refused where no sequence is. -/
theorem decode_of_isFaulty {codes : List Nat} {before rest : List UInt8}
    (hbefore : AreSequences codes before) (hrest : IsFaulty rest) :
    decode (before ++ rest) = .error before.length := by
  rw [decode, hbefore.units_append, hrest.units_eq, Nat.zero_add]
  rfl

/-- Every text comes back from its bytes. Bytes are a text just when they are sequences of one, two
or three bytes, whose code units then are the text; and they are refused just when there are bytes
behind sequences that do not begin with one, with the place of these. -/
theorem decode_readsSequences :
    (∀ text, decode (encode text) = .ok text) ∧
    (∀ bytes text, decode bytes = .ok text ↔
      ∃ codes, AreSequences codes bytes ∧ text = String.ofList (Text.Utf16.decode codes)) ∧
    ∀ bytes offset, decode bytes = .error offset ↔
      ∃ codes before rest, bytes = before ++ rest ∧ AreSequences codes before ∧ IsFaulty rest ∧
        offset = before.length := by
  refine ⟨decode_encode, fun bytes text => ⟨fun h => ?_, ?_⟩, fun bytes offset => ⟨fun h => ?_, ?_⟩⟩
  · obtain ⟨codes, before, rest, rfl, hbefore, rfl | hrest⟩ := exists_areSequences bytes
    · rw [List.append_nil] at h ⊢
      exact ⟨codes, hbefore, (Except.ok.inj (hbefore.decode_eq.symm.trans h)).symm⟩
    · rw [decode_of_isFaulty hbefore hrest] at h
      cases h
  · rintro ⟨codes, hcodes, rfl⟩
    exact hcodes.decode_eq
  · obtain ⟨codes, before, rest, rfl, hbefore, rfl | hrest⟩ := exists_areSequences bytes
    · rw [List.append_nil, hbefore.decode_eq] at h
      cases h
    · rw [decode_of_isFaulty hbefore hrest] at h
      exact ⟨codes, before, rest, rfl, hbefore, hrest, (Except.error.inj h).symm⟩
  · rintro ⟨codes, before, rest, rfl, hbefore, hrest, rfl⟩
    exact decode_of_isFaulty hbefore hrest

end LineAtlas.ClassFile.ModifiedUtf8
