import Mathlib.Algebra.Group.Nat.Defs
import Mathlib.Data.List.Basic
import LineAtlas.Metadata.Packing
import LineAtlas.Proofs.Except

/-!
# Bytes come back from strings

Bytes are packed into characters in one of two layouts, and the characters are cut into strings.
Wherever the cuts are, the bytes come back, as long as the first string holds the marker.
-/

namespace LineAtlas.Metadata.Packing

/-- Bits that are missing to a number's width are zero. -/
theorem bits_ofBits (l : List Bool) (missing : Nat) :
    bits (l.length + missing) (ofBits l) = l ++ List.replicate missing false := by
  induction l with
  | nil =>
    rw [List.length_nil, Nat.zero_add, ofBits, List.nil_append]
    induction missing with
    | zero => rfl
    | succ missing ih => simp [bits, ih, List.replicate_succ]
  | cons bit rest ih =>
    have hlow : ((bit.toNat + 2 * ofBits rest) % 2 == 1) = bit := by
      cases bit
      · simp
      · simp [Nat.add_mod]
    have hhigh : (bit.toNat + 2 * ofBits rest) / 2 = ofBits rest := by
      have hbit := bit.toNat_lt
      omega
    rw [List.length_cons, Nat.add_right_comm, bits, ofBits, hlow, hhigh, ih, List.cons_append]

/-- Bits spell a number below the power of two for their count. -/
theorem ofBits_lt (l : List Bool) : ofBits l < 2 ^ l.length := by
  induction l with
  | nil => simp [ofBits]
  | cons bit rest ih =>
    have hbit := bit.toNat_lt
    rw [ofBits, List.length_cons, Nat.pow_succ]
    omega

/-- The low bits of a number spell what they hold of it. -/
theorem ofBits_bits (width n : Nat) : ofBits (bits width n) = n % 2 ^ width := by
  induction width generalizing n with
  | zero => simp [bits, ofBits, Nat.mod_one]
  | succ width ih =>
    have hlow : (n % 2 == 1).toNat = n % 2 := by
      rcases Nat.mod_two_eq_zero_or_one n with h | h <;> simp [h]
    rw [bits, ofBits, ih, hlow, Nat.pow_succ, Nat.mul_comm (2 ^ width), Nat.mod_mul]

/-- The numbers of seven bits each that bits spell; zeros fill up the last one. -/
def groups (l : List Bool) : List Nat :=
  if l.isEmpty then [] else ofBits (l.take 7) :: groups (l.drop 7)
termination_by l.length
decreasing_by
  cases l with
  | nil => simp at *
  | cons bit rest =>
    simp only [List.length_drop, List.length_cons]
    omega

/-- The bits come back from the groups, with fewer than seven zeros after them. -/
theorem exists_flatMap_groups (l : List Bool) :
    ∃ missing < 7, (groups l).flatMap (bits 7) = l ++ List.replicate missing false := by
  induction l using groups.induct with
  | case1 l hempty =>
    rw [List.isEmpty_iff] at hempty
    exact ⟨0, by decide, by simp [groups, hempty]⟩
  | case2 l hempty ih =>
    obtain ⟨missing, hmissing, hrest⟩ := ih
    rw [groups, if_neg hempty, List.flatMap_cons, hrest]
    have hpos : l.length ≠ 0 := by simpa [List.length_eq_zero_iff] using hempty
    by_cases hlong : 7 ≤ l.length
    · have htake : (l.take 7).length = 7 := by
        rw [List.length_take]
        omega
      have hfirst := bits_ofBits (l.take 7) 0
      rw [htake] at hfirst
      refine ⟨missing, hmissing, ?_⟩
      rw [hfirst, List.replicate_zero, List.append_nil, ← List.append_assoc,
        List.take_append_drop]
    · -- the last group is short, and nothing is left after it
      have htake : l.take 7 = l := List.take_of_length_le (by omega)
      have hdrop : l.drop 7 = [] := List.drop_of_length_le (by omega)
      have hlast := bits_ofBits l (7 - l.length)
      rw [Nat.add_sub_cancel' (by omega)] at hlast
      refine ⟨7 - l.length, by omega, ?_⟩
      have hnone : missing = 0 := by simpa [hdrop, groups] using hrest
      rw [htake, hlast, hdrop, hnone, List.replicate_zero, List.append_nil, List.append_nil]

/-- Each group has seven bits. -/
theorem lt_of_mem_groups {l : List Bool} {n : Nat} (hn : n ∈ groups l) : n < 128 := by
  induction l using groups.induct with
  | case1 l hempty => simp [groups, hempty] at hn
  | case2 l hempty ih =>
    rw [groups, if_neg hempty] at hn
    rcases List.mem_cons.mp hn with rfl | hrest
    · have hlt := ofBits_lt (l.take 7)
      have hwidth : 2 ^ (l.take 7).length ≤ 2 ^ 7 :=
        Nat.pow_le_pow_right (by decide) (List.length_take_le 7 l)
      omega
    · exact ih hrest

/-- The bits of a byte. -/
def byteBits (byte : UInt8) : List Bool := bits 8 byte.toNat

/-- Bits that fill no byte are dropped. -/
theorem bytesOfBits_eq_nil {l : List Bool} (hl : l.length < 8) : bytesOfBits l = [] := by
  unfold bytesOfBits
  split
  · simp only [List.length_cons] at hl
    omega
  · rfl

/-- The bits of a byte give it back, and the others what they spell. -/
theorem bytesOfBits_cons (byte : UInt8) (rest : List Bool) :
    bytesOfBits (byteBits byte ++ rest) = byte :: bytesOfBits rest := by
  have hbyte : UInt8.ofNat (ofBits (byteBits byte)) = byte := by
    rw [byteBits, ofBits_bits, Nat.mod_eq_of_lt byte.toNat_lt, UInt8.ofNat_toNat]
  exact congrArg (· :: bytesOfBits rest) hbyte

/-- Bytes come back from their bits, whatever is too short for a byte after them. -/
theorem bytesOfBits_flatMap (bytes : List UInt8) {rest : List Bool} (hrest : rest.length < 8) :
    bytesOfBits (bytes.flatMap byteBits ++ rest) = bytes := by
  induction bytes with
  | nil => exact bytesOfBits_eq_nil hrest
  | cons byte others ih => rw [List.flatMap_cons, List.append_assoc, bytesOfBits_cons, ih]

/-- Characters that stand for bytes. -/
theorem charBytes_ofNat {codes : List Nat} (hcodes : ∀ code ∈ codes, code < 256) :
    charBytes (codes.map Char.ofNat) = .ok (codes.map UInt8.ofNat) := by
  induction codes with
  | nil => rfl
  | cons code rest ih =>
    have hcode := hcodes code List.mem_cons_self
    have hvalid : code.isValidChar := Or.inl (by omega)
    have hchar : (Char.ofNat code).toNat = code := by
      rw [Char.ofNat, dif_pos hvalid]
      rfl
    rw [List.map_cons, charBytes, hchar, if_pos hcode]
    exact Except.map_ok _ (ih fun other hother => hcodes other (List.mem_cons_of_mem code hother))

/-- The layouts that have a marker. -/
inductive Layout where
  /-- Every character is a byte. -/
  | bytewise
  /-- Every character holds seven bits. -/
  | sevenBits
  deriving DecidableEq

/-- The characters that bytes are packed into. -/
def Layout.characters (bytes : List UInt8) : Layout → List Char
  | bytewise => '\x00' :: (bytes.map UInt8.toNat).map Char.ofNat
  | sevenBits =>
    '\x01' :: ((groups (bytes.flatMap byteBits)).map fun group => (group + 1) % 128).map Char.ofNat

/-- Strings that spell bytes in a layout, cut anywhere but before the marker. -/
structure Layout.Spells (layout : Layout) (strings : List String) (bytes : List UInt8) :
    Prop where
  /-- Together the strings have the characters of the layout. -/
  characters : strings.flatMap String.toList = layout.characters bytes
  /-- The first string is not empty, as it begins with the marker. -/
  first : strings.head? ≠ some ""

/-- All bytes can be spelled by a single string. -/
theorem Layout.spells_ofList (layout : Layout) (bytes : List UInt8) :
    layout.Spells [String.ofList (layout.characters bytes)] bytes := by
  refine ⟨by simp, ?_⟩
  rw [List.head?_cons, ne_eq, Option.some.injEq, ← String.toList_inj, String.toList_ofList]
  cases layout <;> exact List.cons_ne_nil _ _

/-- The marker is there in any case. -/
theorem Layout.Spells.ne_nil {layout : Layout} {strings : List String} {bytes : List UInt8}
    (h : layout.Spells strings bytes) : strings ≠ [] := by
  intro hnil
  have hcharacters := h.characters
  rw [hnil] at hcharacters
  cases layout <;> simp [Layout.characters] at hcharacters

/-- The character that tells the layout is the first of all. -/
theorem head?_of_first {strings : List String} (hfirst : strings.head? ≠ some "") :
    strings.head?.bind (fun first => first.toList.head?)
      = (strings.flatMap String.toList).head? := by
  cases strings with
  | nil => rfl
  | cons first rest =>
    cases hchars : first.toList with
    | nil => exact absurd (by simp [String.toList_eq_nil_iff.mp hchars]) hfirst
    | cons c others => simp [hchars]

/-- Bytes are given back from the characters with their numbers. -/
theorem charBytes_toNat (bytes : List UInt8) :
    charBytes ((bytes.map UInt8.toNat).map Char.ofNat) = .ok bytes := by
  rw [charBytes_ofNat, List.map_map]
  · simp [Function.comp_def]
  · intro code hcode
    obtain ⟨byte, -, rfl⟩ := List.mem_map.mp hcode
    exact byte.toNat_lt

/-- A group of seven bits is stored one too high. -/
theorem sevenBits_ofNat {group : Nat} (hgroup : group < 128) :
    sevenBits (UInt8.ofNat ((group + 1) % 128)) = bits 7 group := by
  rw [sevenBits, UInt8.toNat_ofNat', show ((group + 1) % 128 % 2 ^ 8 + 127) % 128 = group by omega]

/-- Bytes are given back from their groups of seven bits. -/
theorem unpackSevenBits_groups (bytes : List UInt8) :
    unpackSevenBits (((groups (bytes.flatMap byteBits)).map fun group => (group + 1) % 128).map
      UInt8.ofNat) = bytes := by
  obtain ⟨missing, hmissing, hbits⟩ := exists_flatMap_groups (bytes.flatMap byteBits)
  have hgroups : (((groups (bytes.flatMap byteBits)).map fun group => (group + 1) % 128).map
      UInt8.ofNat).flatMap sevenBits = (groups (bytes.flatMap byteBits)).flatMap (bits 7) := by
    rw [List.map_map, List.flatMap_map]
    exact List.flatMap_congr fun group hgroup => sevenBits_ofNat (lt_of_mem_groups hgroup)
  rw [unpackSevenBits, hgroups, hbits, bytesOfBits_flatMap]
  rw [List.length_replicate]
  omega

/-- The bytes come back from strings that spell them. -/
theorem Layout.Spells.unpack {layout : Layout} {strings : List String} {bytes : List UInt8}
    (h : layout.Spells strings bytes) : Packing.unpack strings = .ok bytes := by
  have hmarker := head?_of_first h.first
  rw [h.characters] at hmarker
  rw [Packing.unpack, h.characters]
  cases layout with
  | bytewise =>
    rw [hmarker]
    exact charBytes_toNat bytes
  | sevenBits =>
    rw [hmarker]
    refine (Except.map_ok unpackSevenBits (charBytes_ofNat ?_)).trans ?_
    · intro code hcode
      obtain ⟨group, -, rfl⟩ := List.mem_map.mp hcode
      omega
    · rw [unpackSevenBits_groups]

end LineAtlas.Metadata.Packing
