import LineAtlas.Proofs.Metadata.Packed

/-!
# Unpacking by index

Bytes that are packed seven bits at a time can be put together from two neighbouring groups each,
found by index. The indexes stay inside whatever the number of groups is, and the bytes are those
that the bits spell. Packed strings give their bytes back in each of their layouts.
-/

namespace LineAtlas.Metadata.Packing

/-- A byte from the high bits of a group and the low bits of the next one. -/
def joined (first second : UInt8) (bit : Nat) : UInt8 :=
  UInt8.ofNat (first.toNat >>> bit + (second.toNat &&& (2 ^ (bit + 1) - 1)) <<< (7 - bit))

/-- A given number of bytes, from a bit of the group at an index on. Nothing comes of an index
outside. -/
def unpackFrom (groups : List UInt8) : Nat → Nat → Nat → Option (List UInt8)
  | 0, _, _ => some []
  | count + 1, index, bit => do
    let first ← groups[index]?
    let second ← groups[index + 1]?
    let rest ← unpackFrom groups count (if bit = 6 then index + 2 else index + 1)
      (if bit = 6 then 0 else bit + 1)
    return joined first second bit :: rest

/-- All bytes that groups of seven bits hold. -/
def unpackByIndex (groups : List UInt8) : Option (List UInt8) :=
  unpackFrom groups (7 * groups.length / 8) 0 0

/-- The group that is stored as a byte. -/
def groupOf (stored : UInt8) : UInt8 := (stored + 127) &&& 127

/-- A number has as many bits as are asked for. -/
theorem length_bits (width n : Nat) : (bits width n).length = width := by
  induction width generalizing n with
  | zero => rfl
  | succ width ih => rw [bits, List.length_cons, ih]

/-- The low bits of a number, and those above them. -/
theorem bits_add (low high n : Nat) :
    bits (low + high) n = bits low n ++ bits high (n / 2 ^ low) := by
  induction low generalizing n with
  | zero => simp [bits]
  | succ low ih =>
    rw [Nat.add_right_comm, bits, bits, ih, Nat.div_div_eq_div_mul, Nat.pow_succ', List.cons_append]

/-- Only the low bits of a number count. -/
theorem bits_mod (width n : Nat) : bits width (n % 2 ^ width) = bits width n := by
  have hlength := length_bits width n
  have hback := bits_ofBits (bits width n) 0
  rwa [hlength, Nat.add_zero, ofBits_bits, List.replicate_zero, List.append_nil] at hback

/-- The bits of a number are determined by what fits them. -/
theorem bits_congr {width m n : Nat} (h : m % 2 ^ width = n % 2 ^ width) :
    bits width m = bits width n := by
  rw [← bits_mod width m, h, bits_mod]

/-- The bits of a byte that is put together are those of its two parts. -/
theorem byteBits_joined {first second : UInt8} {bit : Nat} (hbit : bit < 7)
    (hfirst : first.toNat < 128) :
    byteBits (joined first second bit)
      = bits (7 - bit) (first.toNat / 2 ^ bit) ++ bits (bit + 1) second.toNat := by
  have hpow : 2 ^ bit * 2 ^ (7 - bit) = 128 := by
    rw [← Nat.pow_add, Nat.add_sub_cancel' (Nat.le_of_lt hbit)]
  have hwhole : 2 ^ (7 - bit) * 2 ^ (bit + 1) = 256 := by
    rw [Nat.pow_succ', Nat.mul_left_comm, Nat.mul_comm (2 ^ (7 - bit)), hpow]
  have hhigh : first.toNat / 2 ^ bit < 2 ^ (7 - bit) := by
    rw [Nat.div_lt_iff_lt_mul (Nat.two_pow_pos bit), Nat.mul_comm, hpow]
    exact hfirst
  have hlow : second.toNat % 2 ^ (bit + 1) < 2 ^ (bit + 1) := Nat.mod_lt _ (Nat.two_pow_pos _)
  have hvalue : (joined first second bit).toNat
      = first.toNat / 2 ^ bit + 2 ^ (7 - bit) * (second.toNat % 2 ^ (bit + 1)) := by
    have hfits : first.toNat / 2 ^ bit + 2 ^ (7 - bit) * (second.toNat % 2 ^ (bit + 1)) < 256 := by
      have hstep := Nat.mul_le_mul_left (2 ^ (7 - bit)) (Nat.succ_le_of_lt hlow)
      rw [Nat.mul_succ, hwhole] at hstep
      omega
    rw [joined, UInt8.toNat_ofNat', Nat.shiftRight_eq_div_pow, Nat.and_two_pow_sub_one_eq_mod,
      Nat.shiftLeft_eq, Nat.mul_comm (second.toNat % _), Nat.mod_eq_of_lt hfits]
  have hwidth : 8 = (7 - bit) + (bit + 1) := by omega
  rw [byteBits, hvalue, hwidth, bits_add]
  congr 1
  · refine bits_congr ?_
    rw [Nat.add_mul_mod_self_left]
  · rw [Nat.add_mul_div_left _ _ (Nat.two_pow_pos _), Nat.div_eq_of_lt hhigh, Nat.zero_add,
      bits_mod]

/-- The bits of groups. -/
def groupBits (groups : List UInt8) : List Bool := groups.flatMap fun group => bits 7 group.toNat

/-- The bits of groups begin with those of the first one. -/
theorem groupBits_cons (group : UInt8) (groups : List UInt8) :
    groupBits (group :: groups) = bits 7 group.toNat ++ groupBits groups := List.flatMap_cons

/-- A group has seven bits. -/
theorem length_groupBits (groups : List UInt8) : (groupBits groups).length = 7 * groups.length := by
  induction groups with
  | nil => rfl
  | cons group groups ih =>
    rw [groupBits_cons, List.length_append, ih, length_bits, List.length_cons]
    omega

/-- Eight bits from a bit of the first group on, and what is behind them. -/
theorem drop_groupBits {first second : UInt8} {bit : Nat} (hbit : bit < 7)
    (hfirst : first.toNat < 128) (rest : List UInt8) :
    (groupBits (first :: second :: rest)).drop bit
      = byteBits (joined first second bit) ++ (groupBits (second :: rest)).drop (bit + 1) := by
  have hone : bits 7 first.toNat
      = bits bit first.toNat ++ bits (7 - bit) (first.toNat / 2 ^ bit) := by
    rw [← bits_add, Nat.add_sub_cancel' (Nat.le_of_lt hbit)]
  have htwo : bits 7 second.toNat
      = bits (bit + 1) second.toNat ++ bits (7 - (bit + 1)) (second.toNat / 2 ^ (bit + 1)) := by
    rw [← bits_add, Nat.add_sub_cancel' (by omega)]
  rw [byteBits_joined hbit hfirst, groupBits_cons, groupBits_cons, hone, htwo]
  have hlengthOne := length_bits bit first.toNat
  have hlengthTwo := length_bits (bit + 1) second.toNat
  rw [List.append_assoc, List.drop_append_of_le_length (Nat.le_of_eq hlengthOne.symm),
    List.drop_of_length_le (Nat.le_of_eq hlengthOne), List.nil_append, List.append_assoc,
    List.append_assoc, List.drop_append_of_le_length (Nat.le_of_eq hlengthTwo.symm),
    List.drop_of_length_le (Nat.le_of_eq hlengthTwo), List.nil_append]

/-- As many bytes are found as are left, and they are the bytes of the bits that are left. -/
theorem exists_unpackFrom (front rest : List UInt8) {count bit : Nat} (hbit : bit < 7)
    (hcount : count = (7 * rest.length - bit) / 8) :
    ∃ bytes, unpackFrom (front ++ rest) count front.length bit = some bytes ∧
      ((∀ group ∈ rest, group.toNat < 128) → bytes = bytesOfBits ((groupBits rest).drop bit)) := by
  induction count generalizing front rest bit with
  | zero =>
    refine ⟨[], rfl, fun _ => (bytesOfBits_eq_nil ?_).symm⟩
    rw [List.length_drop, length_groupBits]
    omega
  | succ count ih =>
    -- a byte is left only where two groups are
    obtain ⟨first, second, rest, rfl⟩ : ∃ first second tail, rest = first :: second :: tail := by
      match rest with
      | [] => simp at hcount
      | [_] =>
        simp only [List.length_singleton] at hcount
        omega
      | first :: second :: tail => exact ⟨first, second, tail, rfl⟩
    simp only [List.length_cons] at hcount
    have hfirst : (front ++ first :: second :: rest)[front.length]? = some first := by simp
    have hsecond : (front ++ first :: second :: rest)[front.length + 1]? = some second := by
      rw [List.getElem?_append_right (by omega), Nat.add_sub_cancel_left]
      rfl
    have hnext : ∃ bytes, unpackFrom (front ++ first :: second :: rest) count
          (if bit = 6 then front.length + 2 else front.length + 1)
          (if bit = 6 then 0 else bit + 1) = some bytes ∧
        ((∀ group ∈ second :: rest, group.toNat < 128) →
          bytes = bytesOfBits ((groupBits (second :: rest)).drop (bit + 1))) := by
      by_cases hlast : bit = 6
      · -- nothing is left of the second group
        have hrest := ih (front ++ [first, second]) rest (show 0 < 7 by decide) (by omega)
        rw [List.append_assoc, List.length_append] at hrest
        obtain ⟨bytes, hbytes, hvalue⟩ := hrest
        rw [if_pos hlast, if_pos hlast]
        refine ⟨bytes, hbytes, fun hsmall => ?_⟩
        rw [hvalue (List.forall_mem_cons.mp hsmall).2, hlast, groupBits_cons,
          List.drop_append_of_le_length (Nat.le_of_eq (length_bits 7 _).symm),
          List.drop_of_length_le (Nat.le_of_eq (length_bits 7 _)), List.nil_append, List.drop_zero]
      · have hrest := ih (front ++ [first]) (second :: rest) (show bit + 1 < 7 by omega)
          (by simp only [List.length_cons]; omega)
        rw [if_neg hlast, if_neg hlast]
        rwa [List.append_assoc, List.length_append] at hrest
    obtain ⟨bytes, hbytes, hvalue⟩ := hnext
    refine ⟨joined first second bit :: bytes, ?_, fun hsmall => ?_⟩
    · simp only [unpackFrom, hfirst, hsecond, Option.bind_eq_bind, Option.bind_some, hbytes]
      rfl
    · obtain ⟨hsmallFirst, hsmallRest⟩ := List.forall_mem_cons.mp hsmall
      rw [drop_groupBits hbit hsmallFirst, bytesOfBits_cons, hvalue hsmallRest]

/-- Unpacking never asks for a group outside, whatever the number of groups is. -/
theorem isSome_unpackByIndex (groups : List UInt8) : (unpackByIndex groups).isSome := by
  obtain ⟨bytes, hbytes, -⟩ := exists_unpackFrom [] groups (show 0 < 7 by decide) rfl
  exact Option.isSome_iff_exists.mpr ⟨bytes, hbytes⟩

/-- A group is stored with one added, and zero stands for the highest group. -/
theorem toNat_groupOf (stored : UInt8) : (groupOf stored).toNat = (stored.toNat + 127) % 128 := by
  have hmask : (127 : UInt8).toNat = 2 ^ 7 - 1 := rfl
  have hadded : (127 : UInt8).toNat = 127 := rfl
  rw [groupOf, UInt8.toNat_and, hmask, Nat.and_two_pow_sub_one_eq_mod, UInt8.toNat_add, hadded]
  omega

/-- Unpacking by index gives the bytes that the bits spell. -/
theorem unpackByIndex_groupOf (packed : List UInt8) :
    unpackByIndex (packed.map groupOf) = some (unpackSevenBits packed) := by
  obtain ⟨bytes, hbytes, hvalue⟩ :=
    exists_unpackFrom [] (packed.map groupOf) (show 0 < 7 by decide) rfl
  have hsmall : ∀ group ∈ packed.map groupOf, group.toNat < 128 := by
    intro group hgroup
    obtain ⟨stored, -, rfl⟩ := List.mem_map.mp hgroup
    rw [toNat_groupOf]
    exact Nat.mod_lt _ (by decide)
  have hbits : groupBits (packed.map groupOf) = packed.flatMap sevenBits := by
    rw [groupBits, List.flatMap_map]
    exact List.flatMap_congr fun stored _ => by rw [toNat_groupOf, sevenBits]
  rw [unpackByIndex, unpackSevenBits, ← hbits, ← List.drop_zero (l := groupBits _), ← hvalue hsmall]
  exact hbytes

/-- Packed characters behind the marker are the stored groups. -/
theorem charBytes_groups (bytes : List UInt8) :
    charBytes (Layout.sevenBits.characters bytes).tail
      = .ok (((groups (bytes.flatMap byteBits)).map fun group => (group + 1) % 128).map
        UInt8.ofNat) := by
  refine charBytes_ofNat fun code hcode => ?_
  obtain ⟨group, -, rfl⟩ := List.mem_map.mp hcode
  omega

/-- The denser layout can do without a marker as long as it does not begin like one. -/
theorem unpack_unmarked {strings : List String} {bytes : List UInt8}
    (hspells : strings.flatMap String.toList = (Layout.sevenBits.characters bytes).tail)
    (hfirst : ∀ c ∈ (strings.flatMap String.toList).head?, c ≠ '\x00' ∧ c ≠ '\x01') :
    unpack strings = .ok bytes := by
  have hplain : unpack strings
      = unpackSevenBits <$> charBytes (strings.flatMap String.toList) := by
    have hmarker (c : Char) (hc : strings.head?.bind (·.toList.head?) = some c) :
        c ≠ '\x00' ∧ c ≠ '\x01' := by
      cases strings with
      | nil => simp at hc
      | cons first rest =>
        have hhead : first.toList.head? = some c := hc
        refine hfirst c ?_
        rw [List.flatMap_cons, List.head?_append, hhead]
        rfl
    rw [unpack]
    split
    · next hzero => exact absurd rfl (hmarker _ hzero).1
    · next hone => exact absurd rfl (hmarker _ hone).2
    · rfl
  rw [hplain, hspells, charBytes_groups]
  exact Except.map_ok unpackSevenBits rfl |>.trans (congrArg _ (unpackSevenBits_groups bytes))

/-- Where strings are cut does not matter as long as the first one is not empty. -/
theorem unpack_congr {one two : List String} (hone : one.head? ≠ some "")
    (htwo : two.head? ≠ some "") (h : one.flatMap String.toList = two.flatMap String.toList) :
    unpack one = unpack two := by
  rw [unpack, unpack, head?_of_first hone, head?_of_first htwo, h]

/-- Bytes come back from the strings that they are packed into: in both layouts with their marker,
and in the denser one also without it, unless that begins like a marker. Only the characters of
the strings count, not their ends, as long as the first one is not empty. Unpacking can go by
index, and no index is ever outside. -/
theorem unpack_invertsLayouts (bytes : List UInt8) (strings : List String) :
    (∀ layout : Layout, layout.Spells strings bytes → unpack strings = .ok bytes) ∧
    (strings.flatMap String.toList = (Layout.sevenBits.characters bytes).tail →
      (∀ c ∈ (strings.flatMap String.toList).head?, c ≠ '\x00' ∧ c ≠ '\x01') →
        unpack strings = .ok bytes) ∧
    (∀ others : List String, strings.head? ≠ some "" → others.head? ≠ some "" →
      strings.flatMap String.toList = others.flatMap String.toList →
        unpack strings = unpack others) ∧
    (∀ stored, unpackByIndex (stored.map groupOf) = some (unpackSevenBits stored)) ∧
    ∀ groups, (unpackByIndex groups).isSome :=
  ⟨fun _ hspells => hspells.unpack, unpack_unmarked, fun _ => unpack_congr,
    unpackByIndex_groupOf, isSome_unpackByIndex⟩

end LineAtlas.Metadata.Packing
