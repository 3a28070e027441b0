import Mathlib.Algebra.Group.Nat.Defs
import LineAtlas.Metadata.Decode

/-!
# Flag words

What the bits of a flag word mean, read off the bits of the word. Functions and properties have
an older layout, in which two more bits stand between the visibility and the rest.
-/

namespace LineAtlas.Metadata

/-- The visibility that three bits stand for; unknown values count as public. -/
def visibilityOf (bits : BitVec 3) : Visibility :=
  match bits with
  | 0 => .internalUse
  | 1 => .privateUse
  | 2 => .protectedUse
  | 4 => .privateToThis
  | 5 => .localUse
  | _ => .publicUse

/-- The kind of class that three bits stand for; unknown values count as plain. -/
def classKindOf (bits : BitVec 3) : ClassKind :=
  match bits with
  | 1 => .interface
  | 2 => .enumClass
  | 3 => .enumEntry
  | 4 => .annotationClass
  | 5 => .object
  | 6 => .companionObject
  | _ => .plain

/-- How a member came to exist, by two bits. -/
def memberKindOf (bits : BitVec 2) : MemberKind :=
  match bits with
  | 0 => .declaration
  | 1 => .fakeOverride
  | 2 => .delegation
  | 3 => .synthesized

/-- Bits are taken by dividing off the lower ones and leaving the higher ones. -/
theorem bitsOfFlags_eq (flags : Int) (lowest width : Nat) :
    bitsOfFlags flags lowest width = flags / (2 ^ lowest : Nat) % (2 ^ width : Nat) := rfl

/-- Bits are taken from a word in the same way whether it is read with or without sign. -/
theorem bitsOfFlags_toInt (flags : BitVec 32) {lowest width : Nat} (h : lowest + width ≤ 32) :
    bitsOfFlags flags.toInt lowest width = (flags.extractLsb' lowest width).toNat := by
  have hpow : (2 ^ 32 : Nat) = 2 ^ (32 - lowest - width) * 2 ^ width * 2 ^ lowest := by
    rw [← Nat.pow_add, ← Nat.pow_add]
    congr 1
    omega
  -- the sign adds a multiple of what lies above the bits
  obtain ⟨sign, hsign⟩ : ∃ sign : Int, flags.toInt
      = flags.toNat + sign * (2 ^ (32 - lowest - width) : Nat) * (2 ^ width : Nat)
        * (2 ^ lowest : Nat) := by
    by_cases hneg : 2 * flags.toNat < 2 ^ 32
    · refine ⟨0, ?_⟩
      rw [BitVec.toInt_eq_toNat_cond, if_pos hneg]
      simp
    · refine ⟨-1, ?_⟩
      rw [BitVec.toInt_eq_toNat_cond, if_neg hneg, hpow, Int.sub_eq_add_neg, Int.neg_one_mul,
        Int.neg_mul, Int.neg_mul, Int.natCast_mul, Int.natCast_mul]
  have hlow : ((2 ^ lowest : Nat) : Int) ≠ 0 :=
    Int.natCast_ne_zero.mpr (Nat.ne_of_gt (Nat.two_pow_pos lowest))
  rw [bitsOfFlags_eq, hsign, Int.add_mul_ediv_right _ _ hlow, Int.add_mul_emod_self_right,
    BitVec.extractLsb'_toNat, Nat.shiftRight_eq_div_pow, Int.natCast_emod, Int.natCast_ediv]

/-- A flag is a bit of the word. -/
theorem hasFlag_toInt (flags : BitVec 32) {bit : Nat} (hbit : bit < 32) :
    hasFlag flags.toInt bit = flags.getLsbD bit := by
  rw [hasFlag, bitsOfFlags_toInt flags (by omega), BitVec.getLsbD_eq_extractLsb']
  generalize flags.extractLsb' bit 1 = b
  revert b
  decide

/-- Three bits of the word say who may use a member. -/
theorem Visibility.ofFlags_toInt (flags : BitVec 32) :
    Visibility.ofFlags flags.toInt = visibilityOf (flags.extractLsb' 1 3) := by
  rw [Visibility.ofFlags, bitsOfFlags_toInt flags (by decide)]
  generalize flags.extractLsb' 1 3 = b
  revert b
  decide

/-- Three bits of the word say what kind a class is of. -/
theorem ClassKind.ofFlags_toInt (flags : BitVec 32) :
    ClassKind.ofFlags flags.toInt = classKindOf (flags.extractLsb' 6 3) := by
  rw [ClassKind.ofFlags, bitsOfFlags_toInt flags (by decide)]
  generalize flags.extractLsb' 6 3 = b
  revert b
  decide

/-- The flags of a function or property as they are written. -/
inductive MemberFlags where
  /-- In the newer layout. -/
  | newer (flags : BitVec 32)
  /-- In the older layout. -/
  | older (flags : BitVec 32)
  /-- Not at all. -/
  | omitted

namespace MemberFlags

/-- The word that is written, or else a word in the older layout that stands for it. -/
def word (default : BitVec 32) : MemberFlags → BitVec 32
  | newer flags => flags
  | older flags => flags
  | omitted => default

/-- The number of bits between the visibility and the rest that mean nothing. -/
def gap : MemberFlags → Nat
  | newer _ => 0
  | older _ => 2
  | omitted => 2

/-- Who may use the member. -/
def visibility (default : BitVec 32) (f : MemberFlags) : Visibility :=
  visibilityOf ((f.word default).extractLsb' 1 3)

/-- How the member came to exist. -/
def kind (default : BitVec 32) (f : MemberFlags) : MemberKind :=
  memberKindOf ((f.word default).extractLsb' (6 + f.gap) 2)

/-- Whether a bit beyond the visibility is set, by its position in the newer layout. -/
def flag (default : BitVec 32) (f : MemberFlags) (bit : Nat) : Bool :=
  (f.word default).getLsbD (bit + f.gap)

/-- The flags as they are read. -/
def value (default : BitVec 32) : MemberFlags → Int
  | newer flags => flags.toInt
  | older flags => ofOldFlags flags.toInt
  | omitted => ofOldFlags default.toInt

/-- In the older layout, the bits beyond the visibility lie two positions higher. -/
theorem bitsOfFlags_ofOldFlags (flags : Int) (bit width : Nat) :
    bitsOfFlags (ofOldFlags flags) (6 + bit) width = bitsOfFlags flags (8 + bit) width := by
  have hrest : ofOldFlags flags / 64 = flags / 256 := by
    rw [ofOldFlags]
    omega
  rw [bitsOfFlags_eq, bitsOfFlags_eq, Nat.pow_add, Nat.pow_add, Int.natCast_mul, Int.natCast_mul,
    ← Int.ediv_ediv_of_nonneg (by decide), ← Int.ediv_ediv_of_nonneg (by decide)]
  exact congrArg (· / ((2 ^ bit : Nat) : Int) % ((2 ^ width : Nat) : Int)) hrest

/-- Both layouts have the visibility in the same place. -/
theorem ofFlags_ofOldFlags (flags : Int) :
    Visibility.ofFlags (ofOldFlags flags) = Visibility.ofFlags flags := by
  have hbits : bitsOfFlags (ofOldFlags flags) 1 3 = bitsOfFlags flags 1 3 := by
    change (flags % 64 + flags / 256 * 64) / 2 % 8 = flags / 2 % 8
    omega
  rw [Visibility.ofFlags, Visibility.ofFlags, hbits]

/-- Behind the visibility the older layout is read as the newer one, two bits further up. -/
theorem bitsOfFlags_value (default : BitVec 32) (f : MemberFlags) {bit width : Nat}
    (h : 8 + bit + width ≤ 32) :
    bitsOfFlags (f.value default) (6 + bit) width
      = ((f.word default).extractLsb' (6 + bit + f.gap) width).toNat := by
  cases f with
  | newer flags => exact bitsOfFlags_toInt flags (by omega)
  | older flags =>
    rw [value, bitsOfFlags_ofOldFlags, bitsOfFlags_toInt flags (by omega), word, gap,
      Nat.add_right_comm]
  | omitted =>
    rw [value, bitsOfFlags_ofOldFlags, bitsOfFlags_toInt default (by omega), word, gap,
      Nat.add_right_comm]

/-- The visibility of a member is that of its word, in either layout. -/
theorem ofFlags_visibility (default : BitVec 32) (f : MemberFlags) :
    Visibility.ofFlags (f.value default) = f.visibility default := by
  cases f with
  | newer flags => exact Visibility.ofFlags_toInt flags
  | older flags => exact (ofFlags_ofOldFlags _).trans (Visibility.ofFlags_toInt flags)
  | omitted => exact (ofFlags_ofOldFlags _).trans (Visibility.ofFlags_toInt default)

/-- How a member came to exist is read off its word, in either layout. -/
theorem ofFlags_kind (default : BitVec 32) (f : MemberFlags) :
    MemberKind.ofFlags (f.value default) = f.kind default := by
  have hbits := f.bitsOfFlags_value default (show 8 + 0 + 2 ≤ 32 by decide)
  rw [MemberKind.ofFlags, show 6 = 6 + 0 from rfl, hbits, kind, Nat.add_zero]
  generalize (f.word default).extractLsb' (6 + f.gap) 2 = b
  revert b
  decide

/-- A flag of a member is a bit of its word, in either layout. -/
theorem hasFlag_value (default : BitVec 32) (f : MemberFlags) {bit : Nat} (hbit : bit < 23) :
    hasFlag (f.value default) (6 + bit) = f.flag default (6 + bit) := by
  rw [hasFlag, f.bitsOfFlags_value default (by omega), flag, BitVec.getLsbD_eq_extractLsb']
  generalize (f.word default).extractLsb' (6 + bit + f.gap) 1 = b
  revert b
  decide

end MemberFlags

end LineAtlas.Metadata
