import LineAtlas.Exchange.AsJson
import LineAtlas.Exchange.AsYaml
import LineAtlas.Proofs.Lists

/-!
# Numbers in decimal digits

The digits of a number spell it again, and the first of several is not zero. So a number is read
back wherever its digits stand, whatever else digits could start.
-/

namespace LineAtlas

namespace Text

/-- The value of digits does not depend on whether they are characters or numbers. -/
theorem ofDigits_map_eq (digits : List Char) :
    ofDigits 10 (digits.map fun c => c.toNat - '0'.toNat) = Nat.ofDigitChars 10 digits 0 := by
  rw [ofDigits, Nat.ofDigitChars, List.foldl_map]
  simp only [Nat.mul_comm]

/-- The digits of a number are digits. -/
theorem isDigit_of_mem {n : Nat} {c : Char} (hc : c ∈ Nat.toDigits 10 n) : c.isDigit = true :=
  Nat.isDigit_of_mem_toDigits (by decide) (Nat.le_refl 10) hc

/-- Every number has at least one digit, and nothing else. -/
theorem isDigits_toDigits (n : Nat) : isDigits (Nat.toDigits 10 n) = true := by
  have hall : (Nat.toDigits 10 n).all Char.isDigit = true :=
    List.all_eq_true.mpr fun c hc => isDigit_of_mem hc
  simp [isDigits, hall, Nat.toDigits_ne_nil]

/-- A number is read back from its digits. -/
theorem decimal?_toDigits (n : Nat) : decimal? (Nat.toDigits 10 n) = some n := by
  rw [decimal?, if_pos (isDigits_toDigits n), ofDigits_map_eq,
    Nat.ofDigitChars_toDigits (by decide) (Nat.le_refl 10)]

/-- Only zero itself starts with a zero. -/
theorem toDigits_ne_zero_cons (n : Nat) (c : Char) (rest : List Char) :
    Nat.toDigits 10 n ≠ '0' :: c :: rest := by
  induction n using Nat.strongRecOn generalizing c rest with
  | ind n ih =>
    rw [Nat.toDigits_eq_if (by decide)]
    split
    next => simp
    next hn =>
      intro heq
      have hdiv : n / 10 < n := by omega
      -- the last digit is no part of the front, which has a digit of its own
      match hfront : Nat.toDigits 10 (n / 10) with
      | [] => exact Nat.toDigits_ne_nil hfront
      | [d] =>
        rw [hfront] at heq
        obtain rfl : d = '0' := by simpa using congrArg List.head? heq
        have hzero := Nat.ofDigitChars_toDigits (b := 10) (n := n / 10) (by decide) (by decide)
        rw [hfront] at hzero
        have : n / 10 = 0 := by rw [← hzero]; rfl
        omega
      | d :: e :: more =>
        rw [hfront] at heq
        obtain rfl : d = '0' := by simpa using congrArg List.head? heq
        exact ih (n / 10) hdiv e more hfront

end Text

namespace Exchange.Node

/-- The text of a number is plain: it has no sign and no leading zero. -/
theorem plainDecimal?_toString (n : Nat) : plainDecimal? (toString n) = some n := by
  rw [plainDecimal?, Nat.toString_eq_repr, Nat.toList_repr]
  split
  next heq => exact absurd heq (Text.toDigits_ne_zero_cons n _ _)
  next => exact Text.decimal?_toDigits n

end Exchange.Node

namespace Yaml.Plain

variable {digits : List Char}

/-- A digit has its value below ten. -/
theorem digit?_eq {c : Char} (hc : c.isDigit = true) :
    (digit? c).filter (· < 10) = some (c.toNat - '0'.toNat) := by
  have hbound : c.toNat - '0'.toNat < 10 := by
    simp only [Char.isDigit, Bool.and_eq_true, decide_eq_true_eq, UInt32.le_iff_toNat_le] at hc
    change c.val.toNat - 48 < 10
    have : c.val.toNat ≤ 57 := hc.2
    omega
  rw [digit?, if_pos hc, Option.filter_some, if_pos (by simpa using hbound)]

/-- Digits are the number that they spell in decimal, as none of them is a mark of another base. -/
theorem magnitude?_eq (hdigits : ∀ c ∈ digits, c.isDigit = true) (hne : digits ≠ []) :
    magnitude? digits = some (Text.ofDigits 10 (digits.map fun c => c.toNat - '0'.toNat)) := by
  have hbase : inBase? 10 digits
      = some (Text.ofDigits 10 (digits.map fun c => c.toNat - '0'.toNat)) := by
    have hread : digits.mapM (fun c => (digit? c).filter (· < 10))
        = some (digits.map fun c => c.toNat - '0'.toNat) :=
      Lists.mapM_eq_some fun c hc => digit?_eq (hdigits c hc)
    rw [inBase?, if_neg (by simpa using hne), hread]
    rfl
  unfold magnitude?
  split
  next => exact absurd (hdigits 'x' (by simp)) (by decide)
  next => exact absurd (hdigits 'o' (by simp)) (by decide)
  next => exact absurd (hdigits 'b' (by simp)) (by decide)
  next => exact hbase

/-- A number is read back also where other bases are possible. -/
theorem natural?_toDigits (n : Nat) : natural? (Nat.toDigits 10 n) = some n := by
  have hdigits : ∀ c ∈ Nat.toDigits 10 n, c.isDigit = true := fun c hc => Text.isDigit_of_mem hc
  have hpadded : isZeroPadded (Nat.toDigits 10 n) = false := by
    unfold isZeroPadded
    split
    next heq => exact absurd (hdigits '-' (by rw [heq]; simp)) (by decide)
    next heq => exact absurd (hdigits '+' (by rw [heq]; simp)) (by decide)
    next =>
      dsimp only
      split
      next heq => exact absurd heq (Text.toDigits_ne_zero_cons n _ _)
      next => rfl
  have hmagnitude : magnitude? (Nat.toDigits 10 n) = some n := by
    rw [magnitude?_eq hdigits Nat.toDigits_ne_nil, Text.ofDigits_map_eq,
      Nat.ofDigitChars_ten_toDigits]
  unfold natural?
  rw [hpadded]
  split
  next h => cases h
  next =>
    split
    next heq => exact absurd (hdigits '+' (by rw [heq]; simp)) (by decide)
    next => exact hmagnitude

end Yaml.Plain

end LineAtlas
