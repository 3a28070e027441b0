import LineAtlas.Text.Split

/-!
# Decimal numbers

The number that a run of ASCII digits spells.
-/

namespace LineAtlas.Text

/-- The number that digits of a base spell, most significant first. -/
def ofDigits (base : Nat) (digits : List Nat) : Nat :=
  digits.foldl (fun value digit => value * base + digit) 0

/-- The number that a nonempty run of ASCII digits spells. -/
def decimal? (text : List Char) : Option Nat :=
  if isDigits text then some (ofDigits 10 (text.map fun c => c.toNat - '0'.toNat)) else none

end LineAtlas.Text
