/-!
# UTF-16 code units

Characters beyond the basic plane are written as a pair of surrogates. Units that do not
form a pair are either refused or read as the replacement character.
-/

namespace LineAtlas.Text.Utf16

/-- Whether a unit is the first half of a pair. -/
def isHigh (unit : Nat) : Bool := 0xD800 ≤ unit && unit < 0xDC00

/-- Whether a unit is the second half of a pair. -/
def isLow (unit : Nat) : Bool := 0xDC00 ≤ unit && unit < 0xE000

/-- The character of a pair. -/
def pair (high low : Nat) : Char :=
  Char.ofNat (0x10000 + (high - 0xD800) * 0x400 + (low - 0xDC00))

/-- The character that stands for what cannot be decoded. -/
def replacement : Char := '\ufffd'

/-- The text of a sequence of units; each unpaired surrogate becomes a replacement
character. -/
def decode : List Nat → List Char
  | [] => []
  | high :: low :: rest =>
    if isHigh high && isLow low then pair high low :: decode rest
    else if isHigh high || isLow high then replacement :: decode (low :: rest)
    else Char.ofNat high :: decode (low :: rest)
  | [unit] => if isHigh unit || isLow unit then [replacement] else [Char.ofNat unit]

/-- The units of a character. -/
def encodeChar (c : Char) : List Nat :=
  if c.toNat < 0x10000 then [c.toNat]
  else
    let offset := c.toNat - 0x10000
    [0xD800 + offset / 0x400, 0xDC00 + offset % 0x400]

end LineAtlas.Text.Utf16
