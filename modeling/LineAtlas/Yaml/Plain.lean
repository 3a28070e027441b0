import LineAtlas.Text.Decimal

/-!
# Readings of plain scalars

A plain scalar can be null, a truth value, an integer or a floating-point number. Every
other plain scalar is text and nothing else.
-/

namespace LineAtlas.Yaml.Plain

/-- Whether a scalar is null. The empty scalar is null too, and is not covered here. -/
def isNullWord (text : String) : Bool :=
  text == "null" || text == "Null" || text == "NULL" || text == "~"

/-- The truth value that a scalar spells. -/
def truth? (text : String) : Option Bool :=
  if text == "true" || text == "True" || text == "TRUE" then some true
  else if text == "false" || text == "False" || text == "FALSE" then some false
  else none

/-- The value of a digit, up to sixteen. -/
def digit? (c : Char) : Option Nat :=
  if c.isDigit then some (c.toNat - '0'.toNat)
  else if 'a' ≤ c && c ≤ 'f' then some (c.toNat - 'a'.toNat + 10)
  else if 'A' ≤ c && c ≤ 'F' then some (c.toNat - 'A'.toNat + 10)
  else none

/-- The number that a nonempty run of digits spells in a base. -/
def inBase? (base : Nat) (digits : List Char) : Option Nat :=
  if digits.isEmpty then none
  else (digits.mapM fun c => (digit? c).filter (· < base)).map (Text.ofDigits base)

/-- Whether a scalar has a zero in front of other digits, with or without a sign. -/
def isZeroPadded (text : List Char) : Bool :=
  let digits :=
    match text with
    | '-' :: rest | '+' :: rest => rest
    | _ => text
  match digits with
  | '0' :: c :: rest => (c :: rest).all Char.isDigit
  | _ => false

/-- The number that an integer without its sign spells: with the mark of base sixteen, eight
or two, or else decimal. -/
def magnitude? : List Char → Option Nat
  | '0' :: 'x' :: digits => inBase? 16 digits
  | '0' :: 'o' :: digits => inBase? 8 digits
  | '0' :: 'b' :: digits => inBase? 2 digits
  | digits => inBase? 10 digits

/-- The natural number that a scalar spells, which may have a plus sign. -/
def natural? (text : List Char) : Option Nat :=
  if isZeroPadded text then none
  else
    match text with
    | '+' :: rest => magnitude? rest
    | text => magnitude? text

/-- Whether a scalar is an integer that fits into 128 bits. -/
def isInteger (text : List Char) : Bool :=
  match text with
  | '-' :: rest => !isZeroPadded text && (magnitude? rest).any (· ≤ Nat.pow 2 127)
  | text => (natural? text).any (· < Nat.pow 2 128)

/-- The least power of ten that is certainly beyond all finite numbers. -/
def overflowMagnitude : Nat := 400

/-- The least number that is rounded to infinity. -/
def infinityBound : Nat := Nat.pow 2 1024 - Nat.pow 2 970

/-- Whether a number stays finite in double precision. It is given by its significant digits
and the power of ten of the last one. -/
def isFinite (digits : List Char) (exponent : Int) : Bool :=
  let digits := digits.dropWhile (· == '0')
  let value := Text.ofDigits 10 (digits.map fun c => c.toNat - '0'.toNat)
  let magnitude := exponent + digits.length
  if digits.isEmpty then true
  else if magnitude > overflowMagnitude then false
  else if magnitude < 0 then true
  else if exponent ≥ 0 then value * Nat.pow 10 exponent.toNat < infinityBound
  else value < infinityBound * Nat.pow 10 (-exponent).toNat

/-- The exponent that follows the digits of a floating-point number, or zero without one. -/
def exponent? : List Char → Option Int
  | [] => some 0
  | e :: rest =>
    if e == 'e' || e == 'E' then
      match rest with
      | '-' :: digits => (Text.decimal? digits).map fun n => -(n : Int)
      | '+' :: digits => (Text.decimal? digits).map fun n => (n : Int)
      | digits => (Text.decimal? digits).map fun n => (n : Int)
    else none

/-- Whether a text is a finite number with digits before or after a point, and perhaps an
exponent. -/
def isFiniteNumber (text : List Char) : Bool :=
  let whole := text.takeWhile Char.isDigit
  let (fraction, rest) :=
    match text.dropWhile Char.isDigit with
    | '.' :: rest => (rest.takeWhile Char.isDigit, rest.dropWhile Char.isDigit)
    | rest => ([], rest)
  match exponent? rest with
  | some exponent =>
    !(whole ++ fraction).isEmpty && isFinite (whole ++ fraction) (exponent - fraction.length)
  | none => false

/-- Whether a text is a word for infinity. -/
def isInfinityWord (text : List Char) : Bool :=
  text == ".inf".toList || text == ".Inf".toList || text == ".INF".toList

/-- Whether a text is a word for what is not a number. -/
def isNanWord (text : List Char) : Bool :=
  text == ".nan".toList || text == ".NaN".toList || text == ".NAN".toList

/-- Whether a scalar is a floating-point number. -/
def isFloat (text : List Char) : Bool :=
  isNanWord text ||
    match text with
    | '-' :: rest | '+' :: rest => isInfinityWord rest || isFiniteNumber rest
    | text => isInfinityWord text || isFiniteNumber text

/-- Whether a scalar would be taken for something that is no text, or looks too much like a
number. -/
def isAmbiguous (text : String) : Bool :=
  text.isEmpty || isNullWord text || (truth? text).isSome || isInteger text.toList
    || isZeroPadded text.toList || isFloat text.toList

end LineAtlas.Yaml.Plain
