import LineAtlas.Text.Split
import LineAtlas.Text.Utf16

/-!
# JSON tokens

A text is cut into punctuation marks, words, number literals and strings. Blanks between
them are dropped.
-/

namespace LineAtlas.Json

/-- A mark that structures a JSON text. -/
inductive Mark where
  | openArray | closeArray | openObject | closeObject | comma | colon
  deriving DecidableEq, Repr

/-- A token of a JSON text. -/
inductive Token where
  /-- A structuring mark. -/
  | mark (mark : Mark)
  /-- The literal `null`. -/
  | null
  /-- One of the literals `true` and `false`. -/
  | bool (value : Bool)
  /-- A number literal. -/
  | number (literal : String)
  /-- A string; without text when it holds half of a surrogate pair. It is verbatim when there
  is no escape in it. -/
  | text (text : Option String) (isVerbatim : Bool)
  deriving DecidableEq, Repr

namespace Token

/-- The four blanks of JSON. -/
def isBlank (c : Char) : Bool := c == ' ' || c == '\t' || c == '\n' || c == '\r'

/-- The mark written as a given character. -/
def markOf? : Char → Option Mark
  | '[' => some .openArray
  | ']' => some .closeArray
  | '\x7b' => some .openObject
  | '\x7d' => some .closeObject
  | ',' => some .comma
  | ':' => some .colon
  | _ => none

/-- The value of a hexadecimal digit. -/
def hexDigit? (c : Char) : Option Nat :=
  if c.isDigit then some (c.toNat - '0'.toNat)
  else if 'a' ≤ c && c ≤ 'f' then some (c.toNat - 'a'.toNat + 10)
  else if 'A' ≤ c && c ≤ 'F' then some (c.toNat - 'A'.toNat + 10)
  else none

/-- The number that four hexadecimal digits spell. -/
def hexUnit? (a b c d : Char) : Option Nat := do
  let high := (← hexDigit? a) * 16 + (← hexDigit? b)
  let low := (← hexDigit? c) * 16 + (← hexDigit? d)
  return high * 256 + low

/-- The character that a one-letter escape stands for. -/
def escaped? : Char → Option Char
  | '"' => some '"'
  | '\\' => some '\\'
  | '/' => some '/'
  | 'b' => some '\x08'
  | 'f' => some '\x0c'
  | 'n' => some '\n'
  | 'r' => some '\r'
  | 't' => some '\t'
  | _ => none

/-- The code units of a string up to its closing quote, and the text after the quote.
Control characters have to be escaped. -/
def readUnits? : List Char → Option (List Nat × List Char)
  | [] => none
  | '"' :: rest => some ([], rest)
  | '\\' :: 'u' :: a :: b :: c :: d :: rest => do
    let unit ← hexUnit? a b c d
    let (units, rest) ← readUnits? rest
    return (unit :: units, rest)
  | '\\' :: c :: rest => do
    let char ← escaped? c
    let (units, rest) ← readUnits? rest
    return (char.toNat :: units, rest)
  | c :: rest =>
    if c.toNat < 0x20 || c == '\\' then none
    else (readUnits? rest).map fun (units, rest) => (Text.Utf16.encodeChar c ++ units, rest)

/-- The text of code units, when every surrogate has its partner. -/
def textOf? (units : List Nat) : Option String :=
  let decoded := Text.Utf16.decode units
  if decoded.flatMap Text.Utf16.encodeChar == units then some (String.ofList decoded) else none

/-- Whether the string that starts here, after its opening quote, has no escape in it. -/
def isVerbatim (text : List Char) : Bool := !(text.takeWhile (· != '"')).contains '\\'

/-- Digits at the front of a number literal are followed by what a check accepts. -/
def digitsThen (check : List Char → Bool) (literal : List Char) : Bool :=
  !(literal.takeWhile Char.isDigit).isEmpty && check (literal.dropWhile Char.isDigit)

/-- The exponent of a number literal, or nothing. -/
def isExponent : List Char → Bool
  | [] => true
  | e :: rest =>
    (e == 'e' || e == 'E') &&
      match rest with
      | '+' :: digits | '-' :: digits => Text.isDigits digits
      | digits => Text.isDigits digits

/-- The fraction and exponent of a number literal, or nothing. -/
def isFraction : List Char → Bool
  | '.' :: rest => digitsThen isExponent rest
  | rest => isExponent rest

/-- Whether a number literal without its sign has the form that JSON allows: no zero stands
in front of another digit. -/
def isUnsignedLiteral : List Char → Bool
  | '0' :: rest => isFraction rest
  | literal => digitsThen isFraction literal

/-- Whether a text is a number literal. -/
def isNumberLiteral : List Char → Bool
  | '-' :: rest => isUnsignedLiteral rest
  | literal => isUnsignedLiteral literal

/-- Whether a character can stand in a number literal or a word. -/
def isWordChar (c : Char) : Bool :=
  c.isAlphanum || c == '-' || c == '+' || c == '.'

/-- The token that a word spells. -/
def ofWord? (word : List Char) : Option Token :=
  if word == "null".toList then some .null
  else if word == "true".toList then some (.bool true)
  else if word == "false".toList then some (.bool false)
  else if isNumberLiteral word then some (.number (String.ofList word))
  else none

/-- Reading code units consumes at least the closing quote, so reading on terminates. -/
theorem readUnits?_length {text rest : List Char} {units : List Nat}
    (hread : readUnits? text = some (units, rest)) : rest.length < text.length := by
  fun_induction readUnits? text generalizing units with
  | case1 => simp at hread
  | case2 => simp_all
  | case3 a b c d tail ih =>
    simp only [Option.bind_eq_bind, Option.bind_eq_some_iff, Prod.exists, Option.pure_def,
      Option.some.injEq, Prod.mk.injEq] at hread
    obtain ⟨_, -, inner, after, hinner, -, rfl⟩ := hread
    have := ih hinner
    simp only [List.length_cons]
    omega
  | case4 c tail _ ih =>
    simp only [Option.bind_eq_bind, Option.bind_eq_some_iff, Prod.exists, Option.pure_def,
      Option.some.injEq, Prod.mk.injEq] at hread
    obtain ⟨_, -, inner, after, hinner, -, rfl⟩ := hread
    have := ih hinner
    simp only [List.length_cons]
    omega
  | case5 => simp at hread
  | case6 c tail _ _ _ _ ih =>
    simp only [Option.map_eq_some_iff, Prod.exists, Prod.mk.injEq] at hread
    obtain ⟨inner, after, hinner, -, rfl⟩ := hread
    have := ih hinner
    simp only [List.length_cons]
    omega

/-- The tokens of a text, when all of it is made of tokens and blanks. -/
def scan? (text : List Char) : Option (List Token) :=
  match text with
  | [] => some []
  | c :: rest =>
    if isBlank c then scan? rest
    else
      match markOf? c with
      | some m => (scan? rest).map (.mark m :: ·)
      | none =>
        if c = '"' then
          match _hread : readUnits? rest with
          | none => none
          | some (units, after) =>
            (scan? after).map (.text (textOf? units) (isVerbatim rest) :: ·)
        else if isWordChar c then do
          let token ← ofWord? (c :: rest.takeWhile isWordChar)
          let tokens ← scan? (rest.dropWhile isWordChar)
          return token :: tokens
        else none
termination_by text.length
decreasing_by
  · simp
  · simp
  · have := readUnits?_length _hread
    simp only [List.length_cons]
    omega
  · have := (List.dropWhile_suffix isWordChar (l := rest)).length_le
    simp only [List.length_cons]
    omega

end Token

end LineAtlas.Json
