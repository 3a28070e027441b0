import LineAtlas.Yaml.Plain
import LineAtlas.Yaml.Text
import LineAtlas.Yaml.Value

/-!
# Writing YAML

Collections go over several lines, an entry or item on each. A sequence is indented like the
key in front of it, a mapping by two blanks more. A text is plain where that is possible, and
where it goes over several lines these are indented further than the key or dash in front of it.
-/

namespace LineAtlas.Yaml

/-- Whether a character is shown as it is. -/
def isPrintable (c : Char) : Bool :=
  c == '\n' || (0x20 ≤ c.toNat && c.toNat ≤ 0x7E)
    || (0xA0 ≤ c.toNat && c.toNat ≤ 0xFFFD && c != '\ufeff') || 0x10000 ≤ c.toNat

/-- Whether a text cannot be plain because of its first character. -/
def hasReservedStart : List Char → Bool
  | [] => true
  | c :: rest =>
    "#,[]\x7b\x7d&*!|>'\"%@\x60".toList.contains c
      || ((c == '?' || c == ':' || c == '-') && endsWord rest)

/-- Whether a text has a colon that would end a key, or a hash that would begin a comment.
The first argument is the character before. -/
def hasInnerMark : Option Char → List Char → Bool
  | _, [] => false
  | before, c :: rest =>
    (before.isSome && c == ':' && endsWord rest) || (before.any isSpace && c == '#')
      || hasInnerMark (some c) rest

/-- Whether a text looks like a mark between documents. -/
def hasDocumentMark (text : List Char) : Bool :=
  (Text.afterHead? Cursor.beginMark text).isSome || (Text.afterHead? Cursor.endMark text).isSome

/-- Whether a blank and a line break are next to each other. -/
def hasBlankAtBreak : List Char → Bool
  | c :: d :: rest =>
    (c == ' ' && isBreak d) || (isBreak c && d == ' ') || hasBlankAtBreak (d :: rest)
  | _ => false

/-- Whether a text needs escapes. -/
def needsEscapes (text : List Char) : Bool :=
  text.any (fun c => !isPrintable c || c == '\n') || hasBlankAtBreak text

/-- Whether a text may stand without quotes. -/
def mayBePlain (text : String) : Bool :=
  let chars := text.toList
  !Plain.isAmbiguous text && !hasReservedStart chars && !hasInnerMark none chars
    && !hasDocumentMark chars && !chars.any isBreak && !needsEscapes chars
    && chars.head? != some ' ' && chars.getLast? != some ' '

/-- The letter of the escape for a character, when it has one. -/
def escapeLetter? : Char → Option Char
  | '\x00' => some '0'
  | '\x07' => some 'a'
  | '\x08' => some 'b'
  | '\t' => some 't'
  | '\n' => some 'n'
  | '\x0b' => some 'v'
  | '\x0c' => some 'f'
  | '\r' => some 'r'
  | '\x1b' => some 'e'
  | '"' => some '"'
  | '\\' => some '\\'
  | '\x85' => some 'N'
  | '\xa0' => some '_'
  | '\u2028' => some 'L'
  | '\u2029' => some 'P'
  | _ => none

/-- A number in upper-case hexadecimal digits of a fixed width. -/
def hexadecimal (width n : Nat) : List Char :=
  let digits := (Nat.toDigits 16 n).map Char.toUpper
  List.replicate (width - digits.length) '0' ++ digits

/-- How a character is written between double quotes. -/
def escapeChar (c : Char) : List Char :=
  if isPrintable c && !isBreak c && c != '"' && c != '\\' then [c]
  else
    match escapeLetter? c with
    | some letter => ['\\', letter]
    | none =>
      if c.toNat ≤ 0xFF then '\\' :: 'x' :: hexadecimal 2 c.toNat
      else if c.toNat ≤ 0xFFFF then '\\' :: 'u' :: hexadecimal 4 c.toNat
      else '\\' :: 'U' :: hexadecimal 8 c.toNat

/-- A text in double quotes. -/
def doubleQuoted (text : List Char) : List Char := '"' :: text.flatMap escapeChar ++ ['"']

/-- A text in single quotes, where a quote is written twice. -/
def singleQuoted (text : List Char) : List Char :=
  '\'' :: text.flatMap (fun c => if c == '\'' then ['\'', '\''] else [c]) ++ ['\'']

/-- A text in quotes, which are single ones unless it needs escapes. -/
def quoted (text : List Char) : List Char :=
  if needsEscapes text then doubleQuoted text else singleQuoted text

/-- A line that is indented further behind the line breaks inside it. -/
def indentBreaks : List Char → List Char
  | [] => []
  | c :: rest =>
    if isBreak c && !rest.head?.any isBreak then c :: ' ' :: ' ' :: indentBreaks rest
    else c :: indentBreaks rest

/-- A line indented by two blanks. -/
def indent (line : List Char) : List Char := ' ' :: ' ' :: indentBreaks line

namespace Value

/-- The value of a text, plain where that is possible. -/
def ofText (text : String) : Value := .scalar (mayBePlain text) text

/-- The text of a scalar with its quotes. -/
def scalarText (isPlain : Bool) (text : String) : List Char :=
  if isPlain then text.toList else quoted text.toList

/-- The text of a value in one line, for scalars and empty collections. -/
def inline? : Value → Option (List Char)
  | .scalar isPlain text => some (scalarText isPlain text)
  | .sequence [] => some ['[', ']']
  | .mapping [] => some ['\x7b', '\x7d']
  | _ => none

mutual

/-- The lines of a value that is no key. -/
def lines : Value → List (List Char)
  | .scalar isPlain text => [scalarText isPlain text]
  | .sequence items => if items.isEmpty then [['[', ']']] else itemLines items
  | .mapping entries => if entries.isEmpty then [['\x7b', '\x7d']] else entryLines entries

/-- The lines of the items of a sequence. -/
def itemLines : List Value → List (List Char)
  | [] => []
  | item :: rest =>
    let own :=
      match lines item with
      | [] => []
      | first :: others => ('-' :: ' ' :: indentBreaks first) :: others.map indent
    own ++ itemLines rest

/-- The lines of the entries of a mapping. -/
def entryLines : List (Value × Value) → List (List Char)
  | [] => []
  | (key, value) :: rest =>
    let name := ((inline? key).getD []) ++ [':']
    let own :=
      match inline? value, value with
      | some text, _ => [name ++ ' ' :: indentBreaks text]
      | none, .mapping _ => name :: (lines value).map indent
      | none, _ => name :: lines value
    own ++ entryLines rest

end

/-- The text of a value. -/
def render (value : Value) : String :=
  String.ofList (value.lines.flatMap (· ++ ['\n']))

end Value

end LineAtlas.Yaml
