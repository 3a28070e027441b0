import LineAtlas.Json.Value

/-!
# Writing JSON

A value is written without blanks, or with one entry per line and two blanks for every
level. Only quotes, backslashes and control characters are escaped in strings.
-/

namespace LineAtlas.Json

/-- The digit of a number below sixteen, in lower case. -/
def hexChar (n : Nat) : Char := Nat.digitChar n

/-- How a character is written inside a string. -/
def escapeChar (c : Char) : List Char :=
  match c with
  | '"' => ['\\', '"']
  | '\\' => ['\\', '\\']
  | '\x08' => ['\\', 'b']
  | '\x0c' => ['\\', 'f']
  | '\n' => ['\\', 'n']
  | '\r' => ['\\', 'r']
  | '\t' => ['\\', 't']
  | c =>
    if c.toNat < 0x20 then
      ['\\', 'u', '0', '0', hexChar (c.toNat / 16), hexChar (c.toNat % 16)]
    else [c]

/-- A string between quotes. -/
def quote (text : String) : String :=
  String.ofList ('"' :: text.toList.flatMap escapeChar ++ ['"'])

namespace Value

/-- Where line breaks and blanks go. -/
inductive Style where
  /-- No blanks at all. -/
  | compact
  /-- One item per line, after the given number of levels. -/
  | indented (level : Nat)

/-- The style one level further in. -/
def Style.inner : Style → Style
  | .compact => .compact
  | .indented level => .indented (level + 1)

/-- What stands before an item on its own line. -/
def Style.lineStart : Style → String
  | .compact => ""
  | .indented level => "\n" ++ String.ofList (List.replicate (2 * level) ' ')

/-- What stands between a key and its value. -/
def Style.colon : Style → String
  | .compact => ":"
  | .indented _ => ": "

/-- Items between brackets, each at the start of a line of the inner style. -/
def bracketed (style : Style) (opening closing : String) : List String → String
  | [] => opening ++ closing
  | items =>
    opening ++ ",".intercalate (items.map (style.inner.lineStart ++ ·)) ++
      style.lineStart ++ closing

mutual

/-- The text of a value. -/
def render (style : Style) : Value → String
  | .null => "null"
  | .bool true => "true"
  | .bool false => "false"
  | .number literal => literal
  | .string text => quote text
  | .unpaired => quote "\ufffd"
  | .array items => bracketed style "[" "]" (renderItems style.inner items)
  | .object entries => bracketed style "\x7b" "\x7d" (renderEntries style.inner entries)

/-- The texts of the items of an array. -/
def renderItems (style : Style) : List Value → List String
  | [] => []
  | item :: rest => render style item :: renderItems style rest

/-- The texts of the entries of an object. -/
def renderEntries (style : Style) : List (Key × Value) → List String
  | [] => []
  | (key, value) :: rest =>
    (quote key.text ++ style.colon ++ render style value) :: renderEntries style rest

end

/-- The text without blanks. -/
def compact (value : Value) : String := value.render .compact

/-- The text with one entry per line. -/
def pretty (value : Value) : String := value.render (.indented 0)

end Value

end LineAtlas.Json
