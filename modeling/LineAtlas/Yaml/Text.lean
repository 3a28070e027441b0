import LineAtlas.Text.Split

/-!
# YAML text

Lines, blanks and positions. A line break inside a scalar is folded: a single one becomes a
space, and of several the first is dropped.
-/

namespace LineAtlas.Yaml

/-- A line break, once all common ones are line feeds. The two separators of Unicode keep
their identity. -/
def isBreak (c : Char) : Bool := c == '\n' || c == '\u2028' || c == '\u2029'

/-- A space or tab. -/
def isBlank (c : Char) : Bool := c == ' ' || c == '\t'

/-- A space, tab or line break. -/
def isSpace (c : Char) : Bool := isBlank c || isBreak c

/-- Whether a word ends here: at a space, tab, line break or the end of the text. -/
def endsWord : List Char → Bool
  | [] => true
  | c :: _ => isSpace c

/-- Whether a character may stand in a text. -/
def isAllowed (c : Char) : Bool :=
  c == '\t' || c == '\n' || c == '\r' || c == '\x85' || (0x20 ≤ c.toNat && c.toNat ≤ 0x7E)
    || (0xA0 ≤ c.toNat && c.toNat ≤ 0xFFFD) || 0x10000 ≤ c.toNat

/-- The text with every common line break as a line feed. -/
def withLineFeeds : List Char → List Char
  | [] => []
  | '\r' :: '\n' :: rest => '\n' :: withLineFeeds rest
  | c :: rest => (if c == '\r' || c == '\x85' then '\n' else c) :: withLineFeeds rest

/-- What blanks between two parts of a scalar amount to. After a line break that is escaped
only further breaks count. -/
def folded (escapedBreak : Bool) (blanks : List Char) : List Char :=
  let breaks := blanks.filter isBreak
  if escapedBreak then breaks
  else
    match breaks with
    | [] => blanks
    | ['\n'] => [' ']
    | '\n' :: more => more
    | breaks => breaks

/-- A position in a text and what follows it. -/
structure Cursor where
  /-- The text from here on. -/
  rest : List Char
  /-- The number of lines before this one. -/
  line : Nat
  /-- The number of characters before this one in its line. -/
  column : Nat
  /-- The number of bytes that they take in UTF-8. -/
  offset : Nat

namespace Cursor

/-- The start of a text. -/
def start (text : List Char) : Cursor := ⟨text, 0, 0, 0⟩

/-- The position after the next character. -/
def next (c : Cursor) : Cursor :=
  match c.rest with
  | [] => c
  | char :: rest =>
    if isBreak char then ⟨rest, c.line + 1, 0, 0⟩
    else ⟨rest, c.line, c.column + 1, c.offset + char.utf8Size⟩

/-- The position after a number of characters. -/
def skip (c : Cursor) : Nat → Cursor
  | 0 => c
  | count + 1 => c.next.skip count

/-- A step takes one character off what is left. -/
theorem rest_next (c : Cursor) : c.next.rest = c.rest.tail := by
  unfold next
  split
  · simp_all
  · split <;> simp_all

/-- Skipping takes as many characters off what is left. -/
theorem rest_skip (c : Cursor) (count : Nat) : (c.skip count).rest = c.rest.drop count := by
  induction count generalizing c with
  | zero => rfl
  | succ count ih => simp [skip, ih, rest_next]

/-- Whether a line starts here with a word that separates documents. -/
def isAtMark (c : Cursor) (mark : List Char) : Bool :=
  c.column == 0 && (Text.afterHead? mark c.rest).any endsWord

/-- The mark that begins a document. -/
def beginMark : List Char := ['-', '-', '-']

/-- The mark that ends a document. -/
def endMark : List Char := ['.', '.', '.']

/-- Whether a line starts here with either mark. -/
def isAtDocumentMark (c : Cursor) : Bool := c.isAtMark beginMark || c.isAtMark endMark

end Cursor

end LineAtlas.Yaml
