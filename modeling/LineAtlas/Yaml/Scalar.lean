import LineAtlas.Yaml.Text
import LineAtlas.Yaml.Plain

/-!
# Scalars in YAML text

A scalar may go over several lines, which are folded. A plain scalar ends before a colon or
comment, a quoted one at its quote.
-/

namespace LineAtlas.Yaml

/-- Whether a character structures flow collections. -/
def isFlowMark (c : Char) : Bool := c == ',' || c == '[' || c == ']' || c == '\x7b' || c == '\x7d'

/-- Whether a tab is part of the indentation of a further line. The column is that of the
text in such a line, and none in the first line. -/
def hasTabIndent (indent : Nat) : Option Nat → List Char → Bool
  | _, [] => false
  | column, c :: rest =>
    if isBreak c then hasTabIndent indent (some 0) rest
    else
      match column with
      | some n => (c == '\t' && n < indent) || hasTabIndent indent (some (n + 1)) rest
      | none => hasTabIndent indent none rest

/-- The characters of a plain scalar up to the next blank or the end of the scalar. -/
def plainWord? (inFlow : Bool) : List Char → Option (List Char)
  | [] => some []
  | c :: rest =>
    if isSpace c || (c == ':' && endsWord rest) then some []
    else if inFlow && c == ':' && rest.head?.any (fun d => d == '?' || isFlowMark d) then none
    else if inFlow && isFlowMark c then some []
    else (plainWord? inFlow rest).map (c :: ·)

/-- A scalar that was read. -/
structure ScalarText where
  /-- Its text. -/
  text : List Char
  /-- The blanks that follow a plain scalar. -/
  blanks : List Char
  /-- The position after it. -/
  after : Cursor

/-- The plain scalar at a position, after blanks that belong to it if it goes on. Further
lines are indented at least as far as given, except in flow collections. -/
def plainText? (inFlow : Bool) (indent : Nat) (blanks : List Char) (c : Cursor) :
    Option ScalarText :=
  if c.isAtDocumentMark || c.rest.head? == some '#' then some ⟨[], blanks, c⟩
  else
    match hword : plainWord? inFlow c.rest with
    | none => none
    | some [] => some ⟨[], blanks, c⟩
    | some (first :: others) =>
      let text := folded false blanks ++ first :: others
      let afterWord := c.skip (others.length + 1)
      let blanks := afterWord.rest.takeWhile isSpace
      let next := afterWord.skip blanks.length
      if hasTabIndent indent none blanks then none
      else if blanks.isEmpty || (!inFlow && next.column < indent) then some ⟨text, blanks, next⟩
      else
        (plainText? inFlow indent blanks next).map fun more =>
          { more with text := text ++ more.text }
termination_by c.rest.length
decreasing_by
  have hrest : 0 < c.rest.length := by
    cases hc : c.rest <;> simp_all [plainWord?]
  simp +zetaDelta only [Cursor.rest_skip, List.length_drop]
  omega

/-- The character that a one-letter escape stands for. -/
def escaped? : Char → Option Char
  | '0' => some '\x00'
  | 'a' => some '\x07'
  | 'b' => some '\x08'
  | 't' => some '\t'
  | '\t' => some '\t'
  | 'n' => some '\n'
  | 'v' => some '\x0b'
  | 'f' => some '\x0c'
  | 'r' => some '\r'
  | 'e' => some '\x1b'
  | ' ' => some ' '
  | '"' => some '"'
  | '/' => some '/'
  | '\\' => some '\\'
  | 'N' => some '\x85'
  | '_' => some '\xa0'
  | 'L' => some '\u2028'
  | 'P' => some '\u2029'
  | _ => none

/-- The number of hexadecimal digits after the letter of an escape. -/
def escapeWidth? : Char → Option Nat
  | 'x' => some 2
  | 'u' => some 4
  | 'U' => some 8
  | _ => none

/-- The character with a number, when there is one. -/
def charOf? (n : Nat) : Option Char := if n.isValidChar then some (Char.ofNat n) else none

/-- A part of a quoted scalar without blanks. -/
structure QuotedPart where
  /-- Its text. -/
  text : List Char
  /-- Whether an escaped line break ends it. -/
  escapedBreak : Bool
  /-- The number of characters that it takes. -/
  width : Nat

/-- A part with a further character in front, which takes a number of characters. -/
def QuotedPart.extend (char : Char) (width : Nat) (part : QuotedPart) : QuotedPart :=
  { part with text := char :: part.text, width := part.width + width }

/-- The characters between single quotes up to the next blank or the closing quote. -/
def singleQuotedPart : List Char → QuotedPart
  | [] => ⟨[], false, 0⟩
  | '\'' :: '\'' :: rest => (singleQuotedPart rest).extend '\'' 2
  | c :: rest =>
    if c == '\'' || isSpace c then ⟨[], false, 0⟩ else (singleQuotedPart rest).extend c 1

/-- The characters between double quotes up to the next blank or the closing quote, given a
number of characters to skip first. -/
def doubleQuotedPart? : Nat → List Char → Option QuotedPart
  | _, [] => some ⟨[], false, 0⟩
  | skip + 1, _ :: rest => doubleQuotedPart? skip rest
  | 0, '\\' :: c :: rest =>
    if isBreak c then some ⟨[], true, 2⟩
    else
      match escapeWidth? c with
      | some width => do
        let digits := rest.take width
        if digits.length < width then none
        let char ← (Plain.inBase? 16 digits).bind charOf?
        return (← doubleQuotedPart? (width + 1) (c :: rest)).extend char (width + 2)
      | none => do
        let char ← escaped? c
        return (← doubleQuotedPart? 1 (c :: rest)).extend char 2
  | 0, c :: rest =>
    if c == '"' || isSpace c then some ⟨[], false, 0⟩
    else if c == '\\' then none
    else (doubleQuotedPart? 0 rest).map (·.extend c 1)

/-- The rest of a quoted scalar, from after its opening quote or from a line inside. -/
def quotedText? (isDouble : Bool) (c : Cursor) : Option ScalarText :=
  if c.isAtDocumentMark then none
  else
    match if isDouble then doubleQuotedPart? 0 c.rest else some (singleQuotedPart c.rest) with
    | none => none
    | some part =>
      let afterPart := c.skip part.width
      match hafter : afterPart.rest with
      | [] => none
      | char :: _ =>
        if char == if isDouble then '"' else '\'' then some ⟨part.text, [], afterPart.next⟩
        else
          let blanks := afterPart.rest.takeWhile isSpace
          if hwidth : 0 < part.width + blanks.length then
            have : (afterPart.skip blanks.length).rest.length < c.rest.length := by
              have hlength := congrArg List.length hafter
              simp only [afterPart, Cursor.rest_skip, List.length_drop, List.length_cons]
                at hlength ⊢
              omega
            (quotedText? isDouble (afterPart.skip blanks.length)).map fun more =>
              { more with text := part.text ++ folded part.escapedBreak blanks ++ more.text }
          else none
termination_by c.rest.length

end LineAtlas.Yaml
