import LineAtlas.Yaml.Scalar

/-!
# YAML tokens

A text is cut into marks and scalars. Indentation becomes marks too: a collection opens where
a line is indented further than the collections around it, and closes where it is indented
less. What comes before a colon turns out to be a key only there, so that the position of the
last possible key is kept and the mark for it is put in later.
-/

namespace LineAtlas.Yaml

/-- A token of a YAML text. -/
inductive Token where
  /-- Marks around documents. -/
  | documentBegin | documentEnd
  /-- Marks for collections by indentation. -/
  | openBlockSequence | openBlockMapping | closeBlock
  /-- Marks for collections in brackets. -/
  | openSequence | closeSequence | openMapping | closeMapping
  /-- The dash before an item, the mark before a key, the colon before a value, the comma. -/
  | item | key | value | comma
  /-- A scalar, plain or in quotes. -/
  | scalar (isPlain : Bool) (text : String)
  deriving DecidableEq, Repr

/-- A place where a key may have started. -/
structure KeyCandidate where
  /-- The number of tokens before it. -/
  tokens : Nat
  /-- Its line. -/
  line : Nat
  /-- Its column. -/
  column : Nat
  /-- The number of bytes before it in its line. -/
  offset : Nat
  /-- Whether anything but a key is an error there. -/
  isRequired : Bool

/-- Between two tokens. -/
structure ScanState where
  /-- The position. -/
  cursor : Cursor
  /-- Columns of the open collections by indentation, innermost first. -/
  indents : List Nat
  /-- The possible key of the innermost collection in brackets, or outside brackets. -/
  candidate : Option KeyCandidate
  /-- The possible keys of the collections around it, for every open bracket one. -/
  outer : List (Option KeyCandidate)
  /-- Whether a key may start here. -/
  allowsKey : Bool
  /-- The tokens so far. -/
  tokens : Array Token

namespace ScanState

/-- The start of a text. -/
def start (text : List Char) : ScanState :=
  { cursor := Cursor.start text
    indents := [], candidate := none, outer := [], allowsKey := true, tokens := #[] }

/-- Whether a bracket is open. -/
def inFlow (s : ScanState) : Bool := !s.outer.isEmpty

/-- The state with one more token. -/
def push (token : Token) (s : ScanState) : ScanState := { s with tokens := s.tokens.push token }

/-- The state with a token put in behind a number of tokens. -/
def insertAt (position : Nat) (token : Token) (s : ScanState) : ScanState :=
  { s with tokens := s.tokens.insertIdxIfInBounds position token }

/-- The state after a number of characters. -/
def skip (count : Nat) (s : ScanState) : ScanState := { s with cursor := s.cursor.skip count }

/-- Where one is between two tokens. -/
inductive GapPlace where
  /-- At the start of a line. -/
  | lineStart
  /-- Behind other blanks of the line. -/
  | blanks
  /-- In a comment. -/
  | comment
  deriving DecidableEq

/-- The characters of blanks, comments and line breaks, and whether a key may follow. Tabs
count as blanks where they cannot be taken for indentation. A byte order mark may start a line,
of which it takes a column. -/
def gap (inFlow : Bool) : (allowsKey : Bool) → GapPlace → List Char → Nat × Bool
  | allowsKey, _, [] => (0, allowsKey)
  | allowsKey, place, c :: rest =>
    let further (allowsKey : Bool) (place : GapPlace) : Nat × Bool :=
      let (count, allows) := gap inFlow allowsKey place rest
      (count + 1, allows)
    if isBreak c then further (allowsKey || !inFlow) .lineStart
    else if place == .comment || c == '#' then further allowsKey .comment
    else if c == ' ' || (c == '\t' && (inFlow || !allowsKey)) then further allowsKey .blanks
    else if c == '\ufeff' && place == .lineStart then further allowsKey .blanks
    else (0, allowsKey)

/-- The state behind blanks, comments and line breaks. -/
def skipGap (s : ScanState) : ScanState :=
  let place := if s.cursor.column == 0 then .lineStart else .blanks
  let (count, allowsKey) := gap s.inFlow s.allowsKey place s.cursor.rest
  { s.skip count with allowsKey }

/-- Keys stand in one line with their colon, which comes at most this many bytes behind their
start. -/
def maxKeyLength : Nat := 1024

/-- A possible key at a position, unless the position is too far from it. A key that is
required must not be lost. -/
def stillPossible (c : Cursor) : Option KeyCandidate → Option (Option KeyCandidate)
  | none => some none
  | some key =>
    if key.line == c.line && c.offset ≤ key.offset + maxKeyLength then some (some key)
    else if key.isRequired then none
    else some none

/-- The state without the innermost possible key if it is too far back. Those of the
collections around it are looked at when it is their turn. -/
def dropStaleKey (s : ScanState) : Option ScanState := do
  let candidate ← stillPossible s.cursor s.candidate
  return { s with candidate }

/-- The state in which the innermost possible key turned out to be none. -/
def dropKey (s : ScanState) : Option ScanState :=
  if s.candidate.any (·.isRequired) then none else some { s with candidate := none }

/-- The state in which a key may have started here. -/
def saveKey (s : ScanState) : Option ScanState :=
  if s.allowsKey then do
    let s ← s.dropKey
    let isRequired := !s.inFlow && s.indents.head? == some s.cursor.column
    return { s with
      candidate := some ⟨s.tokens.size, s.cursor.line, s.cursor.column, s.cursor.offset,
        isRequired⟩ }
  else some s

/-- Whether the open collections by indentation are all less indented than a column. -/
def isDeeper (s : ScanState) (column : Nat) : Bool := s.indents.head?.all (· < column)

/-- The state in which a collection is open at a column. Its mark goes behind a number of
tokens. -/
def openBlock (column position : Nat) (mark : Token) (s : ScanState) : ScanState :=
  if !s.inFlow && s.isDeeper column then
    { s.insertAt position mark with indents := column :: s.indents }
  else s

/-- The marks that close the collections for which a condition on their columns holds. -/
def closeBlocks (isClosed : Nat → Bool) (s : ScanState) : ScanState :=
  if s.inFlow then s
  else
    let closed := s.indents.takeWhile isClosed
    { s with
      indents := s.indents.dropWhile isClosed
      tokens := closed.foldl (fun tokens _ => tokens.push .closeBlock) s.tokens }

/-- A mark around documents. -/
def documentMark (mark : Token) (s : ScanState) : Option ScanState := do
  let s ← (s.closeBlocks fun _ => true).dropKey
  return { s.skip 3 with allowsKey := false }.push mark

/-- An opening bracket. -/
def openFlow (mark : Token) (s : ScanState) : Option ScanState := do
  let s ← s.saveKey
  return { s.skip 1 with
    candidate := none, outer := s.candidate :: s.outer, allowsKey := true }.push mark

/-- A closing bracket. -/
def closeFlow (mark : Token) (s : ScanState) : Option ScanState := do
  let s ← s.dropKey
  let s :=
    match s.outer with
    | [] => s
    | candidate :: outer => { s with candidate, outer }
  return { s.skip 1 with allowsKey := false }.push mark

/-- A comma. -/
def comma (s : ScanState) : Option ScanState := do
  let s ← s.dropKey
  return { s.skip 1 with allowsKey := true }.push .comma

/-- The dash before an item. -/
def item (s : ScanState) : Option ScanState := do
  if !s.inFlow && !s.allowsKey then none
  let s ← (s.openBlock s.cursor.column s.tokens.size .openBlockSequence).dropKey
  return { s.skip 1 with allowsKey := true }.push .item

/-- The mark before a key that is no simple one. -/
def key (s : ScanState) : Option ScanState := do
  if !s.inFlow && !s.allowsKey then none
  let s ← (s.openBlock s.cursor.column s.tokens.size .openBlockMapping).dropKey
  return { s.skip 1 with allowsKey := !s.inFlow }.push .key

/-- The colon before a value. -/
def value (s : ScanState) : Option ScanState :=
  match s.candidate with
  | some key =>
    let s := (s.insertAt key.tokens .key).openBlock key.column key.tokens .openBlockMapping
    some ({ s.skip 1 with candidate := none, allowsKey := false }.push .value)
  | none =>
    if !s.inFlow && !s.allowsKey then none
    else
      let s := s.openBlock s.cursor.column s.tokens.size .openBlockMapping
      some ({ s.skip 1 with allowsKey := !s.inFlow }.push .value)

/-- The column at which further lines of a scalar start at least. -/
def continuationIndent (s : ScanState) : Nat :=
  match s.indents with
  | [] => 0
  | column :: _ => column + 1

/-- A plain scalar. After one that ends with its line a key may start. -/
def plainScalar (s : ScanState) : Option ScanState := do
  let s ← s.saveKey
  let scalar ← plainText? s.inFlow s.continuationIndent [] s.cursor
  let allowsKey := scalar.blanks.any isBreak
  return { s with cursor := scalar.after, allowsKey }.push
    (.scalar true (String.ofList scalar.text))

/-- A scalar in quotes. -/
def quotedScalar (isDouble : Bool) (s : ScanState) : Option ScanState := do
  let s ← s.saveKey
  let scalar ← quotedText? isDouble s.cursor.next
  return { s with cursor := scalar.after, allowsKey := false }.push
    (.scalar false (String.ofList scalar.text))

/-- Whether no plain scalar starts with a character. Anchors, tags, block scalars and
directives are not read. -/
def isReserved (c : Char) : Bool :=
  isFlowMark c || c == '#' || c == '&' || c == '*' || c == '!' || c == '|' || c == '>'
    || c == '\'' || c == '"' || c == '%' || c == '@' || c == '\x60' || c == '\t'

/-- The state after the token that starts with a character. -/
def readToken (s : ScanState) (c : Char) (rest : List Char) : Option ScanState :=
  if s.cursor.isAtMark Cursor.beginMark then s.documentMark .documentBegin
  else if s.cursor.isAtMark Cursor.endMark then s.documentMark .documentEnd
  else
    match c with
    | '[' => s.openFlow .openSequence
    | '\x7b' => s.openFlow .openMapping
    | ']' => s.closeFlow .closeSequence
    | '\x7d' => s.closeFlow .closeMapping
    | ',' => s.comma
    | '\'' => s.quotedScalar false
    | '"' => s.quotedScalar true
    | '-' => if endsWord rest then s.item else s.plainScalar
    | '?' => if s.inFlow || endsWord rest then s.key else s.plainScalar
    | ':' => if s.inFlow || endsWord rest then s.value else s.plainScalar
    | c => if isReserved c then none else s.plainScalar

/-- The state behind blanks, with the collections closed that are indented further. -/
def toNextToken (s : ScanState) : Option ScanState := do
  let s ← s.skipGap.dropStaleKey
  return s.closeBlocks (s.cursor.column < ·)

/-- All tokens, at the end of the text. -/
def finish (s : ScanState) : Option (List Token) := do
  if s.candidate.any (·.isRequired) then none
  return (s.closeBlocks fun _ => true).tokens.toList

/-- The tokens of a text from a state on, in at most a number of steps. -/
def scan : (steps : Nat) → ScanState → Option (List Token)
  | 0, _ => none
  | steps + 1, s =>
    match s.toNextToken with
    | none => none
    | some ready =>
      match ready.cursor.rest with
      | [] => ready.finish
      | c :: rest =>
        match ready.readToken c rest with
        | none => none
        | some next => scan steps next

end ScanState

/-- The tokens of a text. Every token takes a character at least, so that a step for every
character and one for the end are enough. -/
def Token.scan? (text : List Char) : Option (List Token) :=
  ScanState.scan (text.length + 1) (ScanState.start text)

end LineAtlas.Yaml
