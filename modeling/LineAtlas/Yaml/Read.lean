import LineAtlas.Yaml.Token
import LineAtlas.Yaml.Value

/-!
# Reading YAML

Tokens make up at most one document. Keys, values and items may be left out; a scalar without
text stands for them.
-/

namespace LineAtlas.Yaml

namespace Value

/-- Whether the next token is one of some marks. -/
def startsWith (marks : List Token) (tokens : List Token) : Bool :=
  tokens.head?.any marks.contains

/-- What tokens may be behind a key, value or item that is left out of a mapping by
indentation. -/
def afterMissingEntry : List Token := [.key, .value, .closeBlock]

mutual

/-- The value that tokens start with, and the tokens after it. Only where it is said,
collections by indentation are allowed, and items without a collection around them. The
first argument bounds the number of steps. -/
def read? : Nat → (inBlock afterKey : Bool) → List Token → Option (Value × List Token)
  | 0, _, _, _ => none
  | steps + 1, inBlock, afterKey, tokens =>
    match tokens with
    | .scalar isPlain text :: rest => some (.scalar isPlain text, rest)
    | .openSequence :: rest => do
      let (items, rest) ← readFlowItems? steps true rest
      return (.sequence items, rest)
    | .openMapping :: rest => do
      let (entries, rest) ← readFlowEntries? steps true rest
      return (.mapping entries, rest)
    | .openBlockSequence :: rest =>
      if inBlock then do
        let (items, rest) ← readBlockItems? steps rest
        return (.sequence items, rest)
      else none
    | .openBlockMapping :: rest =>
      if inBlock then do
        let (entries, rest) ← readBlockEntries? steps rest
        return (.mapping entries, rest)
      else none
    | .item :: _ =>
      if afterKey then do
        let (items, rest) ← readLooseItems? steps tokens
        return (.sequence items, rest)
      else none
    | _ => none

/-- The items of a sequence by indentation. -/
def readBlockItems? : Nat → List Token → Option (List Value × List Token)
  | 0, _ => none
  | steps + 1, tokens =>
    match tokens with
    | .closeBlock :: rest => some ([], rest)
    | .item :: rest => do
      let (item, rest) ←
        if startsWith [.item, .closeBlock] rest then some (missing, rest)
        else read? steps true false rest
      let (items, rest) ← readBlockItems? steps rest
      return (item :: items, rest)
    | _ => none

/-- The items of a sequence that is indented like the key in front of it. -/
def readLooseItems? : Nat → List Token → Option (List Value × List Token)
  | 0, _ => none
  | steps + 1, tokens =>
    match tokens with
    | .item :: rest => do
      let (item, rest) ←
        if startsWith (.item :: afterMissingEntry) rest then some (missing, rest)
        else read? steps true false rest
      let (items, rest) ← readLooseItems? steps rest
      return (item :: items, rest)
    | rest => some ([], rest)

/-- The entries of a mapping by indentation. -/
def readBlockEntries? : Nat → List Token → Option (List (Value × Value) × List Token)
  | 0, _ => none
  | steps + 1, tokens =>
    match tokens with
    | .closeBlock :: rest => some ([], rest)
    | .key :: rest => do
      let (key, rest) ←
        if startsWith afterMissingEntry rest then some (missing, rest)
        else read? steps true true rest
      let (value, rest) ←
        match rest with
        | .value :: rest =>
          if startsWith afterMissingEntry rest then some (missing, rest)
          else read? steps true true rest
        | rest => some (missing, rest)
      let (entries, rest) ← readBlockEntries? steps rest
      return ((key, value) :: entries, rest)
    | _ => none

/-- The items of a sequence in brackets. An item with a key is a mapping of its own. -/
def readFlowItems? : Nat → (isFirst : Bool) → List Token →
    Option (List Value × List Token)
  | 0, _, _ => none
  | steps + 1, isFirst, tokens =>
    match tokens with
    | .closeSequence :: rest => some ([], rest)
    | tokens => do
      let tokens ←
        match isFirst, tokens with
        | true, tokens => some tokens
        | false, .comma :: rest => some rest
        | false, _ => none
      match tokens with
      | .closeSequence :: rest => return ([], rest)
      | .key :: rest =>
        let (key, rest) ←
          if startsWith [.value, .comma, .closeSequence] rest then some (missing, rest.tail)
          else read? steps false false rest
        let (value, rest) ←
          match rest with
          | .value :: rest =>
            if startsWith [.comma, .closeSequence] rest then some (missing, rest)
            else read? steps false false rest
          | rest => some (missing, rest)
        let (items, rest) ← readFlowItems? steps false rest
        return (.mapping [(key, value)] :: items, rest)
      | tokens =>
        let (item, rest) ← read? steps false false tokens
        let (items, rest) ← readFlowItems? steps false rest
        return (item :: items, rest)

/-- The entries of a mapping in brackets. -/
def readFlowEntries? : Nat → (isFirst : Bool) → List Token →
    Option (List (Value × Value) × List Token)
  | 0, _, _ => none
  | steps + 1, isFirst, tokens =>
    match tokens with
    | .closeMapping :: rest => some ([], rest)
    | tokens => do
      let tokens ←
        match isFirst, tokens with
        | true, tokens => some tokens
        | false, .comma :: rest => some rest
        | false, _ => none
      match tokens with
      | .closeMapping :: rest => return ([], rest)
      | .key :: rest =>
        let (key, rest) ←
          if startsWith [.value, .comma, .closeMapping] rest then some (missing, rest)
          else read? steps false false rest
        let (value, rest) ←
          match rest with
          | .value :: rest =>
            if startsWith [.comma, .closeMapping] rest then some (missing, rest)
            else read? steps false false rest
          | rest => some (missing, rest)
        let (entries, rest) ← readFlowEntries? steps false rest
        return ((key, value) :: entries, rest)
      | tokens =>
        let (key, rest) ← read? steps false false tokens
        let (entries, rest) ← readFlowEntries? steps false rest
        return ((key, missing) :: entries, rest)

end

/-- The value of a document. No path through it takes more than two steps for a token. -/
def readDocument? (tokens : List Token) : Option (Value × List Token) :=
  match tokens with
  | .documentBegin :: rest =>
    if rest.isEmpty || startsWith [.documentBegin, .documentEnd] rest then some (missing, rest)
    else read? (2 * tokens.length + 2) true false rest
  | tokens => read? (2 * tokens.length + 2) true false tokens

/-- The value that tokens spell. No tokens are an empty document. -/
def ofTokens? (tokens : List Token) : Option Value :=
  if tokens.isEmpty then some missing
  else do
    let (value, rest) ← readDocument? tokens
    if (rest.dropWhile (· == .documentEnd)).isEmpty then return value else none

end Value

/-- The value that a text spells. -/
def parse? (text : String) : Option Value :=
  if text.toList.all isAllowed then do
    let tokens ← Token.scan? (withLineFeeds text.toList)
    Value.ofTokens? tokens
  else none

end LineAtlas.Yaml
