import LineAtlas.ClassFile.LineSet
import LineAtlas.Name.Local
import LineAtlas.Tree.SourceTree

/-!
# Keys of outer functions

A local function is named after the function around it. The keys of a class say which
functions can be meant; among functions of the same key the lines decide.
-/

namespace LineAtlas

/-- Keys with the functions that they stand for, in the order of addition. -/
abbrev LocalKeys := List (String × FunctionId)

namespace LocalKeys

/-- The functions with a key. -/
def candidates (keys : LocalKeys) (key : String) : List FunctionId :=
  (keys.filter (·.1 == key)).map Prod.snd

/-- What follows a key and a dollar at the start of a name, unless that is nothing. -/
def rest? (key name : String) : Option String :=
  (Text.dropHead? (key ++ "$") name).filter (!·.isEmpty)

/-- The longer of two keys; the second unless the first is longer. -/
def longer (first second : String) : String :=
  if second.utf8ByteSize < first.utf8ByteSize then first else second

/-- The longest key that a name continues with a dollar and something more. -/
def longestKey? (keys : LocalKeys) (name : String) : Option String :=
  match (keys.map Prod.fst).filter fun key => (rest? key name).isSome with
  | [] => none
  | key :: others => some (others.foldl longer key)

/-- The key of the function around a local function: for a lambda the name in front of it,
when that is a key, and else the longest key that fits. -/
def outerKey? (keys : LocalKeys) (name : String) : Option String :=
  match (LocalName.lambdaBase? name).filter fun base => keys.any (·.1 == base) with
  | some base => some base
  | none => keys.longestKey? name

/-- The item whose measure is least, the first of several. -/
def leastBy? {α : Type} (measure : α → LineNumber) : List α → Option α
  | [] => none
  | first :: others =>
    some (others.foldl (fun best item => if measure item < measure best then item else best)
      first)

/-- The function, among several with their lines, that some lines belong to. Lines that
nothing encloses go to a function that ends after them, the one with the least first line. -/
def enclosing? (candidates : List (FunctionId × LineSet)) (lines : LineSet) :
    Option FunctionId :=
  match lines.first?, lines.last? with
  | some first, some last =>
    let ending := candidates.filter fun c => c.2.last?.any (last ≤ ·)
    let start (c : FunctionId × LineSet) : LineNumber := c.2.first?.getD 0
    let found := (ending.find? fun c => start c ≤ first)
      <|> leastBy? start ending <|> candidates.head?
    found.map Prod.fst
  | _, _ => candidates.head?.map Prod.fst

end LocalKeys

end LineAtlas
