/-!
# Splitting text

Texts are cut at every occurrence, or at the last occurrence, of a separator. The
functions work on lists of characters and have string forms beside them.
-/

namespace LineAtlas.Text

/-- The pieces between the occurrences of a separator. A text without the separator is
one piece, so there is always at least one. -/
def piecesOf (separator : Char) : List Char → List (List Char)
  | [] => [[]]
  | c :: rest =>
    if c = separator then [] :: piecesOf separator rest
    else
      match piecesOf separator rest with
      | [] => [[c]]
      | piece :: others => (c :: piece) :: others

/-- The parts before and after the last occurrence of a separator. -/
def cutLastOf? (separator : Char) : List Char → Option (List Char × List Char)
  | [] => none
  | c :: rest =>
    match cutLastOf? separator rest with
    | some (before, after) => some (c :: before, after)
    | none => if c = separator then some ([], rest) else none

/-- String form of `piecesOf`. -/
def pieces (separator : Char) (text : String) : List String :=
  (piecesOf separator text.toList).map String.ofList

/-- String form of `cutLastOf?`. -/
def cutLast? (separator : Char) (text : String) : Option (String × String) :=
  (cutLastOf? separator text.toList).map fun (before, after) =>
    (String.ofList before, String.ofList after)

/-- Every occurrence of one character replaced by another. -/
def replaceChar (old new : Char) (text : String) : String :=
  text.map fun c => if c = old then new else c

/-- What follows a given beginning, when the text has it. -/
def afterHead? : List Char → List Char → Option (List Char)
  | [], text => some text
  | _ :: _, [] => none
  | p :: ps, c :: rest => if p = c then afterHead? ps rest else none

/-- String form of `afterHead?`. -/
def dropHead? (head text : String) : Option String :=
  (afterHead? head.toList text.toList).map String.ofList

/-- What precedes a given ending, when the text has it. -/
def dropTail? (tail text : String) : Option String :=
  (afterHead? tail.toList.reverse text.toList.reverse).map fun rest =>
    String.ofList rest.reverse

/-- A nonempty run of ASCII digits. -/
def isDigits (text : List Char) : Bool :=
  !text.isEmpty && text.all Char.isDigit

end LineAtlas.Text
