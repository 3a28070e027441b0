/-!
# Mangled names

The compiler flattens nested and local declarations into one name, with a dollar between
the segments. Two dollars stay inside a segment. In an odd run of dollars the first one
separates and the others open the next segment, so `class$$$sub` is `class` and `$$sub`.
-/

namespace LineAtlas.Mangled

/-- What is wrong with a mangled name. -/
inductive Fault where
  /-- The name has no characters. -/
  | emptyName
  /-- A separator stands before the first segment. -/
  | emptySegment
  /-- The name ends in a separator. -/
  | trailingDollar
  deriving DecidableEq, Repr

/-- The wording of a fault. -/
def Fault.message : Fault → String
  | .emptyName => "empty name"
  | .emptySegment => "empty segment"
  | .trailingDollar => "trailing `$`"

/-- Segments of the characters that remain, given the segment read so far and the length of
the run of dollars just before them. -/
def segmentsFrom (current : List Char) (run : Nat) :
    List Char → Except Fault (List (List Char))
  | [] =>
    if run % 2 = 1 then .error .trailingDollar
    else if current.isEmpty && run == 0 then .error .emptyName
    else .ok [current ++ List.replicate run '$']
  | c :: rest =>
    if c = '$' then segmentsFrom current (run + 1) rest
    else if run % 2 = 0 then segmentsFrom (current ++ List.replicate run '$' ++ [c]) 0 rest
    else if current.isEmpty then .error .emptySegment
    else (current :: ·) <$> segmentsFrom (List.replicate (run - 1) '$' ++ [c]) 0 rest

/-- A name that breaks the rules of mangling. -/
structure Malformed where
  /-- The whole name. -/
  name : String
  /-- What is wrong with it. -/
  fault : Fault
  deriving DecidableEq, Repr

/-- The wording of a malformed name. -/
def Malformed.message (m : Malformed) : String :=
  "malformed name mangling in `" ++ m.name ++ "`: " ++ m.fault.message

/-- The segments of a mangled name. -/
def split (name : String) : Except Malformed (List String) :=
  match segmentsFrom [] 0 name.toList with
  | .ok segments => .ok (segments.map String.ofList)
  | .error fault => .error ⟨name, fault⟩

/-- Segments put together with a dollar between neighbours. -/
def join (segments : List String) : String :=
  "$".intercalate segments

end LineAtlas.Mangled
