import LineAtlas.Text.Split

/-!
# Names of local functions

The compiler names a local function after the member around it. Constructors and accessors
are spelled in a form of their own there, and a lambda is numbered within its member.
-/

namespace LineAtlas.LocalName

/-- How a constructor is spelled inside the names of its local functions. -/
def constructorKey : String := "_init_"

/-- How the getter of a property is spelled inside the names of its local functions. -/
def getterKey (property : String) : String := "_get_" ++ property ++ "_"

/-- How the setter of a property is spelled inside the names of its local functions. -/
def setterKey (property : String) : String := "_set_" ++ property ++ "_"

/-- Whether a segment is a number given by the compiler. -/
def isNumeric (segment : String) : Bool := Text.isDigits segment.toList

/-- Whether the name has the form of a lambda inside a function: of the pieces between its
dollars the last one is a number, the one before it is the word `lambda`, and there are more. -/
def isLambda (name : String) : Bool :=
  match (Text.pieces '$' name).reverse with
  | index :: word :: _ :: _ => isNumeric index && word == "lambda"
  | _ => false

/-- What precedes the last but one of the dollars of a name. -/
def beforeLastTwo? (name : String) : Option String := do
  let (front, _) ← Text.cutLast? '$' name
  let (base, _) ← Text.cutLast? '$' front
  return base

/-- The name of the function around a lambda, when the name is that of one. -/
def lambdaBase? (name : String) : Option String :=
  (beforeLastTwo? name).filter fun _ => isLambda name

end LineAtlas.LocalName
