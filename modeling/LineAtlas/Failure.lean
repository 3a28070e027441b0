import LineAtlas.Name.Mangled

/-!
# Failures

Everything that can go wrong between a configuration and a report, with its wording and the
damage that it does.
-/

namespace LineAtlas

/-- Something that went wrong. Classes are named by their internal names. -/
inductive Failure where
  /-- A class file cannot be read or is corrupt. -/
  | malformedClassFile (path reason : String)
  /-- The metadata of a class cannot be interpreted. -/
  | unsupportedMetadata (className reason : String)
  /-- A declared member has no method. -/
  | unresolvedSignature (className signature : String)
  /-- A lambda class has no method with lines. -/
  | missingLambdaMethod (className : String)
  /-- A lambda class has several methods with lines. -/
  | severalLambdaMethods (className : String) (candidates : List String)
  /-- A mangled name cannot be split. -/
  | malformedName (cause : Mangled.Malformed)
  /-- A method with lines fits no rule. -/
  | unaccountedMethod (className signature : String)
  /-- A class cannot be placed in the tree of its source file. -/
  | composition (className reason : String)
  /-- The configuration is invalid. -/
  | invalidConfig (message : String)
  /-- A file cannot be read or written. -/
  | io (message : String)
  /-- A text is not the expected JSON. -/
  | json
  /-- A text is not the expected YAML. -/
  | yaml
  deriving DecidableEq, Repr

namespace Failure

/-- The wording of a failure. -/
def message : Failure → String
  | .malformedClassFile path reason => "Malformed class file " ++ path ++ ": " ++ reason
  | .unsupportedMetadata className reason =>
    "Unsupported Kotlin metadata in " ++ className ++ ": " ++ reason
  | .unresolvedSignature className signature =>
    "Unresolved signature " ++ signature ++ " in " ++ className
  | .missingLambdaMethod className => "No lambda method found in " ++ className
  | .severalLambdaMethods className candidates =>
    "Several lambda methods found in " ++ className ++ ": " ++ ", ".intercalate candidates
  | .malformedName cause => cause.message
  | .unaccountedMethod className signature =>
    "Unaccounted method " ++ signature ++ " in " ++ className
  | .composition className reason => "Cannot compose " ++ className ++ ": " ++ reason
  | .invalidConfig message => "Invalid configuration: " ++ message
  | .io message => "I/O error: " ++ message
  | .json => "JSON error"
  | .yaml => "YAML error"

/-- How far the damage of a failure reaches. -/
inductive Scope where
  /-- Nothing is known about the class file. -/
  | classFile
  /-- The class is left out of the tree of its source file. -/
  | oneClass
  /-- The run cannot go on. -/
  | run
  deriving DecidableEq, Repr

/-- The name of a scope. -/
def Scope.name : Scope → String
  | .classFile => "class-file"
  | .oneClass => "class"
  | .run => "run"

/-- The damage of a failure. -/
def scope : Failure → Scope
  | .malformedClassFile _ _ => .classFile
  | .invalidConfig _ | .io _ | .json | .yaml => .run
  | _ => .oneClass

end Failure

/-- A failure and the class file that it belongs to. -/
structure ClassFailure where
  /-- Path of the class file. -/
  file : String
  /-- Internal name of the class, when the file got far enough to have one. -/
  className : Option String
  /-- What went wrong. -/
  failure : Failure
  deriving DecidableEq, Repr

/-- The wording of a failure with its file and class. -/
def ClassFailure.display (e : ClassFailure) : String :=
  match e.className with
  | some name => e.file ++ " (" ++ name ++ "): " ++ e.failure.message
  | none => e.file ++ ": " ++ e.failure.message

end LineAtlas
