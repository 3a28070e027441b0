import LineAtlas.Metadata.Declaration
import LineAtlas.Text.Decimal

/-!
# Descriptors derived from declared types

The descriptor of a member is not recorded when it follows from the declared types. A type
then stands for one field type: some classes have a counterpart of their own, all others
keep their name.
-/

namespace LineAtlas.Metadata

/-- Classes that stand for primitive types, with their letters. -/
def primitiveNames : List (String × String) :=
  [("Boolean", "Z"), ("Char", "C"), ("Byte", "B"), ("Short", "S"), ("Int", "I"),
    ("Float", "F"), ("Long", "J"), ("Double", "D")]

/-- Classes with a counterpart of the same name among the basic classes. -/
def basicNames : List String :=
  ["String", "CharSequence", "Throwable", "Cloneable", "Number", "Comparable", "Enum"]

/-- Collections with a counterpart of the same name. -/
def collectionNames : List String :=
  ["Iterator", "Collection", "List", "Set", "Map", "ListIterator"]

/-- Classes whose companion object has a counterpart. -/
def companionNames : List String :=
  ["Char", "Byte", "Short", "Int", "Float", "Long", "Double", "String", "Enum"]

/-- Classes with a counterpart of another name. -/
def renamedClasses : List (String × String) :=
  [("Any", "java/lang/Object"), ("Nothing", "java/lang/Void"),
    ("Annotation", "java/lang/annotation/Annotation"),
    ("collections/Iterable", "java/lang/Iterable"),
    ("collections/MutableIterable", "java/lang/Iterable"),
    ("collections/Map.Entry", "java/util/Map$Entry"),
    ("collections/MutableMap.MutableEntry", "java/util/Map$Entry")]

/-- The value of the first entry with a key. -/
def valueOf? (entries : List (String × String)) (key : String) : Option String :=
  (entries.find? (·.1 == key)).map Prod.snd

/-- The field type of a class with a given internal name. -/
def objectType (internal : String) : String := "L" ++ internal ++ ";"

/-- A number of arguments for which there is a function type: at most 22. -/
def isArity (text : String) : Bool := (Text.decimal? text.toList).any (· ≤ 22)

/-- The letter of a primitive type or of an array of them. -/
def primitiveType? (simple : String) : Option String :=
  (valueOf? primitiveNames simple).orElse fun _ => do
    let element ← Text.dropTail? "Array" simple
    return "[" ++ (← valueOf? primitiveNames element)

/-- The counterpart of a collection, read-only or not. -/
def collectionType? (simple : String) : Option String := do
  let name ← Text.dropHead? "collections/" simple
  let name := (Text.dropHead? "Mutable" name).getD name
  if collectionNames.contains name then some (objectType ("java/util/" ++ name)) else none

/-- The counterpart of a function type. -/
def functionType? (simple : String) : Option String := do
  let arity ← Text.dropHead? "Function" simple
  if isArity arity then some (objectType ("kotlin/jvm/functions/Function" ++ arity)) else none

/-- The counterpart of a type of function references. -/
def functionReferenceType? (simple : String) : Option String := do
  let arity ← Text.dropHead? "reflect/KFunction" simple
  if isArity arity then some (objectType "kotlin/reflect/KFunction") else none

/-- The counterpart of a companion object. -/
def companionType? (simple : String) : Option String := do
  let owner ← Text.dropTail? ".Companion" simple
  if companionNames.contains owner then
    some (objectType ("kotlin/jvm/internal/" ++ owner ++ "CompanionObject"))
  else none

/-- The field type of a class of the language's own package, when it has a counterpart. -/
def counterpart? (simple : String) : Option String :=
  primitiveType? simple
  <|> (if simple == "Unit" then some "V" else none)
  <|> (valueOf? renamedClasses simple).map objectType
  <|> (if basicNames.contains simple then some (objectType ("java/lang/" ++ simple)) else none)
  <|> collectionType? simple
  <|> functionType? simple
  <|> functionReferenceType? simple
  <|> companionType? simple

/-- The field type of a class, by its metadata name. -/
def mapClass (name : String) : String :=
  ((Text.dropHead? "kotlin/" name).bind counterpart?).getD
    (objectType (Text.replaceChar '.' '$' name))

/-- The field type of a declared type, when that is a class. -/
def mapType? (type : TypeRef) : Option String := type.className?.map mapClass

/-- The field types of parameters, when the types of all of them are classes. -/
def mapParameters? (parameters : List Parameter) : Option String :=
  String.join <$> parameters.mapM fun p => p.type.bind mapType?

/-- The descriptor that follows from the declared types of a function. -/
def functionDescriptor? (receiver : Option TypeRef) (parameters : List Parameter)
    (returns : Option TypeRef) : Option String := do
  let receiver ←
    match receiver with
    | some type => mapType? type
    | none => some ""
  let parameters ← mapParameters? parameters
  let returns ← returns.bind mapType?
  return "(" ++ receiver ++ parameters ++ ")" ++ returns

/-- The descriptor that follows from the declared types of a constructor. -/
def constructorDescriptor? (parameters : List Parameter) : Option String := do
  return "(" ++ (← mapParameters? parameters) ++ ")V"

end LineAtlas.Metadata
