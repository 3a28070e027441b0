import LineAtlas.Resolution.ResolvedUnit

/-!
# Trees of declarations

The declarations of one source file. Functions and classes stand in two lists, and refer to
each other by their positions there.
-/

namespace LineAtlas

/-- Position of a function in a tree. -/
abbrev FunctionId := Nat

/-- Position of a class in a tree. -/
abbrev ClassId := Nat

/-- How a function is shown. -/
inductive FunctionKind where
  /-- A member, a function at the top level or a constructor. -/
  | declared (name : String) (descriptor : Option String) (isConstructor : Bool)
  /-- A function in the body of another one. -/
  | localFunction (name : String)
  /-- A lambda, an accessor, an initializer or a helper. -/
  | anonymous
  deriving DecidableEq, Repr

/-- A function and what it contains. -/
structure FunctionNode where
  /-- How the function is shown. -/
  kind : FunctionKind
  /-- Signature and lines of its method. -/
  body : Body
  /-- The helper that fills in default arguments. -/
  defaultValues : Option FunctionId := none
  /-- Local functions and lambdas, in the order in which they were placed. -/
  locals : List FunctionId := []
  /-- Local classes, object expressions and lambda classes. -/
  classes : List ClassId := []
  deriving DecidableEq

/-- The name of a function; that of its method, when it is anonymous. -/
def FunctionNode.name (f : FunctionNode) : String :=
  match f.kind with
  | .declared name _ _ | .localFunction name => name
  | .anonymous => f.body.signature.name

/-- A property and its accessors. -/
structure PropertyNode where
  /-- Name. -/
  name : String
  /-- Whether the property can be set. -/
  isVar : Bool
  /-- Whether the getter has a body in the source. -/
  customGetter : Bool
  /-- Whether the setter has a body in the source. -/
  customSetter : Bool
  /-- The getter. -/
  getter : Option FunctionId
  /-- The setter. -/
  setter : Option FunctionId
  deriving DecidableEq, Repr

/-- What a class with a name of its own has besides members. -/
structure NamedShape where
  /-- Declared name. -/
  declaredName : ClassName
  /-- Whether it is an object. -/
  isObject : Bool
  /-- Whether it is a data class. -/
  isData : Bool
  /-- Name of the companion object. -/
  companionName : Option String
  /-- Nested classes and objects. -/
  nested : List ClassId := []
  /-- The companion object. -/
  companion : Option ClassId := none
  /-- The holder of the bodies of its methods, for an interface. -/
  defaultImpls : Option ClassId := none
  deriving DecidableEq, Repr

/-- What a class stands for. -/
inductive ClassShape where
  /-- A class, object or interface with a name of its own. -/
  | named (shape : NamedShape)
  /-- A class in a function body. -/
  | localClass (kind : LocalKind) (origin : Origin)
  /-- The top level of a file, with its initializer. -/
  | facade (init : Option FunctionId)
  /-- The holder of the bodies of interface methods. -/
  | defaultImpls
  deriving DecidableEq

/-- A class and its members. -/
structure ClassNode where
  /-- Internal name. -/
  jvmName : String
  /-- What the class stands for. -/
  shape : ClassShape
  /-- Functions. -/
  functions : List FunctionId := []
  /-- Constructors. -/
  constructors : List FunctionId := []
  /-- Properties. -/
  properties : List PropertyNode := []
  /-- Whether the class is left out of the report with everything below it. -/
  failed : Bool := false
  deriving DecidableEq

namespace ClassNode

/-- The declared name, when the class has one. -/
def declaredName? (c : ClassNode) : Option ClassName :=
  match c.shape with
  | .named shape => some shape.declaredName
  | _ => none

/-- Whether the class is an object. -/
def isObject (c : ClassNode) : Bool :=
  match c.shape with
  | .named shape => shape.isObject
  | _ => false

/-- The functions that the class owns: functions, constructors, accessors and initializer. -/
def memberFunctions (c : ClassNode) : List FunctionId :=
  let init :=
    match c.shape with
    | .facade (some init) => [init]
    | _ => []
  c.functions ++ c.constructors
    ++ c.properties.flatMap (fun p => p.getter.toList ++ p.setter.toList) ++ init

/-- The function in which initializers of the class run: that of a file's top level, or else
the first constructor. -/
def initializer? (c : ClassNode) : Option FunctionId :=
  match c.shape with
  | .facade init => init
  | _ => c.constructors.head?

end ClassNode

/-- The declarations of one source file. -/
structure SourceTree where
  /-- Path of the source file. -/
  path : String
  /-- All functions, in the order in which they were made. -/
  functions : List FunctionNode := []
  /-- All classes, in the order in which they were made. -/
  classes : List ClassNode := []
  /-- Classes and objects at the top level. -/
  topLevel : List ClassId := []
  /-- Top levels of the file. -/
  facades : List ClassId := []
  deriving DecidableEq

namespace SourceTree

/-- A function of the tree. -/
def function? (t : SourceTree) (id : FunctionId) : Option FunctionNode := t.functions[id]?

/-- A class of the tree. -/
def class? (t : SourceTree) (id : ClassId) : Option ClassNode := t.classes[id]?

/-- The first class with a name relative to its package. -/
def namedClass? (t : SourceTree) (relative : String) : Option ClassNode :=
  t.classes.find? fun c => c.declaredName?.any (·.relative == relative)

/-- A function and the functions below it down to a given depth: itself, its helper for
default arguments, its local functions. -/
def functionsWithin (t : SourceTree) : Nat → FunctionId → List FunctionId
  | 0, _ => []
  | depth + 1, id =>
    match t.function? id with
    | none => []
    | some node =>
      id :: (node.defaultValues.toList ++ node.locals).flatMap (t.functionsWithin depth)

/-- A function and all functions below it. A branch visits every function of the tree at
most once. -/
def functionTree (t : SourceTree) (root : FunctionId) : List FunctionId :=
  t.functionsWithin t.functions.length root

end SourceTree

end LineAtlas
