import LineAtlas.Name.Signature
import LineAtlas.Text.Split

/-!
# Declarations

What the compiler records about the source of a class: the class or package with its
functions, constructors and properties, and the types that they mention.
-/

namespace LineAtlas.Metadata

/-- Who may use a declaration. -/
inductive Visibility where
  | internalUse | privateUse | protectedUse | publicUse | privateToThis | localUse
  deriving DecidableEq, Repr

/-- The name of a visibility. -/
def Visibility.name : Visibility → String
  | .internalUse => "internal"
  | .privateUse => "private"
  | .protectedUse => "protected"
  | .publicUse => "public"
  | .privateToThis => "private_to_this"
  | .localUse => "local"

/-- The kind of a class declaration. -/
inductive ClassKind where
  | plain | interface | enumClass | enumEntry | annotationClass | object | companionObject
  deriving DecidableEq, Repr

/-- The name of a kind of classes. -/
def ClassKind.name : ClassKind → String
  | .plain => "class"
  | .interface => "interface"
  | .enumClass => "enum_class"
  | .enumEntry => "enum_entry"
  | .annotationClass => "annotation_class"
  | .object => "object"
  | .companionObject => "companion_object"

/-- Whether the class is declared as an object, companion or not. -/
def ClassKind.isObject : ClassKind → Bool
  | .object | .companionObject => true
  | _ => false

/-- How a member came to exist. -/
inductive MemberKind where
  /-- Written in the source. -/
  | declaration
  /-- Inherited. -/
  | fakeOverride
  /-- Forwards to a delegate. -/
  | delegation
  /-- Made by the compiler. -/
  | synthesized
  deriving DecidableEq, Repr

/-- The name of an origin. -/
def MemberKind.name : MemberKind → String
  | .declaration => "declaration"
  | .fakeOverride => "fake_override"
  | .delegation => "delegation"
  | .synthesized => "synthesized"

/-- What a type refers to. -/
inductive Classifier where
  /-- A class, by its metadata name. -/
  | classRef (name : String)
  /-- A type parameter, by number and, when it is known, by name. -/
  | typeParameter (id : Int) (name : Option String)
  /-- A type alias, by its metadata name. -/
  | typeAlias (name : String)
  deriving DecidableEq, Repr

/-- A type as a declaration mentions it. -/
structure TypeRef where
  /-- What the type refers to, when that is known. -/
  classifier : Option Classifier
  /-- Whether null belongs to the type. -/
  nullable : Bool
  deriving DecidableEq, Repr

namespace TypeRef

/-- The name of the class, when the type is one. -/
def className? (t : TypeRef) : Option String :=
  match t.classifier with
  | some (.classRef name) => some name
  | _ => none

/-- A metadata name with dots in the package. -/
def dotted (name : String) : String :=
  match Text.cutLast? '/' name with
  | some (package, relative) => Text.replaceChar '/' '.' package ++ "/" ++ relative
  | none => name

/-- The type without its question mark. -/
def base (t : TypeRef) : String :=
  match t.classifier with
  | some (.classRef name) | some (.typeAlias name) => dotted name
  | some (.typeParameter _ (some name)) => name
  | some (.typeParameter id none) => "#" ++ toString id
  | none => "?"

/-- The type as it is shown, such as `kotlin.collections/List?`. -/
def render (t : TypeRef) : String :=
  if t.nullable then t.base ++ "?" else t.base

end TypeRef

/-- A value parameter of a function or constructor. -/
structure Parameter where
  /-- Name. -/
  name : String
  /-- Whether a default value is declared. -/
  hasDefault : Bool
  /-- Type of the value. -/
  type : Option TypeRef
  /-- Type of each value, when any number of them can be given. -/
  vararg : Option TypeRef
  deriving DecidableEq, Repr

/-- The parameter as it is shown. -/
def Parameter.render (p : Parameter) : String :=
  match p.vararg, p.type with
  | some element, _ => "vararg " ++ element.render
  | none, some type => type.render
  | none, none => "?"

/-- A declared function. -/
structure FunctionDecl where
  /-- Name. -/
  name : String
  /-- How the function came to exist. -/
  kind : MemberKind
  /-- Who may call it. -/
  visibility : Visibility
  /-- Type of the receiver. -/
  receiver : Option TypeRef
  /-- Types of the context receivers. -/
  context : List TypeRef
  /-- Value parameters. -/
  parameters : List Parameter
  /-- Type of the result. -/
  returns : Option TypeRef
  /-- Signature of the method, recorded or derived. -/
  signature : Option Signature
  deriving DecidableEq, Repr

namespace FunctionDecl

/-- The context receivers as they are shown. -/
def renderContext : List TypeRef → String
  | [] => ""
  | types => "context(" ++ ", ".intercalate (types.map TypeRef.render) ++ ") "

/-- The receivers and the parameters as they are shown. -/
def render (f : FunctionDecl) : String :=
  let receiver :=
    match f.receiver with
    | some type => type.render ++ "."
    | none => ""
  renderContext f.context ++ receiver ++
    "(" ++ ", ".intercalate (f.parameters.map Parameter.render) ++ ")"

end FunctionDecl

/-- A declared constructor. -/
structure ConstructorDecl where
  /-- Whether the constructor stands in the body of the class. -/
  isSecondary : Bool
  /-- Who may call it. -/
  visibility : Visibility
  /-- Value parameters. -/
  parameters : List Parameter
  /-- Signature of the method, recorded or derived. -/
  signature : Option Signature
  deriving DecidableEq, Repr

/-- A declared property. -/
structure PropertyDecl where
  /-- Name. -/
  name : String
  /-- How the property came to exist. -/
  kind : MemberKind
  /-- Whether the property can be set. -/
  isVar : Bool
  /-- Whether the property has a getter. -/
  hasGetter : Bool
  /-- Whether the property has a setter. -/
  hasSetter : Bool
  /-- Whether the getter has a body in the source. -/
  customGetter : Bool
  /-- Whether the setter has a body in the source. -/
  customSetter : Bool
  /-- Signature of the getter's method. -/
  getter : Option Signature
  /-- Signature of the setter's method. -/
  setter : Option Signature
  deriving DecidableEq, Repr

/-- A declared class. -/
structure ClassDecl where
  /-- Metadata name. -/
  name : String
  /-- Kind of the class. -/
  kind : ClassKind
  /-- Who may use it. -/
  visibility : Visibility
  /-- Whether it is a data class. -/
  isData : Bool
  /-- Name of the companion object. -/
  companion : Option String
  /-- Names of the nested classes. -/
  nested : List String
  /-- Constructors in order. -/
  constructors : List ConstructorDecl
  /-- Functions in order. -/
  functions : List FunctionDecl
  /-- Properties in order. -/
  properties : List PropertyDecl
  /-- Whether the bodies of interface methods stay in the interface. -/
  bodiesInInterface : Bool
  deriving DecidableEq, Repr

/-- Whether the class is declared inside a function body. -/
def ClassDecl.isLocal (c : ClassDecl) : Bool := c.visibility == .localUse

/-- The functions and properties at the top level of a file. -/
structure PackageDecl where
  /-- Functions in order. -/
  functions : List FunctionDecl
  /-- Properties in order. -/
  properties : List PropertyDecl
  deriving DecidableEq, Repr

/-- What the metadata of one class file describes. -/
inductive Document where
  /-- A class. -/
  | classDecl (decl : ClassDecl)
  /-- The top level of a file. -/
  | fileFacade (package : PackageDecl)
  /-- A class made by the compiler, with the lambda whose body it holds. -/
  | syntheticClass (lambda : Option FunctionDecl)
  /-- A class that joins the top levels of several files. -/
  | multiFileFacade (parts : List String)
  /-- The top level of one of several files that are joined. -/
  | multiFilePart (facade : String) (package : PackageDecl)
  /-- Metadata of a kind or version that is not known. -/
  | unknown (kind : Int) (version : List Int)
  deriving DecidableEq, Repr

end LineAtlas.Metadata
