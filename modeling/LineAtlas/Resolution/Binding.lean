import LineAtlas.Metadata.Declaration
import LineAtlas.Name.DefaultHelper
import LineAtlas.Resolution.ResolvedUnit

/-!
# Binding members to methods

Rules take methods one after the other, the strict ones first: declared members by their
signature, helpers for default arguments, initializers, local functions by their names, and
members that the compiler adds.
-/

namespace LineAtlas

open Metadata (FunctionDecl ConstructorDecl PropertyDecl)

/-- A rule that takes methods and may fail. -/
abbrev Binding := StateT Claims (Except Failure)

namespace Binding

/-- The first free method of a kind, if any. -/
def first? (role : Role) (kind : Method → Bool) : Binding (Option Body) := fun claims =>
  match claims.takeFirst? role kind with
  | some (body, claims) => .ok (some body, claims)
  | none => .ok (none, claims)

/-- All free methods of a kind. -/
def all (role : Role) (kind : Method → Bool) : Binding (List Body) := fun claims =>
  .ok (claims.takeAll role kind)

/-- The first free method with a signature, when one is given. -/
def withSignature? (role : Role) : Option Signature → Binding (Option Body)
  | some signature => first? role (·.signature == signature)
  | none => pure none

/-- The method of a declared member. In an interface it may be missing, as the body may be
in another class. -/
def declared (file : ClassFile) (role : Role) (memberName : String)
    (signature : Option Signature) : Binding (Option Body) := do
  match ← withSignature? role signature with
  | some body => return some body
  | none =>
    if file.isInterface then return none
    else
      let wanted :=
        match signature with
        | some signature => signature.display
        | none => memberName ++ "(?)"
      throw (.unresolvedSignature file.name wanted)

/-- A declared function or constructor and the number of its value parameters. -/
structure Candidate where
  /-- The member, as yet without helper. -/
  function : BoundFunction
  /-- The number of its value parameters. -/
  parameters : Nat

/-- The method of a declared function. A function that is not declared only takes its method
out of the way. -/
def function (file : ClassFile) (f : FunctionDecl) : Binding (Option Candidate) := do
  if f.kind == .declaration then
    let body ← declared file .declared f.name f.signature
    return body.map fun body =>
      ⟨⟨f.name, some f.render, false, body, none⟩, f.parameters.length⟩
  else
    let _ ← withSignature? .synthesized f.signature
    return none

/-- The method of a declared constructor. -/
def constructor (file : ClassFile) (c : ConstructorDecl) : Binding (Option Candidate) := do
  let body ← declared file .constructor Signature.constructorName c.signature
  return body.map fun body =>
    ⟨⟨Signature.constructorName, none, true, body, none⟩, c.parameters.length⟩

/-- The method of a declared accessor; accessors without signature have none. -/
def accessor (file : ClassFile) (property : String) :
    Option Signature → Binding (Option Body)
  | some signature => declared file .accessor property (some signature)
  | none => pure none

/-- The methods of a declared property. A property that is not declared only takes its
methods out of the way. -/
def property (file : ClassFile) (p : PropertyDecl) : Binding (Option BoundProperty) := do
  if p.kind == .declaration then
    let getter ← accessor file p.name p.getter
    let setter ← accessor file p.name p.setter
    return some ⟨p.name, p.isVar, p.customGetter, p.customSetter, getter, setter⟩
  else
    let _ ← withSignature? .synthesized p.getter
    let _ ← withSignature? .synthesized p.setter
    return none

/-- A member with the helper that fills in its default arguments. -/
def withDefaultValues (c : Candidate) : Binding BoundFunction := do
  let isHelper :=
    if c.function.isConstructor then DefaultHelper.isOfConstructor
    else DefaultHelper.isOfFunction
  let helper ← first? .defaultHelper fun m =>
    isHelper m.signature c.function.body.signature (some c.parameters)
  return { c.function with defaultValues := helper }

/-- A constructor-like method that is not declared. -/
def implicitFunction (body : Body) : BoundFunction :=
  ⟨body.signature.name, none, true, body, none⟩

/-- Whether a name is a key, a dollar and something more. -/
def isLocalOf (name key : String) : Bool :=
  match Text.dropHead? (key ++ "$") name with
  | some rest => !rest.isEmpty
  | none => false

/-- The keys under which the local functions of members are known. -/
def localKeys (functions constructors : List BoundFunction) (properties : List BoundProperty) :
    List String :=
  functions.flatMap (fun f => [f.name, f.body.signature.name])
    ++ (if constructors.isEmpty then [] else [LocalName.constructorKey])
    ++ properties.flatMap fun p =>
      (if p.getter.isSome then [LocalName.getterKey p.name] else [])
        ++ (if p.setter.isSome then [LocalName.setterKey p.name] else [])

/-- Whether a method is the static initializer and has lines. -/
def isStaticInit (m : Method) : Bool :=
  m.signature.isStaticInitializer && !m.lines.isEmpty

/-- Whether a method is a constructor that the source may leave out. -/
def isImplicitConstructor (m : Method) : Bool :=
  m.signature.isConstructor && !m.isSynthetic && !m.lines.isEmpty

/-- Whether a method may forward to a member of the companion object. -/
def isForwarder (m : Method) : Bool :=
  m.isStatic && !m.isSynthetic && !m.lines.isEmpty

/-- Whether a name is `component` with a number. -/
def isComponent (name : String) : Bool :=
  (Text.dropHead? "component" name).any fun rest => Text.isDigits rest.toList

/-- Members that every data class has. -/
def dataMembers : List String := ["toString", "hashCode", "equals", "copy"]

/-- Members that every enumeration has. -/
def enumMembers : List String := ["values", "valueOf", "getEntries", "$values"]

/-- What members belong to. -/
inductive Container where
  /-- The top level of a file, whose static initializer is its init function. -/
  | facade
  /-- A class, whose static initializer is listed among its constructors. -/
  | classLike (isData isEnum hasCompanion : Bool)

/-- Whether the compiler adds a method of this name to a class of this kind. -/
def isGenerated (isData isEnum : Bool) (m : Method) : Bool :=
  let name := m.signature.name
  (isData && (dataMembers.contains name || isComponent name)) ||
    (isEnum && enumMembers.contains name)

/-- The members that declarations and leftover methods make up. -/
def members (file : ClassFile) (container : Container) (functions : List FunctionDecl)
    (constructors : List ConstructorDecl) (properties : List PropertyDecl) :
    Binding Members := do
  let functions ← functions.mapM (function file)
  let constructors ← constructors.mapM (constructor file)
  let properties ← properties.mapM (property file)
  let functions ← (functions.filterMap id).mapM withDefaultValues
  let constructors ← (constructors.filterMap id).mapM withDefaultValues
  let properties := properties.filterMap id
  let init ← first? .staticInit isStaticInit
  match container with
  | .facade =>
    let keys := localKeys functions constructors properties
    let locals ← all .localFunction fun m => keys.any (isLocalOf m.signature.name)
    return { functions, constructors, properties, locals, init }
  | .classLike isData isEnum hasCompanion =>
    let implicit ← all .constructor isImplicitConstructor
    let constructors := constructors ++ implicit.map implicitFunction
    let keys := localKeys functions constructors properties
    let locals ← all .localFunction fun m => keys.any (isLocalOf m.signature.name)
    let _ ← all .synthesized (isGenerated isData isEnum)
    let forwarders ← if hasCompanion then all .synthesized isForwarder else pure []
    let constructors := constructors ++ init.toList.map implicitFunction
    return { functions, constructors, properties, locals, forwarders }

end Binding

end LineAtlas
