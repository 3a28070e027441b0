import LineAtlas.Metadata.DefaultDescriptor
import LineAtlas.Metadata.NameTable

/-!
# Declarations from messages

Every kind of declaration is a kind of message. Types are given in place or by their index
in a table of the enclosing message.
-/

namespace LineAtlas.Metadata

open Wire (Message)

/-- The number that some bits of a flag word spell, from a given lowest bit. -/
def bitsOfFlags (flags : Int) (lowest width : Nat) : Int :=
  flags / Nat.pow 2 lowest % Nat.pow 2 width

/-- Whether a bit of a flag word is set. -/
def hasFlag (flags : Int) (bit : Nat) : Bool := bitsOfFlags flags bit 1 == 1

/-- The visibility in a flag word. -/
def Visibility.ofFlags (flags : Int) : Visibility :=
  match bitsOfFlags flags 1 3 with
  | 0 => .internalUse
  | 1 => .privateUse
  | 2 => .protectedUse
  | 4 => .privateToThis
  | 5 => .localUse
  | _ => .publicUse

/-- The kind of class in a flag word. -/
def ClassKind.ofFlags (flags : Int) : ClassKind :=
  match bitsOfFlags flags 6 3 with
  | 1 => .interface
  | 2 => .enumClass
  | 3 => .enumEntry
  | 4 => .annotationClass
  | 5 => .object
  | 6 => .companionObject
  | _ => .plain

/-- The kind of member in a flag word. -/
def MemberKind.ofFlags (flags : Int) : MemberKind :=
  match bitsOfFlags flags 6 2 with
  | 1 => .fakeOverride
  | 2 => .delegation
  | 3 => .synthesized
  | _ => .declaration

/-- Flags of a member that records none. -/
def defaultFlags : Int := 6

/-- Flags of a property that records none, in their older layout. -/
def defaultPropertyFlags : Int := 2054

/-- A flag word in its older layout, with two bits less after the first six. -/
def ofOldFlags (flags : Int) : Int := flags % 64 + flags / 256 * 64

/-- The flags of a function or property: the newer field, or else the older one. -/
def memberFlags (m : Message) (newer : Nat) (default : Int) : Int :=
  match m.int? newer with
  | some flags => flags
  | none => ofOldFlags ((m.int? 1).getD default)

/-- What a declaration can refer to. -/
structure Scope where
  /-- Names by index. -/
  names : NameTable
  /-- Types by index. -/
  types : List TypeRef := []
  /-- Names of type parameters, the innermost first. -/
  typeParameters : List (Int × String) := []

namespace Scope

/-- The name at an index, when an index is given. -/
def name? (s : Scope) : Option Int → Except Malformed (Option String)
  | some index => some <$> s.names.get index
  | none => .ok none

/-- The name of a type parameter, when it is known. -/
def typeParameter? (s : Scope) (id : Int) : Option String :=
  (s.typeParameters.find? (·.1 == id)).map Prod.snd

/-- What a type message refers to: a class, a type parameter by number or by name, or an
alias, the first of them that is there. -/
def classifier (s : Scope) (m : Message) : Except Malformed (Option Classifier) :=
  match m.int? 6, m.int? 7, m.int? 9, m.int? 12 with
  | some index, _, _, _ => (some ∘ .classRef) <$> s.names.get index
  | none, some id, _, _ => .ok (some (.typeParameter id (s.typeParameter? id)))
  | none, none, some index, _ =>
    (fun name => some (.typeParameter (-1) (some name))) <$> s.names.get index
  | none, none, none, some index => (some ∘ .typeAlias) <$> s.names.get index
  | none, none, none, none => .ok none

/-- The type that bytes spell. -/
def type (s : Scope) (bytes : List UInt8) : Except Malformed TypeRef := do
  let m ← Message.ofBytes "Type" bytes
  return ⟨← s.classifier m, m.flag 3⟩

/-- The type at an index. -/
def typeAt (s : Scope) (index : Int) : Except Malformed TypeRef :=
  match itemAt? s.types index with
  | some type => .ok type
  | none => .error (.badTypeIndex index)

/-- A type given in place, or else by index, or not at all. -/
def typeIn (s : Scope) (m : Message) (inPlace byIndex : Nat) :
    Except Malformed (Option TypeRef) :=
  match m.message? inPlace, m.int? byIndex with
  | some bytes, _ => some <$> s.type bytes
  | none, some index => some <$> s.typeAt index
  | none, none => .ok none

/-- All types given in place, followed by those given by index. -/
def typesIn (s : Scope) (m : Message) (inPlace byIndex : Nat) :
    Except Malformed (List TypeRef) := do
  let given ← (m.messages inPlace).mapM s.type
  let indexed ← (← m.ints byIndex).mapM s.typeAt
  return given ++ indexed

/-- The number and name of a type parameter. -/
def typeParameter (s : Scope) (bytes : List UInt8) : Except Malformed (Int × String) := do
  let m ← Message.ofBytes "TypeParameter" bytes
  let id ← m.int 1
  return (id, ← s.names.get (← m.int 2))

/-- Types of a table, all nullable from a given index on unless that is negative. -/
def nullableFrom (first : Int) (types : List TypeRef) : List TypeRef :=
  types.mapIdx fun index type =>
    if 0 ≤ first ∧ first ≤ index then { type with nullable := true } else type

/-- The types of a table. -/
def typeTable (s : Scope) (bytes : List UInt8) : Except Malformed (List TypeRef) := do
  let m ← Message.ofBytes "TypeTable" bytes
  let types ← (m.messages 1).mapM s.type
  return nullableFrom ((m.int? 2).getD (-1)) types

/-- The scope inside a message, whose type parameters have the given field number. Its own
type table replaces that of the enclosing message. -/
def inside (s : Scope) (m : Message) (parameterField : Option Nat) :
    Except Malformed Scope := do
  let parameters ←
    match parameterField with
    | some number => (m.messages number).mapM s.typeParameter
    | none => pure []
  let s := { s with typeParameters := parameters.reverse ++ s.typeParameters }
  match m.message? 30 with
  | some bytes => return { s with types := ← s.typeTable bytes }
  | none => return s

/-- The value parameter that bytes spell. -/
def parameter (s : Scope) (bytes : List UInt8) : Except Malformed Parameter := do
  let m ← Message.ofBytes "ValueParameter" bytes
  let name ← s.names.get (← m.int 2)
  let type ← s.typeIn m 3 5
  let vararg ← s.typeIn m 4 6
  return { name, hasDefault := hasFlag ((m.int? 1).getD 0) 1, type, vararg }

/-- The indexes of a recorded method name and descriptor. -/
def recordedSignature (bytes : List UInt8) : Except Malformed (Option Int × Option Int) := do
  let m ← Message.ofBytes "JvmMethodSignature" bytes
  return (m.int? 1, m.int? 2)

/-- The recorded method name and descriptor of a member, as far as there are any. -/
def recordedSignatureIn (m : Message) : Except Malformed (Option Int × Option Int) :=
  match m.message? 100 with
  | some bytes => recordedSignature bytes
  | none => .ok (none, none)

/-- The function that bytes spell. -/
def function (outer : Scope) (bytes : List UInt8) : Except Malformed FunctionDecl := do
  let m ← Message.ofBytes "Function" bytes
  let flags := memberFlags m 9 defaultFlags
  let s ← outer.inside m (some 4)
  let name ← s.names.get (← m.int 2)
  let receiver ← s.typeIn m 5 8
  let context ← s.typesIn m 10 11
  let returns ← s.typeIn m 3 7
  let parameters ← (m.messages 6).mapM s.parameter
  let (methodName, descriptor) ← recordedSignatureIn m
  let methodName ← s.name? methodName
  let descriptor ← s.name? descriptor
  let descriptor := descriptor.orElse fun _ => functionDescriptor? receiver parameters returns
  return {
    name, kind := .ofFlags flags, visibility := .ofFlags flags, receiver, context, parameters,
    returns, signature := descriptor.map fun d => ⟨methodName.getD name, d⟩ }

/-- The constructor that bytes spell. -/
def constructor (s : Scope) (bytes : List UInt8) : Except Malformed ConstructorDecl := do
  let m ← Message.ofBytes "Constructor" bytes
  let flags := (m.int? 1).getD defaultFlags
  let parameters ← (m.messages 2).mapM s.parameter
  let (_, descriptor) ← recordedSignatureIn m
  let descriptor ← s.name? descriptor
  let descriptor := descriptor.orElse fun _ => constructorDescriptor? parameters
  return {
    isSecondary := hasFlag flags 4, visibility := .ofFlags flags, parameters,
    signature := descriptor.map fun d => ⟨Signature.constructorName, d⟩ }

/-- The recorded signature of an accessor; both of its parts have to be there. -/
def accessor (s : Scope) : Option (List UInt8) → Except Malformed (Option Signature)
  | none => .ok none
  | some bytes => do
    match ← recordedSignature bytes with
    | (some name, some descriptor) =>
      let name ← s.names.get name
      return some ⟨name, ← s.names.get descriptor⟩
    | _ => return none

/-- The recorded signatures of getter and setter. -/
def accessors (s : Scope) : Option (List UInt8) →
    Except Malformed (Option Signature × Option Signature)
  | none => .ok (none, none)
  | some bytes => do
    let m ← Message.ofBytes "JvmPropertySignature" bytes
    let getter ← s.accessor (m.message? 3)
    return (getter, ← s.accessor (m.message? 4))

/-- The property that bytes spell. -/
def property (s : Scope) (bytes : List UInt8) : Except Malformed PropertyDecl := do
  let m ← Message.ofBytes "Property" bytes
  let flags := memberFlags m 11 defaultPropertyFlags
  let isCustom (number : Nat) : Bool := (m.int? number).any (hasFlag · 6)
  let (getter, setter) ← s.accessors (m.message? 100)
  let name ← s.names.get (← m.int 2)
  return {
    name, kind := .ofFlags flags, isVar := hasFlag flags 8, hasGetter := hasFlag flags 9,
    hasSetter := hasFlag flags 10, customGetter := isCustom 7, customSetter := isCustom 8,
    getter, setter }

/-- The class that bytes spell. -/
def classDecl (outer : Scope) (bytes : List UInt8) : Except Malformed ClassDecl := do
  let m ← Message.ofBytes "Class" bytes
  let flags := (m.int? 1).getD defaultFlags
  let s ← outer.inside m (some 5)
  let companion ← s.name? (m.int? 4)
  let nested ← (← m.ints 7).mapM s.names.get
  let name ← s.names.get (← m.int 3)
  let constructors ← (m.messages 8).mapM s.constructor
  let functions ← (m.messages 9).mapM s.function
  let properties ← (m.messages 10).mapM s.property
  return {
    name, kind := .ofFlags flags, visibility := .ofFlags flags, isData := hasFlag flags 10,
    companion, nested, constructors, functions, properties,
    bodiesInInterface := hasFlag ((m.int? 104).getD 0) 0 }

/-- The top level of a file that bytes spell. -/
def packageDecl (outer : Scope) (bytes : List UInt8) : Except Malformed PackageDecl := do
  let m ← Message.ofBytes "Package" bytes
  let s ← outer.inside m none
  let functions ← (m.messages 3).mapM s.function
  return ⟨functions, ← (m.messages 4).mapM s.property⟩

end Scope

end LineAtlas.Metadata
