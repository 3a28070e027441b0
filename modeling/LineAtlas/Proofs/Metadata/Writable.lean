import Mathlib.Data.Set.List
import LineAtlas.Proofs.Metadata.Documents

/-!
# Every declaration can be written

A declaration can be written with given strings if its names are among them, its types are
referred to by name, and its signatures are recorded or follow from the types. For every such
declaration there is a message that is read as it.
-/

namespace LineAtlas.Metadata

open Written
open Wire (delimitedBytes)

section Words

/-- Every visibility has bits that stand for it. -/
theorem exists_visibilityOf (v : Visibility) : ∃ bits, visibilityOf bits = v := by
  cases v
  exacts [⟨0, rfl⟩, ⟨1, rfl⟩, ⟨2, rfl⟩, ⟨3, rfl⟩, ⟨4, rfl⟩, ⟨5, rfl⟩]

/-- Every kind of class has bits that stand for it. -/
theorem exists_classKindOf (k : ClassKind) : ∃ bits, classKindOf bits = k := by
  cases k
  exacts [⟨0, rfl⟩, ⟨1, rfl⟩, ⟨2, rfl⟩, ⟨3, rfl⟩, ⟨4, rfl⟩, ⟨5, rfl⟩, ⟨6, rfl⟩]

/-- Every way in which a member came to exist has bits that stand for it. -/
theorem exists_memberKindOf (k : MemberKind) : ∃ bits, memberKindOf bits = k := by
  cases k
  exacts [⟨0, rfl⟩, ⟨1, rfl⟩, ⟨2, rfl⟩, ⟨3, rfl⟩]

/-- The flags of a class. -/
theorem exists_classFlags (kind : ClassKind) (visibility : Visibility) (data : Bool) :
    ∃ flags : BitVec 32, classKindOf (flags.extractLsb' 6 3) = kind ∧
      visibilityOf (flags.extractLsb' 1 3) = visibility ∧ flags.getLsbD 10 = data := by
  obtain ⟨k, rfl⟩ := exists_classKindOf kind
  obtain ⟨v, rfl⟩ := exists_visibilityOf visibility
  refine ⟨(BitVec.ofBool data ++ 0#1 ++ k ++ 0#2 ++ v ++ 0#1).setWidth 32, ?_⟩
  revert k v data
  decide

/-- The flags of a function. -/
theorem exists_functionFlags (kind : MemberKind) (visibility : Visibility) :
    ∃ flags : MemberFlags, flags.kind 6 = kind ∧ flags.visibility 6 = visibility := by
  obtain ⟨k, rfl⟩ := exists_memberKindOf kind
  obtain ⟨v, rfl⟩ := exists_visibilityOf visibility
  refine ⟨.newer ((k ++ 0#2 ++ v ++ 0#1).setWidth 32), ?_⟩
  revert k v
  decide

/-- The flags of a constructor. -/
theorem exists_constructorFlags (secondary : Bool) (visibility : Visibility) :
    ∃ flags : BitVec 32, flags.getLsbD 4 = secondary ∧
      visibilityOf (flags.extractLsb' 1 3) = visibility := by
  obtain ⟨v, rfl⟩ := exists_visibilityOf visibility
  refine ⟨(BitVec.ofBool secondary ++ v ++ 0#1).setWidth 32, ?_⟩
  revert secondary v
  decide

/-- The flags of a property. -/
theorem exists_propertyFlags (kind : MemberKind) (isVar getter setter : Bool) :
    ∃ flags : MemberFlags, flags.kind 2054 = kind ∧ flags.flag 2054 8 = isVar ∧
      flags.flag 2054 9 = getter ∧ flags.flag 2054 10 = setter := by
  obtain ⟨k, rfl⟩ := exists_memberKindOf kind
  refine ⟨.newer ((BitVec.ofBool setter ++ BitVec.ofBool getter ++ BitVec.ofBool isVar ++ k
    ++ 0#6).setWidth 32), ?_⟩
  revert isVar getter setter k
  decide

/-- A word with a single bit that is set or not. -/
theorem exists_bit {bit : Nat} (hbit : bit < 32) (set : Bool) :
    ∃ flags : Option (BitVec 32), (flags.any fun flags => flags.getLsbD bit) = set := by
  cases set with
  | false => exact ⟨none, rfl⟩
  | true =>
    exact ⟨some (BitVec.allOnes 32), BitVec.getLsbD_allOnes.trans (decide_eq_true hbit)⟩

end Words

variable {strings : List String}

section Names

/-- Every one of the strings can be referred to. -/
theorem exists_name (hstrings : strings.length ≤ 2 ^ 31) {text : String} (h : text ∈ strings) :
    ∃ n : Name strings, n.text = text := by
  obtain ⟨index, hlt, rfl⟩ := List.mem_iff_getElem.mp h
  exact ⟨⟨index, hlt, by omega⟩, rfl⟩

variable {α β : Type} {meaning : α → β}

/-- What may be missing can be written when it can be written where it is there. -/
theorem exists_toOption {o : Option β} (h : ∀ b ∈ o, ∃ a, meaning a = b) :
    ∃ a : Option α, a.map meaning = o := by
  cases o with
  | none => exact ⟨none, rfl⟩
  | some b =>
    obtain ⟨a, rfl⟩ := h b rfl
    exact ⟨some a, rfl⟩

/-- A list can be written when each of its items can. -/
theorem exists_toList {l : List β} (h : ∀ b ∈ l, ∃ a, meaning a = b) :
    ∃ a : List α, a.map meaning = l :=
  (Set.range_list_map meaning).ge h

end Names

/-- The type is referred to by one of the strings. -/
def TypeRef.Writable (strings : List String) (t : TypeRef) : Prop :=
  ∃ (target : Target) (name : String), name ∈ strings ∧
    t.classifier = some (target.classifier name)

/-- Every writable type has a message. -/
theorem TypeRef.Writable.exists_message (hstrings : strings.length ≤ 2 ^ 31) {t : TypeRef}
    (h : t.Writable strings) : ∃ m : TypeMessage strings, m.typeRef = t := by
  obtain ⟨target, name, hname, hclassifier⟩ := h
  obtain ⟨n, rfl⟩ := exists_name hstrings hname
  exact ⟨⟨target, n, t.nullable⟩, by rw [TypeMessage.typeRef, ← hclassifier]⟩

/-- The parameter has a name among the strings, and types that can be written. -/
structure Parameter.Writable (strings : List String) (p : Parameter) : Prop where
  /-- The name is one of the strings. -/
  name : p.name ∈ strings
  /-- The type of the value can be written. -/
  type : ∀ t ∈ p.type, t.Writable strings
  /-- The type of each of several values can be written. -/
  vararg : ∀ t ∈ p.vararg, t.Writable strings

/-- Every writable value parameter has a message. -/
theorem Parameter.Writable.exists_message (hstrings : strings.length ≤ 2 ^ 31) {p : Parameter}
    (h : p.Writable strings) : ∃ m : ParameterMessage strings, m.parameter = p := by
  obtain ⟨name, hasDefault, type, vararg⟩ := p
  obtain ⟨n, rfl⟩ := exists_name hstrings h.name
  obtain ⟨flags, rfl⟩ := exists_bit (show 1 < 32 by decide) hasDefault
  obtain ⟨type, rfl⟩ := exists_toOption fun t ht => (h.type t ht).exists_message hstrings
  obtain ⟨vararg, rfl⟩ := exists_toOption fun t ht => (h.vararg t ht).exists_message hstrings
  exact ⟨⟨flags, n, type, vararg⟩, rfl⟩

/-- The function has names among the strings and types that can be written, and its signature is
recorded or follows from the types. -/
structure FunctionDecl.Writable (strings : List String) (f : FunctionDecl) : Prop where
  /-- The name is one of the strings. -/
  name : f.name ∈ strings
  /-- The type of the receiver can be written. -/
  receiver : ∀ t ∈ f.receiver, t.Writable strings
  /-- The types of the context receivers can be written. -/
  context : ∀ t ∈ f.context, t.Writable strings
  /-- The parameters can be written. -/
  parameters : ∀ p ∈ f.parameters, p.Writable strings
  /-- The type of the result can be written. -/
  returns : ∀ t ∈ f.returns, t.Writable strings
  /-- The signature follows from the types, or can be recorded. -/
  signature : f.signature = (functionDescriptor? f.receiver f.parameters f.returns).map
      (fun descriptor => ⟨f.name, descriptor⟩) ∨
    ∃ s ∈ f.signature, s.name ∈ strings ∧ s.descriptor ∈ strings

/-- Every writable function has a message, with its signature recorded or left to the types. -/
theorem FunctionDecl.Writable.exists_message (hstrings : strings.length ≤ 2 ^ 31)
    {f : FunctionDecl} (h : f.Writable strings) : ∃ m : FunctionMessage strings, m.decl = f := by
  obtain ⟨name, kind, visibility, receiver, context, parameters, returns, signature⟩ := f
  obtain ⟨n, rfl⟩ := exists_name hstrings h.name
  obtain ⟨flags, rfl, rfl⟩ := exists_functionFlags kind visibility
  obtain ⟨receiver, rfl⟩ := exists_toOption fun t ht => (h.receiver t ht).exists_message hstrings
  obtain ⟨context, rfl⟩ := exists_toList fun t ht => (h.context t ht).exists_message hstrings
  obtain ⟨parameters, rfl⟩ :=
    exists_toList fun p hp => (h.parameters p hp).exists_message hstrings
  obtain ⟨returns, rfl⟩ := exists_toOption fun t ht => (h.returns t ht).exists_message hstrings
  rcases h.signature with hderived | ⟨⟨methodName, descriptor⟩, hrecorded, hname, hdescriptor⟩
  · refine ⟨⟨flags, n, receiver, context, parameters, returns, none⟩, ?_⟩
    rw [FunctionMessage.decl]
    congr 1
    exact hderived.symm
  · obtain ⟨methodName, rfl⟩ := exists_name hstrings hname
    obtain ⟨descriptor, rfl⟩ := exists_name hstrings hdescriptor
    refine ⟨⟨flags, n, receiver, context, parameters, returns,
      some ⟨some methodName, some descriptor⟩⟩, ?_⟩
    rw [FunctionMessage.decl]
    congr 1
    exact hrecorded.symm

/-- The constructor has parameters that can be written, and its signature is recorded or follows
from the types. -/
structure ConstructorDecl.Writable (strings : List String) (c : ConstructorDecl) : Prop where
  /-- The parameters can be written. -/
  parameters : ∀ p ∈ c.parameters, p.Writable strings
  /-- The signature follows from the types, or can be recorded. -/
  signature : c.signature = (constructorDescriptor? c.parameters).map
      (fun descriptor => ⟨Signature.constructorName, descriptor⟩) ∨
    ∃ s ∈ c.signature, s.name = Signature.constructorName ∧ s.descriptor ∈ strings

/-- Every writable constructor has a message, with its signature recorded or left to the types. -/
theorem ConstructorDecl.Writable.exists_message (hstrings : strings.length ≤ 2 ^ 31)
    {c : ConstructorDecl} (h : c.Writable strings) :
    ∃ m : ConstructorMessage strings, m.decl = c := by
  obtain ⟨isSecondary, visibility, parameters, signature⟩ := c
  obtain ⟨flags, rfl, rfl⟩ := exists_constructorFlags isSecondary visibility
  obtain ⟨parameters, rfl⟩ :=
    exists_toList fun p hp => (h.parameters p hp).exists_message hstrings
  rcases h.signature with hderived | ⟨⟨methodName, descriptor⟩, hrecorded, rfl, hdescriptor⟩
  · refine ⟨⟨some flags, parameters, none⟩, ?_⟩
    rw [ConstructorMessage.decl]
    congr 1
    exact hderived.symm
  · obtain ⟨descriptor, rfl⟩ := exists_name hstrings hdescriptor
    refine ⟨⟨some flags, parameters, some ⟨none, some descriptor⟩⟩, ?_⟩
    rw [ConstructorMessage.decl]
    congr 1
    exact hrecorded.symm

/-- The property has a name among the strings, and so do its accessors. -/
structure PropertyDecl.Writable (strings : List String) (p : PropertyDecl) : Prop where
  /-- The name is one of the strings. -/
  name : p.name ∈ strings
  /-- The signature of the getter can be recorded. -/
  getter : ∀ s ∈ p.getter, s.name ∈ strings ∧ s.descriptor ∈ strings
  /-- The signature of the setter can be recorded. -/
  setter : ∀ s ∈ p.setter, s.name ∈ strings ∧ s.descriptor ∈ strings

/-- The recorded signature of an accessor, if there is one. -/
theorem exists_accessor (hstrings : strings.length ≤ 2 ^ 31) {signature : Option Signature}
    (h : ∀ s ∈ signature, s.name ∈ strings ∧ s.descriptor ∈ strings) :
    ∃ m : Option (SignatureMessage strings), m.bind SignatureMessage.signature? = signature := by
  cases signature with
  | none => exact ⟨none, rfl⟩
  | some s =>
    obtain ⟨methodName, descriptor⟩ := s
    obtain ⟨hname, hdescriptor⟩ := h _ rfl
    obtain ⟨methodName, rfl⟩ := exists_name hstrings hname
    obtain ⟨descriptor, rfl⟩ := exists_name hstrings hdescriptor
    exact ⟨some ⟨some methodName, some descriptor⟩, rfl⟩

/-- Every writable property has a message, with one for its accessors. -/
theorem PropertyDecl.Writable.exists_message (hstrings : strings.length ≤ 2 ^ 31)
    {p : PropertyDecl} (h : p.Writable strings) : ∃ m : PropertyMessage strings, m.decl = p := by
  obtain ⟨name, kind, isVar, hasGetter, hasSetter, customGetter, customSetter, getter, setter⟩ := p
  obtain ⟨n, rfl⟩ := exists_name hstrings h.name
  obtain ⟨flags, rfl, rfl, rfl, rfl⟩ := exists_propertyFlags kind isVar hasGetter hasSetter
  obtain ⟨getterFlags, rfl⟩ := exists_bit (show 6 < 32 by decide) customGetter
  obtain ⟨setterFlags, rfl⟩ := exists_bit (show 6 < 32 by decide) customSetter
  obtain ⟨getter, rfl⟩ := exists_accessor hstrings h.getter
  obtain ⟨setter, rfl⟩ := exists_accessor hstrings h.setter
  exact ⟨⟨flags, n, getterFlags, setterFlags, some ⟨getter, setter⟩⟩, rfl⟩

/-- The class has names among the strings and members that can be written. -/
structure ClassDecl.Writable (strings : List String) (c : ClassDecl) : Prop where
  /-- The name is one of the strings. -/
  name : c.name ∈ strings
  /-- The name of the companion object is one of the strings. -/
  companion : ∀ name ∈ c.companion, name ∈ strings
  /-- The names of nested classes are among the strings. -/
  nested : ∀ name ∈ c.nested, name ∈ strings
  /-- The constructors can be written. -/
  constructors : ∀ member ∈ c.constructors, member.Writable strings
  /-- The functions can be written. -/
  functions : ∀ member ∈ c.functions, member.Writable strings
  /-- The properties can be written. -/
  properties : ∀ member ∈ c.properties, member.Writable strings

/-- Every writable class has a message, with those of its members. -/
theorem ClassDecl.Writable.exists_message (hstrings : strings.length ≤ 2 ^ 31)
    {c : ClassDecl} (h : c.Writable strings) : ∃ m : ClassMessage strings, m.decl = c := by
  obtain ⟨name, kind, visibility, isData, companion, nested, constructors, functions, properties,
    bodiesInInterface⟩ := c
  obtain ⟨n, rfl⟩ := exists_name hstrings h.name
  obtain ⟨flags, rfl, rfl, rfl⟩ := exists_classFlags kind visibility isData
  obtain ⟨jvmFlags, rfl⟩ := exists_bit (show 0 < 32 by decide) bodiesInInterface
  obtain ⟨companion, rfl⟩ := exists_toOption fun t ht => exists_name hstrings (h.companion t ht)
  obtain ⟨nested, rfl⟩ := exists_toList fun t ht => exists_name hstrings (h.nested t ht)
  obtain ⟨constructors, rfl⟩ :=
    exists_toList fun m hm => (h.constructors m hm).exists_message hstrings
  obtain ⟨functions, rfl⟩ := exists_toList fun m hm => (h.functions m hm).exists_message hstrings
  obtain ⟨properties, rfl⟩ := exists_toList fun m hm => (h.properties m hm).exists_message hstrings
  exact ⟨⟨some flags, n, companion, .packed nested, constructors, functions, properties, jvmFlags⟩,
    rfl⟩

/-- The members at the top level of the file can be written. -/
structure PackageDecl.Writable (strings : List String) (p : PackageDecl) : Prop where
  /-- The functions can be written. -/
  functions : ∀ member ∈ p.functions, member.Writable strings
  /-- The properties can be written. -/
  properties : ∀ member ∈ p.properties, member.Writable strings

/-- Every writable top level of a file has a message, with those of its members. -/
theorem PackageDecl.Writable.exists_message (hstrings : strings.length ≤ 2 ^ 31)
    {p : PackageDecl} (h : p.Writable strings) : ∃ m : PackageMessage strings, m.decl = p := by
  obtain ⟨functions, properties⟩ := p
  obtain ⟨functions, rfl⟩ := exists_toList fun m hm => (h.functions m hm).exists_message hstrings
  obtain ⟨properties, rfl⟩ := exists_toList fun m hm => (h.properties m hm).exists_message hstrings
  exact ⟨⟨functions, properties⟩, rfl⟩

/-- The document has a declaration that can be written. The name of a facade is the additional
string of the header. -/
def Document.Writable (strings : List String) (extraString : Option String) : Document → Prop
  | .classDecl decl => decl.Writable strings
  | .fileFacade package => package.Writable strings
  | .syntheticClass (some lambda) => lambda.Writable strings
  | .multiFilePart facade package => extraString.getD "" = facade ∧ package.Writable strings
  | .syntheticClass none | .multiFileFacade _ | .unknown _ _ => False

/-- Every document with a declaration comes from a message. -/
theorem Document.Writable.exists_message (hstrings : strings.length ≤ 2 ^ 31)
    {extraString : Option String} {d : Document} (h : d.Writable strings extraString) :
    ∃ m : DocumentMessage strings, m.document extraString = d := by
  cases d with
  | classDecl decl =>
    obtain ⟨m, rfl⟩ := ClassDecl.Writable.exists_message hstrings h
    exact ⟨.classDecl m, rfl⟩
  | fileFacade package =>
    obtain ⟨m, rfl⟩ := PackageDecl.Writable.exists_message hstrings h
    exact ⟨.fileFacade m, rfl⟩
  | syntheticClass lambda =>
    cases lambda with
    | none => exact h.elim
    | some f =>
      obtain ⟨m, rfl⟩ := FunctionDecl.Writable.exists_message hstrings h
      exact ⟨.lambda m, rfl⟩
  | multiFileFacade parts => exact h.elim
  | multiFilePart facade package =>
    obtain ⟨rfl, hpackage⟩ := h
    obtain ⟨m, rfl⟩ := hpackage.exists_message hstrings
    exact ⟨.multiFilePart m, rfl⟩
  | unknown kind version => exact h.elim

/-- The header of a declaration, with all of its payload in one string. -/
def Written.DocumentMessage.header (m : DocumentMessage strings) (layout : Packing.Layout)
    (extraString : Option String) : Header where
  kind := m.kind
  version := [1, 9, 0]
  payload := [String.ofList (layout.characters (delimitedBytes [] ++ m.bytes))]
  strings := strings
  extraString := extraString
  packageName := none
  extraInt := 0

/-- Every document that can be written has a header, in either layout, from which it comes back,
unless its message is longer than a message can be. -/
theorem Document.Writable.exists_header (hstrings : strings.length ≤ 2 ^ 31)
    {extraString : Option String} {d : Document} (h : d.Writable strings extraString)
    (layout : Packing.Layout) : ∃ m : DocumentMessage strings,
      m.document extraString = d ∧
      (m.bytes.length < 2 ^ 64 → (m.header layout extraString).decode = .ok d) := by
  obtain ⟨m, rfl⟩ := h.exists_message hstrings
  refine ⟨m, rfl, fun hlength => ?_⟩
  have hspells := layout.spells_ofList (delimitedBytes [] ++ m.bytes)
  exact DocumentMessage.decode_eq (h := m.header layout extraString) m rfl rfl
    (openPayload_spells hspells) rfl hlength

end LineAtlas.Metadata
