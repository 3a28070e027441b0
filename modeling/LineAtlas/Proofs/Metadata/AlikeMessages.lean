import Mathlib.Data.List.Forall2
import LineAtlas.Metadata.Decode
import LineAtlas.Proofs.Metadata.Fields

/-!
# Messages that are read as the same

Each kind of message has the numbers of the fields that are read in it. When the fields of two
messages agree number by number, where fields may hold different messages as long as those are read
as the same, the two are read as the same, whatever they refer to.
-/

namespace LineAtlas.Metadata

open Wire

/-- The kinds of messages that declarations are made of. -/
inductive MessageKind where
  | classDecl | packageDecl | function | constructor | property | parameter
  | type | typeTable | typeParameter | signature | accessors
  deriving DecidableEq, Repr

namespace MessageKind

/-- The numbers of the fields that are read. -/
def numbers : MessageKind → List Nat
  | classDecl => [1, 3, 4, 5, 7, 8, 9, 10, 30, 104]
  | packageDecl => [3, 4, 30]
  | function => [1, 2, 3, 4, 5, 6, 7, 8, 9, 10, 11, 30, 100]
  | constructor => [1, 2, 100]
  | property => [1, 2, 7, 8, 11, 100]
  | parameter => [1, 2, 3, 4, 5, 6]
  | type => [3, 6, 7, 9, 12]
  | typeTable => [1, 2]
  | typeParameter => [1, 2]
  | signature => [1, 2]
  | accessors => [3, 4]

/-- The kind of the messages in the fields with a number. -/
def inner? : MessageKind → Nat → Option MessageKind
  | classDecl, 5 | function, 4 => some typeParameter
  | classDecl, 30 | packageDecl, 30 | function, 30 => some typeTable
  | classDecl, 8 => some constructor
  | classDecl, 9 | packageDecl, 3 => some function
  | classDecl, 10 | packageDecl, 4 => some property
  | function, 3 | function, 5 | function, 10 | parameter, 3 | parameter, 4 | typeTable, 1 =>
    some type
  | function, 6 | constructor, 2 => some parameter
  | function, 100 | constructor, 100 | accessors, 3 | accessors, 4 => some signature
  | property, 100 => some accessors
  | _, _ => none

/-- What a message is read as. -/
def Result : MessageKind → Type
  | classDecl => ClassDecl
  | packageDecl => PackageDecl
  | function => FunctionDecl
  | constructor => ConstructorDecl
  | property => PropertyDecl
  | parameter => Parameter
  | type => TypeRef
  | typeTable => List TypeRef
  | typeParameter => Int × String
  | signature => Option Int × Option Int
  | accessors => Option Signature × Option Signature

/-- The reader of a kind of messages. -/
def read (s : Scope) : (kind : MessageKind) → List UInt8 → Except Malformed kind.Result
  | classDecl => s.classDecl
  | packageDecl => s.packageDecl
  | function => s.function
  | constructor => s.constructor
  | property => s.property
  | parameter => s.parameter
  | type => s.type
  | typeTable => s.typeTable
  | typeParameter => s.typeParameter
  | signature => Scope.recordedSignature
  | accessors => fun bytes => s.accessors (some bytes)

/-- Two messages are read as the same, or refused for the same fault, whatever they refer to. -/
def SameReading (kind : MessageKind) (one two : List UInt8) : Prop :=
  ∀ s, kind.read s one = kind.read s two

end MessageKind

/-- Two fields of a kind of messages are the same, or hold messages that are read as the same. -/
inductive FieldsAgree (kind : MessageKind) : Wire.Field → Wire.Field → Prop
  /-- A field agrees with itself. -/
  | refl (field : Wire.Field) : FieldsAgree kind field field
  /-- Fields with messages agree when these are read as the same. -/
  | inside {inner : MessageKind} {number : Nat} {one two : List UInt8}
      (hinner : kind.inner? number = some inner) (hsame : inner.SameReading one two) :
      FieldsAgree kind ⟨number, .bytes one⟩ ⟨number, .bytes two⟩

/-- The fields that are read in two messages agree, number by number. -/
def Agree (kind : MessageKind) (one two : List Wire.Field) : Prop :=
  ∀ number ∈ kind.numbers, List.Forall₂ (FieldsAgree kind)
    (one.filter (·.number = number)) (two.filter (·.number = number))

namespace Agree

variable {kind inner : MessageKind} {name : String} {one two : List Wire.Field} {number : Nat}

/-- A number that may be missing is the same where the fields agree. -/
theorem int?_eq (h : Agree kind one two) (number : Nat) (hread : number ∈ kind.numbers) :
    (Message.mk name one).int? number = (Message.mk name two).int? number := by
  have hsame {l l' : List Wire.Field} (hagree : List.Forall₂ (FieldsAgree kind) l l') :
      l.filterMap (Message.numberIn? number) = l'.filterMap (Message.numberIn? number) := by
    induction hagree with
    | nil => rfl
    | cons hfield _ ih =>
      cases hfield with
      | refl field => rw [List.filterMap_cons, List.filterMap_cons, ih]
      | inside hinner hsame => rw [List.filterMap_cons_none rfl, List.filterMap_cons_none rfl, ih]
  rw [← Message.int?_only ⟨name, one⟩, ← Message.int?_only ⟨name, two⟩]
  exact congrArg List.getLast? (hsame (h number hread))

/-- A number is the same where the fields agree. -/
theorem int_eq (h : Agree kind one two) (number : Nat) (hread : number ∈ kind.numbers) :
    (Message.mk name one).int number = (Message.mk name two).int number := by
  rw [Message.int, Message.int, h.int?_eq number hread]

/-- A flag is the same where the fields agree. -/
theorem flag_eq (h : Agree kind one two) (number : Nat) (hread : number ∈ kind.numbers) :
    (Message.mk name one).flag number = (Message.mk name two).flag number := by
  rw [Message.flag, Message.flag, h.int?_eq number hread]

/-- Messages in the fields with a number are read as the same. -/
theorem messages (h : Agree kind one two) (hread : number ∈ kind.numbers)
    (hinner : kind.inner? number = some inner) : List.Forall₂ inner.SameReading
      ((Message.mk name one).messages number) ((Message.mk name two).messages number) := by
  have hsame {l l' : List Wire.Field} (hagree : List.Forall₂ (FieldsAgree kind) l l')
      (hnumber : ∀ field ∈ l, field.number = number) :
      List.Forall₂ inner.SameReading (l.filterMap (Message.bytesIn? number))
        (l'.filterMap (Message.bytesIn? number)) := by
    induction hagree with
    | nil => exact .nil
    | @cons field field' l l' hfield _ ih =>
      obtain ⟨hfirst, hrest⟩ := List.forall_mem_cons.mp hnumber
      cases hfield with
      | refl field =>
        rw [List.filterMap_cons, List.filterMap_cons]
        cases Message.bytesIn? number field with
        | none => exact ih hrest
        | some body => exact .cons (fun _ => rfl) (ih hrest)
      | inside hinner' hsame =>
        obtain rfl : _ = number := hfirst
        obtain rfl := Option.some.inj (hinner.symm.trans hinner')
        simpa [Message.bytesIn?] using ⟨hsame, ih hrest⟩
  have hmessages := hsame (h number hread) (by simp)
  rw [← Message.messages_only ⟨name, one⟩, ← Message.messages_only ⟨name, two⟩]
  exact hmessages

/-- Where no messages are expected the fields are the same. -/
theorem filter_eq (h : Agree kind one two) (hread : number ∈ kind.numbers)
    (hinner : kind.inner? number = none) :
    one.filter (·.number = number) = two.filter (·.number = number) := by
  have hsame {l l' : List Wire.Field} (hagree : List.Forall₂ (FieldsAgree kind) l l')
      (hnumber : ∀ field ∈ l, field.number = number) : l = l' := by
    induction hagree with
    | nil => rfl
    | cons hfield _ ih =>
      obtain ⟨hfirst, hrest⟩ := List.forall_mem_cons.mp hnumber
      cases hfield with
      | refl field => rw [ih hrest]
      | inside hinner' _ =>
        rw [← hfirst] at hinner
        exact absurd (hinner.symm.trans hinner') (by simp)
  exact hsame (h number hread) (by simp)

/-- A list of numbers is the same where the fields agree. -/
theorem ints_eq (h : Agree kind one two) (number : Nat) (hread : number ∈ kind.numbers)
    (hinner : kind.inner? number = none) :
    (Message.mk name one).ints number = (Message.mk name two).ints number := by
  rw [← Message.ints_only ⟨name, one⟩, ← Message.ints_only ⟨name, two⟩, Message.only, Message.only]
  dsimp only
  rw [h.filter_eq hread hinner]

/-- Messages in the fields with a number give the same results. -/
theorem mapM_messages_eq {α : Type} (h : Agree kind one two) (name : String) (number : Nat)
    (reader : List UInt8 → Except Malformed α) (hread : number ∈ kind.numbers)
    (hinner : kind.inner? number = some inner)
    (hreader : ∀ body body', inner.SameReading body body' → reader body = reader body') :
    ((Message.mk name one).messages number).mapM reader
      = ((Message.mk name two).messages number).mapM reader := by
  have hall {l l' : List (List UInt8)} (hagree : List.Forall₂ inner.SameReading l l') :
      l.mapM reader = l'.mapM reader := by
    induction hagree with
    | nil => rfl
    | cons hbody _ ih => rw [List.mapM_cons, List.mapM_cons, hreader _ _ hbody, ih]
  exact hall (h.messages hread hinner)

/-- The last messages in the fields with a number agree. -/
theorem message? (h : Agree kind one two) (name : String) (number : Nat)
    (hread : number ∈ kind.numbers) (hinner : kind.inner? number = some inner) :
    ((Message.mk name one).message? number = none ∧ (Message.mk name two).message? number = none) ∨
      ∃ body body', (Message.mk name one).message? number = some body ∧
        (Message.mk name two).message? number = some body' ∧ inner.SameReading body body' := by
  have hlast {l l' : List (List UInt8)} (hagree : List.Forall₂ inner.SameReading l l') :
      (l.getLast? = none ∧ l'.getLast? = none) ∨ ∃ body body', l.getLast? = some body ∧
        l'.getLast? = some body' ∧ inner.SameReading body body' := by
    induction hagree with
    | nil => exact Or.inl ⟨rfl, rfl⟩
    | cons hbody hrest ih =>
      rcases ih with ⟨hone, htwo⟩ | ⟨body, body', hone, htwo, hsame⟩
      · exact Or.inr ⟨_, _, by rw [List.getLast?_cons, hone]; rfl,
          by rw [List.getLast?_cons, htwo]; rfl, hbody⟩
      · exact Or.inr ⟨body, body', by rw [List.getLast?_cons, hone]; rfl,
          by rw [List.getLast?_cons, htwo]; rfl, hsame⟩
  exact hlast (h.messages hread hinner)

end Agree

/-- Two messages have fields that agree, or are both refused for the same fault. -/
def SpelledAlike (kind : MessageKind) (one two : List UInt8) : Prop :=
  (∃ cause, fieldsIn one = .error cause ∧ fieldsIn two = .error cause) ∨
    ∃ found found', fieldsIn one = .ok found ∧ fieldsIn two = .ok found' ∧ Agree kind found found'

/-- What depends on the fields that are read is the same for both messages. -/
theorem SpelledAlike.bind_eq {kind : MessageKind} {one two : List UInt8} {α : Type}
    (h : SpelledAlike kind one two) (name : String) {next : Message → Except Malformed α}
    (hnext : ∀ found found', Agree kind found found' → next ⟨name, found⟩ = next ⟨name, found'⟩) :
    (Message.ofBytes name one >>= next) = Message.ofBytes name two >>= next := by
  rw [Message.ofBytes_eq, Message.ofBytes_eq]
  rcases h with ⟨cause, hone, htwo⟩ | ⟨found, found', hone, htwo, hagree⟩
  · rw [hone, htwo]
  · rw [hone, htwo]
    exact hnext found found' hagree

section Readers

variable {kind : MessageKind} {name : String} {found found' : List Wire.Field}
  {one two : List UInt8}

/-- What a type refers to is the same where its fields agree. -/
theorem classifier_eq (s : Scope) (h : Agree .type found found') :
    s.classifier ⟨name, found⟩ = s.classifier ⟨name, found'⟩ := by
  unfold Scope.classifier
  rw [h.int?_eq 6 (by decide), h.int?_eq 7 (by decide), h.int?_eq 9 (by decide),
    h.int?_eq 12 (by decide)]

/-- Types that are spelled alike are read as the same. -/
theorem SpelledAlike.type_eq (h : SpelledAlike .type one two) (s : Scope) :
    s.type one = s.type two := by
  refine h.bind_eq "Type" fun found found' hagree => ?_
  rw [classifier_eq s hagree, hagree.flag_eq 3 (by decide)]

/-- Type parameters that are spelled alike have the same name and number. -/
theorem SpelledAlike.typeParameter_eq (h : SpelledAlike .typeParameter one two) (s : Scope) :
    s.typeParameter one = s.typeParameter two := by
  refine h.bind_eq "TypeParameter" fun found found' hagree => ?_
  rw [hagree.int_eq 1 (by decide), hagree.int_eq 2 (by decide)]

/-- Type tables that are spelled alike list the same types. -/
theorem SpelledAlike.typeTable_eq (h : SpelledAlike .typeTable one two) (s : Scope) :
    s.typeTable one = s.typeTable two := by
  refine h.bind_eq "TypeTable" fun found found' hagree => ?_
  rw [hagree.int?_eq 2 (by decide),
    hagree.mapM_messages_eq _ 1 s.type (by decide) rfl fun _ _ hsame => hsame s]

/-- Recorded signatures that are spelled alike are the same. -/
theorem SpelledAlike.recordedSignature_eq (h : SpelledAlike .signature one two) :
    Scope.recordedSignature one = Scope.recordedSignature two := by
  refine h.bind_eq "JvmMethodSignature" fun found found' hagree => ?_
  rw [hagree.int?_eq 1 (by decide), hagree.int?_eq 2 (by decide)]

/-- A type that is given in place or by index is the same where the fields agree. -/
theorem typeIn_eq (h : Agree kind found found') (inPlace byIndex : Nat)
    (hread : inPlace ∈ kind.numbers) (hinner : kind.inner? inPlace = some .type)
    (hindex : byIndex ∈ kind.numbers) (s : Scope) :
    s.typeIn ⟨name, found⟩ inPlace byIndex = s.typeIn ⟨name, found'⟩ inPlace byIndex := by
  unfold Scope.typeIn
  rw [h.int?_eq byIndex hindex]
  rcases h.message? name inPlace hread hinner with ⟨hone, htwo⟩ | ⟨body, body', hone, htwo, hsame⟩
  · rw [hone, htwo]
  · have htype : s.type body = s.type body' := hsame s
    rw [hone, htwo]
    dsimp only
    rw [htype]

/-- Types that are given in place or by index are the same where the fields agree. -/
theorem typesIn_eq (h : Agree kind found found') (inPlace byIndex : Nat)
    (hread : inPlace ∈ kind.numbers) (hinner : kind.inner? inPlace = some .type)
    (hindex : byIndex ∈ kind.numbers) (hints : kind.inner? byIndex = none) (s : Scope) :
    s.typesIn ⟨name, found⟩ inPlace byIndex = s.typesIn ⟨name, found'⟩ inPlace byIndex := by
  unfold Scope.typesIn
  rw [h.ints_eq byIndex hindex hints,
    h.mapM_messages_eq _ inPlace s.type hread hinner fun _ _ hsame => hsame s]

/-- What can be referred to inside a declaration is the same where its fields agree. -/
theorem inside_eq (h : Agree kind found found') (parameterField : Option Nat)
    (hparameters : ∀ number ∈ parameterField,
      number ∈ kind.numbers ∧ kind.inner? number = some .typeParameter)
    (hread : 30 ∈ kind.numbers) (hinner : kind.inner? 30 = some .typeTable) (s : Scope) :
    s.inside ⟨name, found⟩ parameterField = s.inside ⟨name, found'⟩ parameterField := by
  have hparameters (number : Nat) (hnumber : number ∈ parameterField) :
      ((Message.mk name found).messages number).mapM s.typeParameter
        = ((Message.mk name found').messages number).mapM s.typeParameter :=
    h.mapM_messages_eq _ number s.typeParameter (hparameters number hnumber).1
      (hparameters number hnumber).2 fun _ _ hsame => hsame s
  rcases h.message? name 30 hread hinner with ⟨hone, htwo⟩ | ⟨body, body', hone, htwo, hsame⟩
  · cases parameterField with
    | none => simp only [Scope.inside, hone, htwo]
    | some number => simp only [Scope.inside, hone, htwo, hparameters number rfl]
  · have htable (s : Scope) : s.typeTable body = s.typeTable body' := hsame s
    cases parameterField with
    | none => simp only [Scope.inside, hone, htwo, htable]
    | some number => simp only [Scope.inside, hone, htwo, htable, hparameters number rfl]

/-- Value parameters that are spelled alike are read as the same. -/
theorem SpelledAlike.parameter_eq (h : SpelledAlike .parameter one two) (s : Scope) :
    s.parameter one = s.parameter two := by
  refine h.bind_eq "ValueParameter" fun found found' hagree => ?_
  rw [hagree.int_eq 2 (by decide), hagree.int?_eq 1 (by decide),
    typeIn_eq hagree 3 5 (by decide) rfl (by decide),
    typeIn_eq hagree 4 6 (by decide) rfl (by decide)]

/-- The recorded signature of a member is the same where its fields agree. -/
theorem recordedSignatureIn_eq (h : Agree kind found found') (hread : 100 ∈ kind.numbers)
    (hinner : kind.inner? 100 = some .signature) :
    Scope.recordedSignatureIn ⟨name, found⟩ = Scope.recordedSignatureIn ⟨name, found'⟩ := by
  unfold Scope.recordedSignatureIn
  rcases h.message? name 100 hread hinner with ⟨hone, htwo⟩ | ⟨body, body', hone, htwo, hsame⟩
  · rw [hone, htwo]
  · rw [hone, htwo]
    exact hsame { names := ⟨[], []⟩ }

/-- The flags of a member are the same where its fields agree, in the newer or the older layout. -/
theorem memberFlags_eq (h : Agree kind found found') (newer : Nat) (hread : newer ∈ kind.numbers)
    (hold : 1 ∈ kind.numbers) (default : Int) :
    memberFlags ⟨name, found⟩ newer default = memberFlags ⟨name, found'⟩ newer default := by
  rw [memberFlags, memberFlags, h.int?_eq newer hread, h.int?_eq 1 hold]

/-- Functions that are spelled alike are read as the same. -/
theorem SpelledAlike.function_eq (h : SpelledAlike .function one two) (s : Scope) :
    s.function one = s.function two := by
  refine h.bind_eq "Function" fun found found' hagree => ?_
  have hparameters (s : Scope) :=
    hagree.mapM_messages_eq "Function" 6 s.parameter (by decide) rfl fun _ _ hsame => hsame s
  rw [memberFlags_eq hagree 9 (by decide) (by decide),
    inside_eq hagree (some 4) (by simp [MessageKind.numbers, MessageKind.inner?]) (by decide) rfl]
  simp only [hagree.int_eq 2 (by decide), typeIn_eq hagree 5 8 (by decide) rfl (by decide),
    typesIn_eq hagree 10 11 (by decide) rfl (by decide) rfl,
    typeIn_eq hagree 3 7 (by decide) rfl (by decide), hparameters,
    recordedSignatureIn_eq hagree (by decide) rfl]

/-- Constructors that are spelled alike are read as the same. -/
theorem SpelledAlike.constructor_eq (h : SpelledAlike .constructor one two) (s : Scope) :
    s.constructor one = s.constructor two := by
  refine h.bind_eq "Constructor" fun found found' hagree => ?_
  rw [hagree.int?_eq 1 (by decide), recordedSignatureIn_eq hagree (by decide) rfl,
    hagree.mapM_messages_eq _ 2 s.parameter (by decide) rfl fun _ _ hsame => hsame s]

/-- The signature of an accessor is the same where it is recorded alike, or nowhere. -/
theorem accessor_eq (s : Scope) {body? body?' : Option (List UInt8)}
    (h : (body? = none ∧ body?' = none) ∨ ∃ body body', body? = some body ∧ body?' = some body' ∧
      MessageKind.signature.SameReading body body') : s.accessor body? = s.accessor body?' := by
  rcases h with ⟨rfl, rfl⟩ | ⟨body, body', rfl, rfl, hsame⟩
  · rfl
  · have hrecorded : Scope.recordedSignature body = Scope.recordedSignature body' := hsame s
    rw [Scope.accessor, Scope.accessor, hrecorded]

/-- Accessors whose signatures are recorded alike are the same. -/
theorem SpelledAlike.accessors_eq (h : SpelledAlike .accessors one two) (s : Scope) :
    s.accessors (some one) = s.accessors (some two) := by
  refine h.bind_eq "JvmPropertySignature" fun found found' hagree => ?_
  rw [accessor_eq s (hagree.message? _ 3 (by decide) rfl),
    accessor_eq s (hagree.message? _ 4 (by decide) rfl)]

/-- Properties that are spelled alike are read as the same. -/
theorem SpelledAlike.property_eq (h : SpelledAlike .property one two) (s : Scope) :
    s.property one = s.property two := by
  refine h.bind_eq "Property" fun found found' hagree => ?_
  have haccessors : s.accessors ((Message.mk "Property" found).message? 100)
      = s.accessors ((Message.mk "Property" found').message? 100) := by
    rcases hagree.message? "Property" 100 (by decide) rfl with
      ⟨hone, htwo⟩ | ⟨body, body', hone, htwo, hsame⟩
    · rw [hone, htwo]
    · rw [hone, htwo]
      exact hsame s
  have hcustom (number : Nat) (hread : number ∈ MessageKind.property.numbers) :
      ((Message.mk "Property" found).int? number).any (hasFlag · 6)
        = ((Message.mk "Property" found').int? number).any (hasFlag · 6) := by
    rw [hagree.int?_eq number hread]
  rw [memberFlags_eq hagree 11 (by decide) (by decide), haccessors, hagree.int_eq 2 (by decide)]
  dsimp only
  rw [hcustom 7 (by decide), hcustom 8 (by decide)]

/-- Classes that are spelled alike are read as the same. -/
theorem SpelledAlike.classDecl_eq (h : SpelledAlike .classDecl one two) (s : Scope) :
    s.classDecl one = s.classDecl two := by
  refine h.bind_eq "Class" fun found found' hagree => ?_
  have hconstructors (s : Scope) :=
    hagree.mapM_messages_eq "Class" 8 s.constructor (by decide) rfl fun _ _ hsame => hsame s
  have hfunctions (s : Scope) :=
    hagree.mapM_messages_eq "Class" 9 s.function (by decide) rfl fun _ _ hsame => hsame s
  have hproperties (s : Scope) :=
    hagree.mapM_messages_eq "Class" 10 s.property (by decide) rfl fun _ _ hsame => hsame s
  rw [inside_eq hagree (some 5) (by simp [MessageKind.numbers, MessageKind.inner?]) (by decide) rfl]
  simp only [hagree.int?_eq 1 (by decide), hagree.int?_eq 4 (by decide),
    hagree.ints_eq 7 (by decide) rfl, hagree.int_eq 3 (by decide), hconstructors, hfunctions,
    hproperties, hagree.int?_eq 104 (by decide)]

/-- Top levels of files that are spelled alike are read as the same. -/
theorem SpelledAlike.packageDecl_eq (h : SpelledAlike .packageDecl one two) (s : Scope) :
    s.packageDecl one = s.packageDecl two := by
  refine h.bind_eq "Package" fun found found' hagree => ?_
  have hfunctions (s : Scope) :=
    hagree.mapM_messages_eq "Package" 3 s.function (by decide) rfl fun _ _ hsame => hsame s
  have hproperties (s : Scope) :=
    hagree.mapM_messages_eq "Package" 4 s.property (by decide) rfl fun _ _ hsame => hsame s
  rw [inside_eq hagree none (by simp) (by decide) rfl]
  simp only [hfunctions, hproperties]

end Readers

/-- Messages whose fields agree are read as the same. -/
theorem SpelledAlike.sameReading {kind : MessageKind} {one two : List UInt8}
    (h : SpelledAlike kind one two) : kind.SameReading one two := by
  intro s
  cases kind with
  | classDecl => exact h.classDecl_eq s
  | packageDecl => exact h.packageDecl_eq s
  | function => exact h.function_eq s
  | constructor => exact h.constructor_eq s
  | property => exact h.property_eq s
  | parameter => exact h.parameter_eq s
  | type => exact h.type_eq s
  | typeTable => exact h.typeTable_eq s
  | typeParameter => exact h.typeParameter_eq s
  | signature => exact h.recordedSignature_eq
  | accessors => exact h.accessors_eq s

end LineAtlas.Metadata
