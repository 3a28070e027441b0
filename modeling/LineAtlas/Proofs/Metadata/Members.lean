import LineAtlas.Proofs.Metadata.Flags
import LineAtlas.Proofs.Metadata.Types

/-!
# Members come back from their messages

Functions, constructors and properties as the messages they are written in. Every message is
read as the declaration that was written, with a descriptor derived from the types where none is
recorded.
-/

namespace LineAtlas.Metadata.Written

open Wire

variable {strings : List String}

section Flags

variable (kind : String) {items : List Item}

/-- The flags of a function or property as they are written. -/
def flagItems (newer : Nat) : MemberFlags → List Item
  | .newer flags => wordItems newer [flags]
  | .older flags => wordItems 1 [flags]
  | .omitted => []

/-- The fields for flags can be written. -/
theorem fits_flagItems {newer : Nat} (hpos : 0 < newer) (hlt : newer < 2 ^ 32)
    (flags : MemberFlags) : ∀ i ∈ flagItems newer flags, i.Fits := by
  cases flags with
  | newer flags => exact fits_wordItems hpos hlt _
  | older flags => exact fits_wordItems (by decide) (by decide) _
  | omitted => simp [flagItems]

/-- The fields for flags hold no messages. -/
@[simp]
theorem bodiesOf_flagItems (field newer : Nat) (flags : MemberFlags) :
    bodiesOf field (flagItems newer flags) = [] := by
  cases flags <;> simp [flagItems]
  rfl

/-- The fields for flags have no numbers for another field. -/
@[simp]
theorem numbersOf_flagItems {field newer : Nat} (hnewer : newer ≠ field) (holder : 1 ≠ field)
    (flags : MemberFlags) : numbersOf field (flagItems newer flags) = [] := by
  cases flags with
  | newer flags => simp [flagItems, hnewer]
  | older flags => simp [flagItems, holder]
  | omitted => rfl

/-- The fields for flags have one of two numbers. -/
theorem flagItems_ne {field newer : Nat} (hnewer : newer ≠ field) (holder : 1 ≠ field)
    (flags : MemberFlags) : ∀ i ∈ flagItems newer flags, i.number ≠ field := by
  cases flags with
  | newer flags => exact numberItems_ne hnewer _
  | older flags => exact numberItems_ne holder _
  | omitted => simp [flagItems]

/-- The flags of a member are read back from the fields for them. -/
theorem memberFlags_ofItems {newer : Nat} (default : BitVec 32) (flags : MemberFlags)
    (hnewer : newer ≠ 1)
    (hnumbers : numbersOf newer items = numbersOf newer (flagItems newer flags))
    (holder : numbersOf 1 items = numbersOf 1 (flagItems newer flags)) :
    memberFlags (.ofItems kind items) newer default.toInt = flags.value default := by
  rw [memberFlags, Message.int?_ofItems, Message.int?_ofItems, hnumbers, holder]
  cases flags with
  | newer flags => simp [flagItems, MemberFlags.value]
  | older flags => simp [flagItems, MemberFlags.value, hnewer.symm]
  | omitted => rfl

/-- A word that stands for another when it is not written. -/
theorem getD_int?_ofItems {field : Nat} (default : BitVec 32) {flags : Option (BitVec 32)}
    (h : numbersOf field items = flags.toList.map BitVec.toInt) :
    ((Message.ofItems kind items).int? field).getD default.toInt
      = (flags.getD default).toInt := by
  rw [int?_of_numbers kind h]
  cases flags <;> rfl

/-- A bit of a word counts as not set when the word is not written. -/
theorem any_int?_ofItems {field bit : Nat} (hbit : bit < 32) {flags : Option (BitVec 32)}
    (h : numbersOf field items = flags.toList.map BitVec.toInt) :
    ((Message.ofItems kind items).int? field).any (hasFlag · bit)
      = flags.any fun flags => flags.getLsbD bit := by
  rw [int?_of_numbers kind h]
  cases flags with
  | none => rfl
  | some flags => exact hasFlag_toInt flags hbit

end Flags

/-- A recorded method name and descriptor, as far as there are any. -/
structure SignatureMessage (strings : List String) where
  /-- Name of the method. -/
  name : Option (Name strings)
  /-- Descriptor of the method. -/
  descriptor : Option (Name strings)

namespace SignatureMessage

/-- The fields of a recorded signature. -/
def items (s : SignatureMessage strings) : List Item :=
  nameItems 1 s.name.toList ++ nameItems 2 s.descriptor.toList

/-- The bytes of a recorded signature. -/
def bytes (s : SignatureMessage strings) : List UInt8 := messageBytes s.items

/-- The signature, when both of its parts are recorded. -/
def signature? (s : SignatureMessage strings) : Option Signature := do
  return ⟨(← s.name).text, (← s.descriptor).text⟩

/-- The fields of a recorded signature can be written. -/
theorem fits (s : SignatureMessage strings) : ∀ i ∈ s.items, i.Fits := by
  simp only [items, List.forall_mem_append]
  exact ⟨fits_nameItems (by decide) (by decide) _, fits_nameItems (by decide) (by decide) _⟩

/-- A recorded signature is read back, as far as it is recorded. -/
theorem recordedSignature_bytes (s : SignatureMessage strings)
    (hlength : s.bytes.length < 2 ^ 64) :
    Scope.recordedSignature s.bytes = .ok (s.name.map fun n => (n.index : Int),
      s.descriptor.map fun n => (n.index : Int)) := by
  have hmessage := Message.ofBytes_messageBytes "JvmMethodSignature" s.fits hlength
  have hname : (Message.ofItems "JvmMethodSignature" s.items).int? 1
      = s.name.map fun n => (n.index : Int) := int?_of_numbers _ (by simp [items])
  have hdescriptor : (Message.ofItems "JvmMethodSignature" s.items).int? 2
      = s.descriptor.map fun n => (n.index : Int) := int?_of_numbers _ (by simp [items])
  refine Except.bind_ok hmessage ?_
  rw [hname, hdescriptor]
  rfl

/-- The signature of an accessor. -/
theorem accessor_bytes (s : Option (SignatureMessage strings))
    (hlength : ∀ m ∈ s, m.bytes.length < 2 ^ 64) :
    (scope strings).accessor (s.map bytes) = .ok (s.bind signature?) := by
  cases s with
  | none => rfl
  | some m =>
    refine Except.bind_ok (m.recordedSignature_bytes (hlength m rfl)) ?_
    obtain ⟨name, descriptor⟩ := m
    cases name with
    | none => rfl
    | some n =>
      cases descriptor with
      | none => rfl
      | some d => exact Except.bind_ok (get_name n) (Except.bind_ok (get_name d) rfl)

end SignatureMessage

/-- The recorded signature of a member. -/
theorem recordedSignatureIn_ofItems (kind : String) {items : List Item}
    (signature : Option (SignatureMessage strings)) (hlength : (messageBytes items).length < 2 ^ 64)
    (hbodies : bodiesOf 100 items = signature.toList.map SignatureMessage.bytes) :
    Scope.recordedSignatureIn (.ofItems kind items)
      = .ok ((signature.bind SignatureMessage.name).map fun n => (n.index : Int),
        (signature.bind SignatureMessage.descriptor).map fun n => (n.index : Int)) := by
  have hshort := length_lt_of_bodies hlength hbodies
  rw [Scope.recordedSignatureIn, message?_of_bodies kind hbodies]
  cases signature with
  | none => rfl
  | some s => exact s.recordedSignature_bytes (hshort s List.mem_cons_self)

/-- A function. -/
structure FunctionMessage (strings : List String) where
  /-- Flags. -/
  flags : MemberFlags
  /-- Name. -/
  name : Name strings
  /-- Type of the receiver. -/
  receiver : Option (TypeMessage strings)
  /-- Types of the context receivers. -/
  context : List (TypeMessage strings)
  /-- Value parameters. -/
  parameters : List (ParameterMessage strings)
  /-- Type of the result. -/
  returns : Option (TypeMessage strings)
  /-- Recorded signature of the method. -/
  signature : Option (SignatureMessage strings)

namespace FunctionMessage

/-- The fields of a function. -/
def items (f : FunctionMessage strings) : List Item :=
  flagItems 9 f.flags ++ (nameItems 2 [f.name] ++
    (messageItems 3 (f.returns.toList.map TypeMessage.bytes) ++
      (messageItems 5 (f.receiver.toList.map TypeMessage.bytes) ++
        (messageItems 6 (f.parameters.map ParameterMessage.bytes) ++
          (messageItems 10 (f.context.map TypeMessage.bytes) ++
            messageItems 100 (f.signature.toList.map SignatureMessage.bytes))))))

/-- The bytes of a function. -/
def bytes (f : FunctionMessage strings) : List UInt8 := messageBytes f.items

/-- The descriptor of the method: the recorded one, or else the one that follows from the types. -/
def descriptor? (f : FunctionMessage strings) : Option String :=
  (f.signature.bind SignatureMessage.descriptor).map Name.text
    <|> functionDescriptor? (f.receiver.map TypeMessage.typeRef)
      (f.parameters.map ParameterMessage.parameter) (f.returns.map TypeMessage.typeRef)

/-- The name of the method: the recorded one, or else that of the function. -/
def methodName (f : FunctionMessage strings) : String :=
  ((f.signature.bind SignatureMessage.name).map Name.text).getD f.name.text

/-- What a function is read as. A function without flags is public and declared. -/
def decl (f : FunctionMessage strings) : FunctionDecl where
  name := f.name.text
  kind := f.flags.kind 6
  visibility := f.flags.visibility 6
  receiver := f.receiver.map TypeMessage.typeRef
  context := f.context.map TypeMessage.typeRef
  parameters := f.parameters.map ParameterMessage.parameter
  returns := f.returns.map TypeMessage.typeRef
  signature := f.descriptor?.map fun descriptor => ⟨f.methodName, descriptor⟩

/-- The fields of a function can be written. -/
theorem fits (f : FunctionMessage strings) : ∀ i ∈ f.items, i.Fits := by
  simp only [items, List.forall_mem_append]
  exact ⟨fits_flagItems (by decide) (by decide) _, fits_nameItems (by decide) (by decide) _,
    fits_messageItems (by decide) (by decide) _, fits_messageItems (by decide) (by decide) _,
    fits_messageItems (by decide) (by decide) _, fits_messageItems (by decide) (by decide) _,
    fits_messageItems (by decide) (by decide) _⟩

/-- A function is read back from its message. -/
theorem function_bytes (f : FunctionMessage strings) (hlength : f.bytes.length < 2 ^ 64) :
    (scope strings).function f.bytes = .ok f.decl := by
  have hmessage := Message.ofBytes_messageBytes "Function" f.fits hlength
  have hflags := memberFlags_ofItems "Function" 6 f.flags (show 9 ≠ 1 by decide)
    (show numbersOf 9 f.items = _ by simp [items]) (show numbersOf 1 f.items = _ by simp [items])
  have hinside : (scope strings).inside (.ofItems "Function" f.items) (some 4)
      = .ok (scope strings) := inside_ofItems _ (by simp [items]) (by simp [items])
  have hname : numbersOf 2 f.items = [(f.name.index : Int)] := by simp [items]
  have hnumbers : ∀ i ∈ f.items, i.number ≠ 11 := by
    simp only [items, List.forall_mem_append]
    exact ⟨flagItems_ne (by decide) (by decide) _, nameItems_ne (by decide) _,
      messageItems_ne (by decide) _, messageItems_ne (by decide) _, messageItems_ne (by decide) _,
      messageItems_ne (by decide) _, messageItems_ne (by decide) _⟩
  have hreceiver := typeIn_ofItems "Function" 8 f.receiver hlength
    (show bodiesOf 5 f.items = _ by simp [items]) (by simp [items])
  have hcontext := typesIn_ofItems "Function" 11 f.context hlength
    (show bodiesOf 10 f.items = _ by simp [items]) hnumbers
  have hreturns := typeIn_ofItems "Function" 7 f.returns hlength
    (show bodiesOf 3 f.items = _ by simp [items]) (by simp [items])
  have hparameters := mapM_bodies "Function" ParameterMessage.parameter_bytes hlength
    (show bodiesOf 6 f.items = f.parameters.map _ by simp [items])
  have hsignature := recordedSignatureIn_ofItems "Function" f.signature hlength
    (show bodiesOf 100 f.items = _ by simp [items])
  refine Except.bind_ok hmessage (Except.bind_ok hinside (Except.bind_ok (int_ofItems _ hname)
    (Except.bind_ok (get_name f.name) (Except.bind_ok hreceiver (Except.bind_ok hcontext
      (Except.bind_ok hreturns (Except.bind_ok hparameters (Except.bind_ok hsignature
        (Except.bind_ok (name?_name _) (Except.bind_ok (name?_name _) ?_))))))))))
  rw [show defaultFlags = (6 : BitVec 32).toInt by decide, hflags, MemberFlags.ofFlags_kind,
    MemberFlags.ofFlags_visibility]
  rfl

end FunctionMessage

/-- A constructor. -/
structure ConstructorMessage (strings : List String) where
  /-- Flags. -/
  flags : Option (BitVec 32)
  /-- Value parameters. -/
  parameters : List (ParameterMessage strings)
  /-- Recorded signature of the method. -/
  signature : Option (SignatureMessage strings)

namespace ConstructorMessage

/-- The fields of a constructor. -/
def items (c : ConstructorMessage strings) : List Item :=
  wordItems 1 c.flags.toList ++ (messageItems 2 (c.parameters.map ParameterMessage.bytes) ++
    messageItems 100 (c.signature.toList.map SignatureMessage.bytes))

/-- The bytes of a constructor. -/
def bytes (c : ConstructorMessage strings) : List UInt8 := messageBytes c.items

/-- The descriptor of the method: the recorded one, or else the one that follows from the types. -/
def descriptor? (c : ConstructorMessage strings) : Option String :=
  (c.signature.bind SignatureMessage.descriptor).map Name.text
    <|> constructorDescriptor? (c.parameters.map ParameterMessage.parameter)

/-- What a constructor is read as. A constructor without flags is public and primary. -/
def decl (c : ConstructorMessage strings) : ConstructorDecl where
  isSecondary := (c.flags.getD 6).getLsbD 4
  visibility := visibilityOf ((c.flags.getD 6).extractLsb' 1 3)
  parameters := c.parameters.map ParameterMessage.parameter
  signature := c.descriptor?.map fun descriptor => ⟨Signature.constructorName, descriptor⟩

/-- The fields of a constructor can be written. -/
theorem fits (c : ConstructorMessage strings) : ∀ i ∈ c.items, i.Fits := by
  simp only [items, List.forall_mem_append]
  exact ⟨fits_wordItems (by decide) (by decide) _, fits_messageItems (by decide) (by decide) _,
    fits_messageItems (by decide) (by decide) _⟩

/-- A constructor is read back from its message. -/
theorem constructor_bytes (c : ConstructorMessage strings) (hlength : c.bytes.length < 2 ^ 64) :
    (scope strings).constructor c.bytes = .ok c.decl := by
  have hmessage := Message.ofBytes_messageBytes "Constructor" c.fits hlength
  have hflags := getD_int?_ofItems "Constructor" 6
    (show numbersOf 1 c.items = c.flags.toList.map _ by simp [items])
  have hparameters := mapM_bodies "Constructor" ParameterMessage.parameter_bytes hlength
    (show bodiesOf 2 c.items = c.parameters.map _ by simp [items])
  have hsignature := recordedSignatureIn_ofItems "Constructor" c.signature hlength
    (show bodiesOf 100 c.items = _ by simp [items])
  refine Except.bind_ok hmessage (Except.bind_ok hparameters (Except.bind_ok hsignature
    (Except.bind_ok (name?_name _) ?_)))
  rw [show defaultFlags = (6 : BitVec 32).toInt by decide, hflags, hasFlag_toInt _ (by decide),
    Visibility.ofFlags_toInt]
  rfl

end ConstructorMessage

/-- The recorded signatures of the accessors of a property. -/
structure AccessorsMessage (strings : List String) where
  /-- Signature of the getter's method. -/
  getter : Option (SignatureMessage strings)
  /-- Signature of the setter's method. -/
  setter : Option (SignatureMessage strings)

namespace AccessorsMessage

/-- The fields for accessors. -/
def items (a : AccessorsMessage strings) : List Item :=
  messageItems 3 (a.getter.toList.map SignatureMessage.bytes) ++
    messageItems 4 (a.setter.toList.map SignatureMessage.bytes)

/-- The bytes of accessors. -/
def bytes (a : AccessorsMessage strings) : List UInt8 := messageBytes a.items

/-- The fields for accessors can be written. -/
theorem fits (a : AccessorsMessage strings) : ∀ i ∈ a.items, i.Fits := by
  simp only [items, List.forall_mem_append]
  exact ⟨fits_messageItems (by decide) (by decide) _, fits_messageItems (by decide) (by decide) _⟩

/-- The signatures of both accessors. -/
theorem accessors_bytes (a : Option (AccessorsMessage strings))
    (hlength : ∀ m ∈ a, m.bytes.length < 2 ^ 64) :
    (scope strings).accessors (a.map bytes)
      = .ok ((a.bind getter).bind SignatureMessage.signature?,
        (a.bind setter).bind SignatureMessage.signature?) := by
  cases a with
  | none => rfl
  | some m =>
    have hmessage := Message.ofBytes_messageBytes "JvmPropertySignature" m.fits (hlength m rfl)
    have haccessor {number : Nat} {s : Option (SignatureMessage strings)}
        (hbodies : bodiesOf number m.items = s.toList.map SignatureMessage.bytes) :
        (scope strings).accessor ((Message.ofItems "JvmPropertySignature" m.items).message? number)
          = .ok (s.bind SignatureMessage.signature?) := by
      have hshort := length_lt_of_bodies (hlength m rfl) hbodies
      rw [message?_of_bodies _ hbodies]
      exact SignatureMessage.accessor_bytes s fun signature hsignature =>
        hshort signature (Option.mem_toList.mpr hsignature)
    have hgetter := haccessor (show bodiesOf 3 m.items = m.getter.toList.map _ by simp [items])
    have hsetter := haccessor (show bodiesOf 4 m.items = m.setter.toList.map _ by simp [items])
    exact Except.bind_ok hmessage (Except.bind_ok hgetter (Except.bind_ok hsetter rfl))

end AccessorsMessage

/-- A property. -/
structure PropertyMessage (strings : List String) where
  /-- Flags. -/
  flags : MemberFlags
  /-- Name. -/
  name : Name strings
  /-- Flags of the getter. -/
  getterFlags : Option (BitVec 32)
  /-- Flags of the setter. -/
  setterFlags : Option (BitVec 32)
  /-- Recorded signatures of the accessors. -/
  accessors : Option (AccessorsMessage strings)

namespace PropertyMessage

/-- The fields of a property. -/
def items (p : PropertyMessage strings) : List Item :=
  flagItems 11 p.flags ++ (nameItems 2 [p.name] ++ (wordItems 7 p.getterFlags.toList ++
    (wordItems 8 p.setterFlags.toList ++
      messageItems 100 (p.accessors.toList.map AccessorsMessage.bytes))))

/-- The bytes of a property. -/
def bytes (p : PropertyMessage strings) : List UInt8 := messageBytes p.items

/-- What a property is read as. A property without flags is public and declared, and has a getter
only. -/
def decl (p : PropertyMessage strings) : PropertyDecl where
  name := p.name.text
  kind := p.flags.kind 2054
  isVar := p.flags.flag 2054 8
  hasGetter := p.flags.flag 2054 9
  hasSetter := p.flags.flag 2054 10
  customGetter := p.getterFlags.any fun flags => flags.getLsbD 6
  customSetter := p.setterFlags.any fun flags => flags.getLsbD 6
  getter := (p.accessors.bind AccessorsMessage.getter).bind SignatureMessage.signature?
  setter := (p.accessors.bind AccessorsMessage.setter).bind SignatureMessage.signature?

/-- The fields of a property can be written. -/
theorem fits (p : PropertyMessage strings) : ∀ i ∈ p.items, i.Fits := by
  simp only [items, List.forall_mem_append]
  exact ⟨fits_flagItems (by decide) (by decide) _, fits_nameItems (by decide) (by decide) _,
    fits_wordItems (by decide) (by decide) _, fits_wordItems (by decide) (by decide) _,
    fits_messageItems (by decide) (by decide) _⟩

/-- A property is read back from its message. -/
theorem property_bytes (p : PropertyMessage strings) (hlength : p.bytes.length < 2 ^ 64) :
    (scope strings).property p.bytes = .ok p.decl := by
  have hmessage := Message.ofBytes_messageBytes "Property" p.fits hlength
  have hflags := memberFlags_ofItems "Property" 2054 p.flags (show 11 ≠ 1 by decide)
    (show numbersOf 11 p.items = _ by simp [items]) (show numbersOf 1 p.items = _ by simp [items])
  have hname : numbersOf 2 p.items = [(p.name.index : Int)] := by simp [items]
  have hgetter := any_int?_ofItems "Property" (show 6 < 32 by decide)
    (show numbersOf 7 p.items = p.getterFlags.toList.map _ by simp [items])
  have hsetter := any_int?_ofItems "Property" (show 6 < 32 by decide)
    (show numbersOf 8 p.items = p.setterFlags.toList.map _ by simp [items])
  have haccessors : (scope strings).accessors ((Message.ofItems "Property" p.items).message? 100)
      = .ok ((p.accessors.bind AccessorsMessage.getter).bind SignatureMessage.signature?,
        (p.accessors.bind AccessorsMessage.setter).bind SignatureMessage.signature?) := by
    have hbodies : bodiesOf 100 p.items = p.accessors.toList.map AccessorsMessage.bytes := by
      simp [items]
    have hshort := length_lt_of_bodies hlength hbodies
    rw [message?_of_bodies _ hbodies]
    exact AccessorsMessage.accessors_bytes p.accessors fun m hm =>
      hshort m (Option.mem_toList.mpr hm)
  refine Except.bind_ok hmessage (Except.bind_ok haccessors (Except.bind_ok (int_ofItems _ hname)
    (Except.bind_ok (get_name p.name) ?_)))
  rw [show defaultPropertyFlags = (2054 : BitVec 32).toInt by decide]
  dsimp only
  rw [hflags, hgetter, hsetter, MemberFlags.ofFlags_kind,
    p.flags.hasFlag_value 2054 (show 2 < 23 by decide),
    p.flags.hasFlag_value 2054 (show 3 < 23 by decide),
    p.flags.hasFlag_value 2054 (show 4 < 23 by decide)]
  rfl

end PropertyMessage

end LineAtlas.Metadata.Written
