import LineAtlas.Metadata.Header
import LineAtlas.Proofs.Metadata.Members
import LineAtlas.Proofs.Metadata.Packed

/-!
# Metadata comes back from its payload

Classes and top levels of files as the messages they are written in, and the header whose
payload spells such a message after a table without records. A header of a supported version
is decoded as the declarations that were written.
-/

namespace LineAtlas.Metadata.Written

open Wire

variable {strings : List String}

/-- A list of names that is written for a field. -/
inductive NameList (strings : List String) where
  /-- Each name by itself. -/
  | apart (names : List (Name strings))
  /-- All names in one field. -/
  | packed (names : List (Name strings))

namespace NameList

/-- The names. -/
def names : NameList strings → List (Name strings)
  | apart names => names
  | packed names => names

/-- The fields for the names. -/
def items (number : Nat) : NameList strings → List Item
  | apart names => nameItems number names
  | packed names => messageItems number [(names.map Name.index).flatMap varintBytes]

/-- The fields for names can be written, one by one or packed. -/
theorem fits_items {number : Nat} (hpos : 0 < number) (hlt : number < 2 ^ 32)
    (l : NameList strings) : ∀ i ∈ l.items number, i.Fits := by
  cases l with
  | apart names => exact fits_nameItems hpos hlt names
  | packed names => exact fits_messageItems hpos hlt _

/-- The fields for names have no numbers for another field. -/
theorem numbersOf_items {field number : Nat} (h : number ≠ field) (l : NameList strings) :
    numbersOf field (l.items number) = [] := by
  cases l <;> simp [items, h]

/-- The fields for names hold no messages for another field. -/
theorem bodiesOf_items {field number : Nat} (h : number ≠ field) (l : NameList strings) :
    bodiesOf field (l.items number) = [] := by
  cases l <;> simp [items, h]

/-- Names are found as their indexes, one by one or packed. -/
theorem intsOf_items (number : Nat) (l : NameList strings) :
    intsOf number (l.items number) = .ok (l.names.map fun n => (n.index : Int)) := by
  cases l with
  | apart names => rw [items, NameList.names, nameItems, intsOf_numberItems, map_int32_index]
  | packed names =>
    have hvalues : ∀ value ∈ names.map Name.index, value < 2 ^ 64 := by
      intro value hvalue
      obtain ⟨n, -, rfl⟩ := List.mem_map.mp hvalue
      have hfits := n.fits
      omega
    rw [items, NameList.names, intsOf_packed hvalues, map_int32_index]

end NameList

/-- A class. -/
structure ClassMessage (strings : List String) where
  /-- Flags. -/
  flags : Option (BitVec 32)
  /-- Metadata name. -/
  name : Name strings
  /-- Name of the companion object. -/
  companion : Option (Name strings)
  /-- Names of the nested classes. -/
  nested : NameList strings
  /-- Constructors in order. -/
  constructors : List (ConstructorMessage strings)
  /-- Functions in order. -/
  functions : List (FunctionMessage strings)
  /-- Properties in order. -/
  properties : List (PropertyMessage strings)
  /-- Flags about the compiled class. -/
  jvmFlags : Option (BitVec 32)

namespace ClassMessage

/-- The fields of a class. -/
def items (c : ClassMessage strings) : List Item :=
  wordItems 1 c.flags.toList ++ (nameItems 3 [c.name] ++ (nameItems 4 c.companion.toList ++
    (c.nested.items 7 ++ (messageItems 8 (c.constructors.map ConstructorMessage.bytes) ++
      (messageItems 9 (c.functions.map FunctionMessage.bytes) ++
        (messageItems 10 (c.properties.map PropertyMessage.bytes) ++
          wordItems 104 c.jvmFlags.toList))))))

/-- The bytes of a class. -/
def bytes (c : ClassMessage strings) : List UInt8 := messageBytes c.items

/-- What a class is read as. A class without flags is public and plain. -/
def decl (c : ClassMessage strings) : ClassDecl where
  name := c.name.text
  kind := classKindOf ((c.flags.getD 6).extractLsb' 6 3)
  visibility := visibilityOf ((c.flags.getD 6).extractLsb' 1 3)
  isData := (c.flags.getD 6).getLsbD 10
  companion := c.companion.map Name.text
  nested := c.nested.names.map Name.text
  constructors := c.constructors.map ConstructorMessage.decl
  functions := c.functions.map FunctionMessage.decl
  properties := c.properties.map PropertyMessage.decl
  bodiesInInterface := c.jvmFlags.any fun flags => flags.getLsbD 0

/-- The fields of a class can be written. -/
theorem fits (c : ClassMessage strings) : ∀ i ∈ c.items, i.Fits := by
  simp only [items, List.forall_mem_append]
  exact ⟨fits_wordItems (by decide) (by decide) _, fits_nameItems (by decide) (by decide) _,
    fits_nameItems (by decide) (by decide) _, c.nested.fits_items (by decide) (by decide),
    fits_messageItems (by decide) (by decide) _, fits_messageItems (by decide) (by decide) _,
    fits_messageItems (by decide) (by decide) _, fits_wordItems (by decide) (by decide) _⟩

/-- The names of the nested classes are the only numbers in their field. -/
theorem ints_nested (c : ClassMessage strings) : (Message.ofItems "Class" c.items).ints 7
    = .ok (c.nested.names.map fun n => (n.index : Int)) := by
  have hbefore : intsOf 7 (wordItems 1 c.flags.toList ++ (nameItems 3 [c.name] ++
      nameItems 4 c.companion.toList)) = .ok [] := by
    refine intsOf_of_ne ?_
    simp only [List.forall_mem_append]
    exact ⟨numberItems_ne (by decide) _, nameItems_ne (by decide) _, nameItems_ne (by decide) _⟩
  have hafter : intsOf 7 (messageItems 8 (c.constructors.map ConstructorMessage.bytes) ++
      (messageItems 9 (c.functions.map FunctionMessage.bytes) ++
        (messageItems 10 (c.properties.map PropertyMessage.bytes) ++
          wordItems 104 c.jvmFlags.toList))) = .ok [] := by
    refine intsOf_of_ne ?_
    simp only [List.forall_mem_append]
    exact ⟨messageItems_ne (by decide) _, messageItems_ne (by decide) _,
      messageItems_ne (by decide) _, numberItems_ne (by decide) _⟩
  have hall := intsOf_append hbefore (intsOf_append (c.nested.intsOf_items 7) hafter)
  simpa only [Message.ints_ofItems, items, List.append_assoc, List.append_nil, List.nil_append]
    using hall

/-- A class is read back from its message. -/
theorem class_bytes (c : ClassMessage strings) (hlength : c.bytes.length < 2 ^ 64) :
    (scope strings).classDecl c.bytes = .ok c.decl := by
  have hmessage := Message.ofBytes_messageBytes "Class" c.fits hlength
  have hnested {field : Nat} (h : 7 ≠ field) := c.nested.bodiesOf_items h
  have hnumbers {field : Nat} (h : 7 ≠ field) := c.nested.numbersOf_items h
  have hinside : (scope strings).inside (.ofItems "Class" c.items) (some 5)
      = .ok (scope strings) :=
    inside_ofItems _ (by simp [items, hnested]) (by simp [items, hnested])
  have hcompanion : (scope strings).name? ((Message.ofItems "Class" c.items).int? 4)
      = .ok (c.companion.map Name.text) := by
    rw [← name?_name, int?_of_numbers]
    simp [items, hnumbers]
  have hget : (c.nested.names.map fun n => (n.index : Int)).mapM (scope strings).names.get
      = .ok (c.nested.names.map Name.text) := Except.mapM_ok fun n _ => get_name n
  have hname : numbersOf 3 c.items = [(c.name.index : Int)] := by simp [items, hnumbers]
  have hconstructors := mapM_bodies "Class" ConstructorMessage.constructor_bytes hlength
    (show bodiesOf 8 c.items = c.constructors.map _ by simp [items, hnested])
  have hfunctions := mapM_bodies "Class" FunctionMessage.function_bytes hlength
    (show bodiesOf 9 c.items = c.functions.map _ by simp [items, hnested])
  have hproperties := mapM_bodies "Class" PropertyMessage.property_bytes hlength
    (show bodiesOf 10 c.items = c.properties.map _ by simp [items, hnested])
  have hflags := getD_int?_ofItems "Class" 6
    (show numbersOf 1 c.items = c.flags.toList.map _ by simp [items, hnumbers])
  have hjvm := hasFlag_getD_int?_ofItems "Class" (show 0 < 32 by decide)
    (show numbersOf 104 c.items = c.jvmFlags.toList.map _ by simp [items, hnumbers])
  refine Except.bind_ok hmessage (Except.bind_ok hinside (Except.bind_ok hcompanion (Except.bind_ok
    c.ints_nested (Except.bind_ok hget (Except.bind_ok (int_ofItems _ hname) (Except.bind_ok
      (get_name c.name) (Except.bind_ok hconstructors (Except.bind_ok hfunctions
        (Except.bind_ok hproperties ?_)))))))))
  rw [show defaultFlags = (6 : BitVec 32).toInt by decide, hflags, hjvm,
    hasFlag_toInt _ (by decide), Visibility.ofFlags_toInt, ClassKind.ofFlags_toInt]
  rfl

end ClassMessage

/-- The top level of a file. -/
structure PackageMessage (strings : List String) where
  /-- Functions in order. -/
  functions : List (FunctionMessage strings)
  /-- Properties in order. -/
  properties : List (PropertyMessage strings)

namespace PackageMessage

/-- The fields of the top level of a file. -/
def items (p : PackageMessage strings) : List Item :=
  messageItems 3 (p.functions.map FunctionMessage.bytes) ++
    messageItems 4 (p.properties.map PropertyMessage.bytes)

/-- The bytes of the top level of a file. -/
def bytes (p : PackageMessage strings) : List UInt8 := messageBytes p.items

/-- What the top level of a file is read as. -/
def decl (p : PackageMessage strings) : PackageDecl where
  functions := p.functions.map FunctionMessage.decl
  properties := p.properties.map PropertyMessage.decl

/-- The fields of the top level of a file can be written. -/
theorem fits (p : PackageMessage strings) : ∀ i ∈ p.items, i.Fits :=
  List.forall_mem_append.mpr ⟨fits_messageItems (by decide) (by decide) _,
    fits_messageItems (by decide) (by decide) _⟩

/-- The top level of a file is read back from its message. -/
theorem package_bytes (p : PackageMessage strings) (hlength : p.bytes.length < 2 ^ 64) :
    (scope strings).packageDecl p.bytes = .ok p.decl := by
  have hmessage := Message.ofBytes_messageBytes "Package" p.fits hlength
  have hinside : (scope strings).inside (.ofItems "Package" p.items) none
      = .ok (scope strings) := inside_ofItems _ (by simp) (by simp [items])
  have hfunctions := mapM_bodies "Package" FunctionMessage.function_bytes hlength
    (show bodiesOf 3 p.items = p.functions.map _ by simp [items])
  have hproperties := mapM_bodies "Package" PropertyMessage.property_bytes hlength
    (show bodiesOf 4 p.items = p.properties.map _ by simp [items])
  exact Except.bind_ok hmessage (Except.bind_ok hinside (Except.bind_ok hfunctions
    (Except.bind_ok hproperties rfl)))

end PackageMessage

/-- The declaration in a class file. -/
inductive DocumentMessage (strings : List String) where
  /-- A class. -/
  | classDecl (message : ClassMessage strings)
  /-- The top level of a file. -/
  | fileFacade (message : PackageMessage strings)
  /-- The lambda whose body a class holds that the compiler made. -/
  | lambda (message : FunctionMessage strings)
  /-- The top level of one of several files that are joined. -/
  | multiFilePart (message : PackageMessage strings)

namespace DocumentMessage

/-- The kind of the class file. -/
def kind : DocumentMessage strings → Int
  | classDecl _ => 1
  | fileFacade _ => 2
  | lambda _ => 3
  | multiFilePart _ => 5

/-- The bytes of the declaration. -/
def bytes : DocumentMessage strings → List UInt8
  | classDecl message => message.bytes
  | fileFacade message => message.bytes
  | lambda message => message.bytes
  | multiFilePart message => message.bytes

/-- What the declaration is read as. The additional string of the header is the name of the
facade, if there is one. -/
def document (extraString : Option String) : DocumentMessage strings → Document
  | classDecl message => .classDecl message.decl
  | fileFacade message => .fileFacade message.decl
  | lambda message => .syntheticClass (some message.decl)
  | multiFilePart message => .multiFilePart (extraString.getD "") message.decl

end DocumentMessage

/-- A table without records stands in front of the message. -/
theorem openPayload_spells {h : Header} {layout : Packing.Layout} {message : List UInt8}
    (hpayload : layout.Spells h.payload (delimitedBytes [] ++ message)) :
    h.openPayload = .ok (scope h.strings, message) := by
  have htable : delimited (delimitedBytes [] ++ message) = .ok ([], message) :=
    delimited_delimitedBytes (by decide) message
  have hnames : NameTable.ofBytes h.strings [] = .ok ⟨h.strings, []⟩ := by
    rw [NameTable.ofBytes, foldFields]
  exact Except.bind_ok hpayload.unpack (Except.bind_ok htable (Except.bind_ok hnames rfl))

/-- Declarations come back from a payload that was opened. -/
theorem DocumentMessage.decode_eq {h : Header} (d : DocumentMessage h.strings)
    (hversion : Header.isSupported h.version = true) (hkind : h.kind = d.kind)
    (hopen : h.openPayload = .ok (scope h.strings, d.bytes)) (hnonempty : h.payload.isEmpty = false)
    (hlength : d.bytes.length < 2 ^ 64) : h.decode = .ok (d.document h.extraString) := by
  rw [Header.decode, if_pos hversion, hkind]
  cases d with
  | classDecl c => exact Except.map_ok _ (Except.bind_ok hopen (c.class_bytes hlength))
  | fileFacade p => exact Except.map_ok _ (Except.bind_ok hopen (p.package_bytes hlength))
  | lambda f =>
    dsimp only [DocumentMessage.kind]
    rw [hnonempty]
    exact Except.map_ok _ (Except.bind_ok hopen (f.function_bytes hlength))
  | multiFilePart p => exact Except.map_ok _ (Except.bind_ok hopen (p.package_bytes hlength))

/-- Declarations come back from the header that they are written in, whichever layout its payload
has and wherever the strings of the payload end. -/
theorem decode_written {h : Header} (d : DocumentMessage h.strings) {layout : Packing.Layout}
    (hversion : Header.isSupported h.version = true) (hkind : h.kind = d.kind)
    (hpayload : layout.Spells h.payload (delimitedBytes [] ++ d.bytes))
    (hlength : d.bytes.length < 2 ^ 64) : h.decode = .ok (d.document h.extraString) := by
  have hnonempty : h.payload.isEmpty = false := by simpa using hpayload.ne_nil
  exact d.decode_eq hversion hkind (openPayload_spells hpayload) hnonempty hlength

/-- Names in the metadata of a class. -/
def cartStrings : List String :=
  ["shop/Cart", "Companion", "Line", "kotlin/Int", "size", "add", "kotlin/String", "item",
    "getSize", "()I"]

/-- The string at an index. -/
def cartName (index : Fin 10) : Name cartStrings := ⟨index, index.isLt, by omega⟩

/-- A class with a companion object, a nested class, a constructor and a function without
recorded signatures, and a property with a getter. -/
def cart : ClassMessage cartStrings where
  flags := some 6
  name := cartName 0
  companion := some (cartName 1)
  nested := .packed [cartName 2]
  constructors := [
    { flags := none
      parameters := [⟨some 2, cartName 4, some ⟨.classRef, cartName 3, false⟩, none⟩]
      signature := none }]
  functions := [
    { flags := .newer 6
      name := cartName 5
      receiver := none
      context := []
      parameters := [⟨none, cartName 7, some ⟨.classRef, cartName 6, true⟩, none⟩]
      returns := some ⟨.classRef, cartName 3, false⟩
      signature := none }]
  properties := [
    { flags := .older 2054
      name := cartName 4
      getterFlags := none
      setterFlags := none
      accessors := some ⟨some ⟨some (cartName 8), some (cartName 9)⟩, none⟩ }]
  jvmFlags := none

/-- The header of the class, with its payload in the denser layout and cut into two strings. -/
def cartHeader : Header where
  kind := 1
  version := [1, 9, 0]
  payload := [
    "\x01\x01\x11\x19A\x02\x01I\x01;\x03\t\x11%B\x05\x05\t\x05A!!D\x01\x19\x04\x15JAe\x01",
    "E\x03\x1b\x05A\x1a!\x07\x03\t\x085\x11A\x12\x01\x0d\x04S\x1d!1\t\x03\x05\x03#\x0e\x19QB" ++
      "\x01\x03\x05\x11\x13\x01"]
  strings := cartStrings
  extraString := none
  packageName := none
  extraInt := 0

/-- The class `cart` is decoded from its header, with derived descriptors where none is recorded. -/
theorem decode_written_cart : cartHeader.decode = .ok (.classDecl {
    name := "shop/Cart", kind := .plain, visibility := .publicUse, isData := false,
    companion := some "Companion", nested := ["Line"],
    constructors := [{
      isSecondary := false, visibility := .publicUse,
      parameters := [⟨"size", true, some ⟨some (.classRef "kotlin/Int"), false⟩, none⟩],
      signature := some ⟨"<init>", "(I)V"⟩ }],
    functions := [{
      name := "add", kind := .declaration, visibility := .publicUse, receiver := none,
      context := [],
      parameters := [⟨"item", false, some ⟨some (.classRef "kotlin/String"), true⟩, none⟩],
      returns := some ⟨some (.classRef "kotlin/Int"), false⟩,
      signature := some ⟨"add", "(Ljava/lang/String;)I"⟩ }],
    properties := [{
      name := "size", kind := .declaration, isVar := false, hasGetter := true,
      hasSetter := false, customGetter := false, customSetter := false,
      getter := some ⟨"getSize", "()I"⟩, setter := none }],
    bodiesInInterface := false }) := by
  have hpayload : Packing.Layout.sevenBits.Spells cartHeader.payload
      (delimitedBytes [] ++ cart.bytes) := ⟨by decide +kernel, by decide⟩
  have hdecode := decode_written (h := cartHeader) (.classDecl cart) (by decide) rfl hpayload
    (by decide +kernel)
  exact hdecode.trans (congrArg Except.ok (by decide +kernel))

end LineAtlas.Metadata.Written
