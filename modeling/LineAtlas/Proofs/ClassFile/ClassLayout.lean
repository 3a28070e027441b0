import LineAtlas.ClassFile.Layout
import LineAtlas.Proofs.ClassFile.ValueLayout

/-!
# Class files come back from their bytes

Whole class files as they are written: fields, methods with their code and its line tables, and
the attributes of the class, with attributes of unknown names among them. Reading the bytes of a
class file gives the class that was written, and a method has exactly the lines of its tables.
-/

namespace LineAtlas.ClassFile.Layout

open Reader

/-- The bytes of an attribute: the index of its name, the length of its body and its body. -/
def attributeBytes (name : UInt16) (body : List UInt8) : List UInt8 :=
  u2Bytes name ++ (bigEndianBytes 4 body.length ++ body)

variable {p : Pool}

/-- An attribute gives its name and its body back, whatever it is about. -/
theorem reads_readAttribute (name : p.At Entry.text) {body : List UInt8}
    (hbody : body.length < 2 ^ 32) :
    Reads (readAttribute p.constantPool) (attributeBytes name.index body) (name.value, body) :=
  (Pool.reads_nextText name).bind ((reads_u4 hbody).bind ((reads_bytes rfl).bind_pure
    (reads_pure _)))

/-- An attribute of a given name is read by a reader of its own, any other gives nothing. -/
theorem reads_namedAttribute {α : Type} {text : String} {reader : Reader (List α)}
    (name : p.At Entry.text) {body : List UInt8} (hbody : body.length < 2 ^ 32) {values : List α}
    (hnamed : name.value = text → Reads reader body values)
    (hother : name.value ≠ text → values = []) :
    Reads (do
      let (name, body) ← readAttribute p.constantPool
      if name == text then inside body reader else return [])
      (attributeBytes name.index body) values := by
  refine (reads_readAttribute name hbody).bind_pure ?_
  dsimp only
  by_cases hname : name.value = text
  · rw [if_pos (by simpa using hname)]
    exact reads_inside (hnamed hname)
  · rw [if_neg (by simpa using hname), hother hname]
    exact reads_pure []

/-- An attribute is skipped whatever its name is. -/
theorem reads_skipAttribute (name : UInt16) {body : List UInt8} (hbody : body.length < 2 ^ 32) :
    Reads skipAttribute (attributeBytes name body) () :=
  (reads_u2Bytes name).bind ((reads_u4 hbody).bind (reads_skip rfl))

/-- A field as it is written. -/
structure Field (p : Pool) where
  /-- Access flags. -/
  access : UInt16
  /-- Name. -/
  name : p.At Entry.text
  /-- Descriptor of the type. -/
  descriptor : p.At Entry.text
  /-- Attributes, by the index of the name and the body. -/
  attributes : List (UInt16 × List UInt8)

namespace Field

/-- The bytes of a field. -/
def bytes (f : Field p) : List UInt8 :=
  u2Bytes f.access ++ (f.name.bytes ++ (f.descriptor.bytes ++
    countedBytes f.attributes fun a => attributeBytes a.1 a.2))

/-- The number of attributes is written in two bytes, their lengths in four. -/
def Fits (f : Field p) : Prop :=
  f.attributes.length < 2 ^ 16 ∧ ∀ a ∈ f.attributes, a.2.length < 2 ^ 32

/-- What a field is read as. -/
def field (f : Field p) : LineAtlas.Field := ⟨f.access.toNat, f.name.value, f.descriptor.value⟩

/-- A field of a layout is read back. -/
theorem reads {f : Field p} (hfits : f.Fits) :
    Reads (readField p.constantPool) f.bytes f.field := by
  have hskip := reads_counted hfits.1 fun a ha => reads_skipAttribute a.1 (hfits.2 a ha)
  exact (reads_u2Bytes f.access).bind ((Pool.reads_nextText f.name).bind
    ((Pool.reads_nextText f.descriptor).bind (hskip.bind_pure (reads_pure _))))

end Field

/-- An attribute of code. -/
inductive CodeAttribute (p : Pool) where
  /-- A line table: offsets in the code with the lines that start there. -/
  | lineTable (name : p.At Entry.text) (hname : name.value = "LineNumberTable")
    (entries : List (UInt16 × UInt16))
  /-- Any other attribute. -/
  | other (name : p.At Entry.text) (hname : name.value ≠ "LineNumberTable") (body : List UInt8)

namespace CodeAttribute

/-- The name of an attribute. -/
def name : CodeAttribute p → p.At Entry.text
  | lineTable name _ _ => name
  | other name _ _ => name

/-- The body of an attribute. -/
def body : CodeAttribute p → List UInt8
  | lineTable _ _ entries => countedBytes entries fun entry => u2Bytes entry.1 ++ u2Bytes entry.2
  | other _ _ body => body

/-- The bytes of an attribute. -/
def bytes (a : CodeAttribute p) : List UInt8 := attributeBytes a.name.index a.body

/-- The number of lines is written in two bytes. -/
def CountsFit : CodeAttribute p → Prop
  | lineTable _ _ entries => entries.length < 2 ^ 16
  | other _ _ _ => True

/-- The length of the body is written in four bytes. -/
def Fits (a : CodeAttribute p) : Prop := a.body.length < 2 ^ 32 ∧ a.CountsFit

/-- The line tables of an attribute: one or none. -/
def tables : CodeAttribute p → List (List LineNumber)
  | lineTable _ _ entries => [entries.map fun entry => UInt32.ofNat entry.2.toNat]
  | other _ _ _ => []

/-- An attribute of code gives its lines: those of a line table, or none. -/
theorem reads {a : CodeAttribute p} (hfits : a.Fits) :
    Reads (do
      let (name, body) ← readAttribute p.constantPool
      if name == "LineNumberTable" then inside body readLineTable else return [])
      a.bytes a.tables.flatten := by
  cases a with
  | lineTable name hname entries =>
    have htable : Reads readLineTable (lineTable name hname entries).body
        (entries.map fun entry => UInt32.ofNat entry.2.toNat) :=
      reads_counted hfits.2 fun entry _ =>
        (reads_u2Bytes entry.1).bind ((reads_u2Bytes entry.2).map UInt32.ofNat)
    rw [tables, List.flatten_singleton]
    exact reads_namedAttribute name hfits.1 (fun _ => htable) (fun h => absurd hname h)
  | other name hname body =>
    exact reads_namedAttribute name hfits.1 (fun h => absurd h hname) (fun _ => rfl)

end CodeAttribute

/-- Code as it is written. -/
structure Code (p : Pool) where
  /-- Depth of the operand stack. -/
  maxStack : UInt16
  /-- Number of local variables. -/
  maxLocals : UInt16
  /-- Instructions. -/
  instructions : List UInt8
  /-- Exception handlers: the range of the code, where to go on and the type that is caught. -/
  handlers : List (UInt16 × UInt16 × UInt16 × UInt16)
  /-- Attributes. -/
  attributes : List (CodeAttribute p)

namespace Code

/-- The bytes of an exception handler. -/
def handlerBytes (h : UInt16 × UInt16 × UInt16 × UInt16) : List UInt8 :=
  u2Bytes h.1 ++ (u2Bytes h.2.1 ++ (u2Bytes h.2.2.1 ++ u2Bytes h.2.2.2))

/-- The bytes of code. -/
def bytes (c : Code p) : List UInt8 :=
  u2Bytes c.maxStack ++ (u2Bytes c.maxLocals ++
    (bigEndianBytes 4 c.instructions.length ++ (c.instructions ++
      (bigEndianBytes 2 c.handlers.length ++ (c.handlers.flatMap handlerBytes ++
        countedBytes c.attributes CodeAttribute.bytes)))))

/-- The length of the instructions is written in four bytes, the other numbers in two. -/
structure Fits (c : Code p) : Prop where
  /-- The length of the instructions has four bytes. -/
  instructions : c.instructions.length < 2 ^ 32
  /-- The number of handlers has two bytes. -/
  handlers : c.handlers.length < 2 ^ 16
  /-- The number of attributes has two bytes. -/
  attributeCount : c.attributes.length < 2 ^ 16
  /-- The attributes fit their layouts. -/
  attributes : ∀ a ∈ c.attributes, a.Fits

/-- The line tables of code. -/
def tables (c : Code p) : List (List LineNumber) := c.attributes.flatMap CodeAttribute.tables

/-- A handler takes eight bytes, as the reader skips them. -/
theorem length_flatMap_handlerBytes (handlers : List (UInt16 × UInt16 × UInt16 × UInt16)) :
    (handlers.flatMap handlerBytes).length = handlers.length * 8 := by
  induction handlers with
  | nil => rfl
  | cons h rest ih =>
    simp only [List.flatMap_cons, List.length_append, List.length_cons, handlerBytes,
      length_u2Bytes, ih]
    omega

/-- The code of a method gives the lines of all its line tables. -/
theorem reads {c : Code p} (hfits : c.Fits) :
    Reads (readCode p.constantPool) c.bytes c.tables.flatten := by
  have hattributes := reads_counted hfits.attributeCount fun a ha =>
    CodeAttribute.reads (hfits.attributes a ha)
  refine (reads_u2Bytes c.maxStack).bind ((reads_u2Bytes c.maxLocals).bind
    ((reads_u4 hfits.instructions).bind ((reads_skip rfl).bind ((reads_u2 hfits.handlers).bind
      ((reads_skip (length_flatMap_handlerBytes c.handlers)).bind
        (hattributes.bind_pure ?_))))))
  rw [Lists.flatten_map_flatten]
  exact reads_pure _

end Code

/-- An attribute of a method. -/
inductive MethodAttribute (p : Pool) where
  /-- Code. -/
  | code (name : p.At Entry.text) (hname : name.value = "Code") (code : Code p)
  /-- Any other attribute. -/
  | other (name : p.At Entry.text) (hname : name.value ≠ "Code") (body : List UInt8)

namespace MethodAttribute

/-- The name of an attribute. -/
def name : MethodAttribute p → p.At Entry.text
  | code name _ _ => name
  | other name _ _ => name

/-- The body of an attribute. -/
def body : MethodAttribute p → List UInt8
  | code _ _ c => c.bytes
  | other _ _ body => body

/-- The bytes of an attribute. -/
def bytes (a : MethodAttribute p) : List UInt8 := attributeBytes a.name.index a.body

/-- Numbers and lengths in code fit. -/
def CountsFit : MethodAttribute p → Prop
  | code _ _ c => c.Fits
  | other _ _ _ => True

/-- The length of the body is written in four bytes. -/
def Fits (a : MethodAttribute p) : Prop := a.body.length < 2 ^ 32 ∧ a.CountsFit

/-- The line tables of an attribute. -/
def tables : MethodAttribute p → List (List LineNumber)
  | code _ _ c => c.tables
  | other _ _ _ => []

/-- An attribute of a method gives the lines of its code, or none. -/
theorem reads {a : MethodAttribute p} (hfits : a.Fits) :
    Reads (do
      let (name, body) ← readAttribute p.constantPool
      if name == "Code" then inside body (readCode p.constantPool) else return [])
      a.bytes a.tables.flatten := by
  cases a with
  | code name hname c =>
    exact reads_namedAttribute name hfits.1 (fun _ => c.reads hfits.2) (fun h => absurd hname h)
  | other name hname body =>
    exact reads_namedAttribute name hfits.1 (fun h => absurd h hname) (fun _ => rfl)

end MethodAttribute

/-- A method as it is written. -/
structure Method (p : Pool) where
  /-- Access flags. -/
  access : UInt16
  /-- Name. -/
  name : p.At Entry.text
  /-- Descriptor. -/
  descriptor : p.At Entry.text
  /-- Attributes. -/
  attributes : List (MethodAttribute p)

namespace Method

/-- The bytes of a method. -/
def bytes (m : Method p) : List UInt8 :=
  u2Bytes m.access ++ (m.name.bytes ++ (m.descriptor.bytes ++
    countedBytes m.attributes MethodAttribute.bytes))

/-- The number of attributes is written in two bytes. -/
def Fits (m : Method p) : Prop :=
  m.attributes.length < 2 ^ 16 ∧ ∀ a ∈ m.attributes, a.Fits

/-- The line tables of a method, whichever code they belong to. -/
def tables (m : Method p) : List (List LineNumber) := m.attributes.flatMap MethodAttribute.tables

/-- What a method is read as. -/
def method (m : Method p) : LineAtlas.Method :=
  ⟨m.access.toNat, ⟨m.name.value, m.descriptor.value⟩, LineSet.ofList m.tables.flatten⟩

/-- A method of a layout is read back, with the lines of all its tables. -/
theorem reads {m : Method p} (hfits : m.Fits) :
    Reads (readMethod p.constantPool) m.bytes m.method := by
  have hattributes := reads_counted hfits.1 fun a ha => MethodAttribute.reads (hfits.2 a ha)
  refine (reads_u2Bytes m.access).bind ((Pool.reads_nextText m.name).bind
    ((Pool.reads_nextText m.descriptor).bind (hattributes.bind_pure ?_)))
  rw [Lists.flatten_map_flatten]
  exact reads_pure _

/-- The lines of a method are those of its tables. -/
theorem mem_lines {m : Method p} {line : LineNumber} :
    line ∈ m.method.lines.toList ↔ ∃ table ∈ m.tables, line ∈ table := by
  rw [method, LineSet.mem_ofList, List.mem_flatten]

end Method

/-- An attribute of a class. -/
inductive ClassAttribute (p : Pool) where
  /-- The name of the source file. -/
  | sourceFile (name : p.At Entry.text) (hname : name.value = "SourceFile")
    (file : p.At Entry.text)
  /-- The place where the class is declared. -/
  | enclosing (name : p.At Entry.text) (hname : name.value = "EnclosingMethod")
    (holder : p.ClassAt) (method : Option p.SignatureAt)
  /-- Annotations. -/
  | annotations (name : p.At Entry.text) (hname : name.value = "RuntimeVisibleAnnotations")
    (items : List (AnnotationLayout p))
  /-- Any other attribute. -/
  | other (name : p.At Entry.text)
    (hname : name.value ∉ ["SourceFile", "EnclosingMethod", "RuntimeVisibleAnnotations"])
    (body : List UInt8)

namespace ClassAttribute

/-- The name of an attribute. -/
def name : ClassAttribute p → p.At Entry.text
  | sourceFile name _ _ | enclosing name _ _ _ | annotations name _ _ | other name _ _ => name

/-- The index of a method, zero when there is none. -/
def methodIndex : Option p.SignatureAt → UInt16
  | some signature => signature.index
  | none => 0

/-- The body of an attribute. -/
def body : ClassAttribute p → List UInt8
  | sourceFile _ _ file => file.bytes
  | enclosing _ _ holder method => holder.bytes ++ u2Bytes (methodIndex method)
  | annotations _ _ items => countedBytes items AnnotationLayout.bytes
  | other _ _ body => body

/-- The bytes of an attribute. -/
def bytes (a : ClassAttribute p) : List UInt8 := attributeBytes a.name.index a.body

/-- The number of annotations is written in two bytes, and every annotation fits. -/
def CountsFit : ClassAttribute p → Prop
  | annotations _ _ items => items.length < 2 ^ 16 ∧ ∀ a ∈ items, a.Fits
  | _ => True

/-- The length of the body is written in four bytes. -/
def Fits (a : ClassAttribute p) : Prop := a.body.length < 2 ^ 32 ∧ a.CountsFit

/-- The source file that an attribute names. -/
def sourceFile? : ClassAttribute p → Option String
  | sourceFile _ _ file => some file.value
  | _ => none

/-- The place that an attribute names. -/
def place? : ClassAttribute p → Option EnclosingMethod
  | enclosing _ _ holder method =>
    some ⟨holder.name.value, method.map fun m => ⟨m.name.value, m.descriptor.value⟩⟩
  | _ => none

/-- The annotations of an attribute. -/
def entries : ClassAttribute p → List AnnotationEntry
  | annotations _ _ items => items.map AnnotationLayout.entry
  | _ => []

/-- What an attribute is read as. -/
def kept : ClassAttribute p → ClassFile.ClassAttribute
  | sourceFile _ _ file => .sourceFile file.value
  | enclosing _ _ holder method =>
    .enclosing ⟨holder.name.value, method.map fun m => ⟨m.name.value, m.descriptor.value⟩⟩
  | annotations _ _ items => .annotations (items.map AnnotationLayout.entry)
  | other _ _ _ => .other

/-- The record of an enclosing method gives the class and the method, if there is one. -/
theorem reads_enclosing (holder : p.ClassAt) (method : Option p.SignatureAt) :
    Reads (readEnclosing p.constantPool) (holder.bytes ++ u2Bytes (methodIndex method))
      ⟨holder.name.value, method.map fun m => ⟨m.name.value, m.descriptor.value⟩⟩ := by
  refine (reads_u2Bytes holder.index).bind ((reads_u2Bytes (methodIndex method)).bind_pure ?_)
  have hclass := reads_lift (Pool.className_at holder)
  cases method with
  | none =>
    exact (reads_pure none).pure_bind (hclass.bind_pure (reads_pure _))
  | some signature =>
    rw [methodIndex, if_neg (Pool.toNat_ne_zero signature.stands)]
    refine (reads_lift (Pool.nameAndType_at signature)).bind_pure ?_
    have hsome := reads_pure (some (Signature.mk signature.name.value signature.descriptor.value))
    exact hsome.pure_bind (hclass.bind_pure (reads_pure _))

/-- An attribute of a class gives what the layout says is kept of it. -/
theorem reads {a : ClassAttribute p} (hfits : a.Fits) :
    Reads (readClassAttribute p.constantPool) a.bytes a.kept := by
  refine (reads_readAttribute a.name hfits.1).bind_pure ?_
  dsimp only
  cases a with
  | sourceFile name hname file =>
    rw [if_pos (by simpa [ClassAttribute.name] using hname)]
    exact (reads_inside (Pool.reads_nextText file)).map _
  | enclosing name hname holder method =>
    rw [if_neg (by simp [ClassAttribute.name, hname]),
      if_pos (by simpa [ClassAttribute.name] using hname)]
    exact (reads_inside (reads_enclosing holder method)).map _
  | annotations name hname items =>
    rw [if_neg (by simp [ClassAttribute.name, hname]),
      if_neg (by simp [ClassAttribute.name, hname]),
      if_pos (by simpa [ClassAttribute.name] using hname)]
    have hread := reads_counted hfits.2.1 fun a ha => AnnotationLayout.reads (hfits.2.2 a ha)
    exact (reads_inside hread).map _
  | other name hname body =>
    simp only [List.mem_cons, List.not_mem_nil, or_false, not_or] at hname
    rw [if_neg (by simpa [ClassAttribute.name] using hname.1),
      if_neg (by simpa [ClassAttribute.name] using hname.2.1),
      if_neg (by simpa [ClassAttribute.name] using hname.2.2)]
    exact reads_pure _

/-- What one attribute adds to a class. -/
theorem withAttribute_kept (c : ClassFile) (a : ClassAttribute p) :
    withAttribute c a.kept =
      { c with
        sourceFile := a.sourceFile?.or c.sourceFile
        enclosing := a.place?.or c.enclosing
        annotations := c.annotations ++ a.entries } := by
  cases a <;> simp [withAttribute, kept, sourceFile?, place?, entries]

/-- What all attributes together add to a class. -/
theorem foldl_withAttribute (attributes : List (ClassAttribute p)) (c : ClassFile) :
    (attributes.map kept).foldl withAttribute c =
      { c with
        sourceFile := (attributes.filterMap sourceFile?).getLast?.or c.sourceFile
        enclosing := (attributes.filterMap place?).getLast?.or c.enclosing
        annotations := c.annotations ++ attributes.flatMap entries } := by
  induction attributes generalizing c with
  | nil => simp
  | cons a rest ih =>
    rw [List.map_cons, List.foldl_cons, withAttribute_kept, ih, Lists.getLast?_filterMap_cons_or,
      Lists.getLast?_filterMap_cons_or, List.flatMap_cons, List.append_assoc]

end ClassAttribute

/-- A class file as it is written. -/
structure Class where
  /-- Minor version of the format. -/
  minor : UInt16
  /-- Major version of the format. -/
  major : UInt16
  /-- Constants. -/
  pool : Pool
  /-- Access flags. -/
  access : UInt16
  /-- The class itself. -/
  self : pool.ClassAt
  /-- The superclass. -/
  superclass : Option pool.ClassAt
  /-- The implemented interfaces. -/
  interfaces : List pool.ClassAt
  /-- Fields. -/
  fields : List (Field pool)
  /-- Methods. -/
  methods : List (Method pool)
  /-- Attributes. -/
  attributes : List (ClassAttribute pool)

namespace Class

/-- The index of the superclass, zero when there is none. -/
def superIndex : Option p.ClassAt → UInt16
  | some c => c.index
  | none => 0

/-- The bytes of a class file. -/
def bytes (c : Class) : List UInt8 :=
  bigEndianBytes 4 magic ++ (u2Bytes c.minor ++ (u2Bytes c.major ++ (c.pool.bytes ++
    (u2Bytes c.access ++ (c.self.bytes ++ (u2Bytes (superIndex c.superclass) ++
      (countedBytes c.interfaces Pool.ClassAt.bytes ++ (countedBytes c.fields Field.bytes ++
        (countedBytes c.methods Method.bytes ++
          countedBytes c.attributes ClassAttribute.bytes)))))))))

/-- All counts and lengths fit the fields they are written in. -/
structure Fits (c : Class) : Prop where
  /-- The constants fit their pool. -/
  pool : c.pool.Fits
  /-- The number of interfaces has two bytes. -/
  interfaceCount : c.interfaces.length < 2 ^ 16
  /-- The number of fields has two bytes. -/
  fieldCount : c.fields.length < 2 ^ 16
  /-- The number of methods has two bytes. -/
  methodCount : c.methods.length < 2 ^ 16
  /-- The number of attributes has two bytes. -/
  attributeCount : c.attributes.length < 2 ^ 16
  /-- The fields fit their layouts. -/
  fields : ∀ f ∈ c.fields, f.Fits
  /-- The methods fit their layouts. -/
  methods : ∀ m ∈ c.methods, m.Fits
  /-- The attributes fit their layouts. -/
  attributes : ∀ a ∈ c.attributes, a.Fits

/-- What a class file is read as. There is at most one source file and one place where the
class is declared; of several, the last counts. -/
def classFile (c : Class) : ClassFile where
  name := c.self.name.value
  superName := c.superclass.map fun s => s.name.value
  interfaces := c.interfaces.map fun i => i.name.value
  access := c.access.toNat
  sourceFile := (c.attributes.filterMap ClassAttribute.sourceFile?).getLast?
  enclosing := (c.attributes.filterMap ClassAttribute.place?).getLast?
  fields := c.fields.map Field.field
  methods := c.methods.map Method.method
  annotations := c.attributes.flatMap ClassAttribute.entries

/-- The index of the super class gives its name, and index zero gives none. -/
theorem reads_superclass (superclass : Option p.ClassAt) :
    Reads (readSuper p.constantPool) (u2Bytes (superIndex superclass))
      (superclass.map fun s => s.name.value) := by
  refine (reads_u2Bytes (superIndex superclass)).bind_pure ?_
  cases superclass with
  | none => exact reads_pure none
  | some s =>
    rw [superIndex, if_neg (Pool.toNat_ne_zero s.stands)]
    exact (reads_lift (Pool.className_at s)).bind_pure (reads_pure _)

/-- The layout of a class is read back part by part: pool, names, members and attributes. -/
theorem reads {c : Class} (hfits : c.Fits) : Reads readClass c.bytes c.classFile := by
  have hinterfaces := reads_counted hfits.interfaceCount fun i _ => Pool.reads_nextClassName i
  have hfields := reads_counted hfits.fieldCount fun f hf => Field.reads (hfits.fields f hf)
  have hmethods := reads_counted hfits.methodCount fun m hm => Method.reads (hfits.methods m hm)
  have hattributes := reads_counted hfits.attributeCount fun a ha =>
    ClassAttribute.reads (hfits.attributes a ha)
  refine (reads_u4 (by decide)).bind ?_
  rw [if_neg (by simp)]
  refine (reads_u2Bytes c.minor).bind ((reads_u2Bytes c.major).bind
    ((c.pool.reads hfits.pool).bind ((reads_u2Bytes c.access).bind
      ((Pool.reads_nextClassName c.self).bind ((reads_superclass c.superclass).bind
        (hinterfaces.bind (hfields.bind (hmethods.bind (hattributes.bind_pure ?_)))))))))
  dsimp only
  rw [ClassAttribute.foldl_withAttribute]
  simp only [Option.or_none, List.nil_append]
  exact reads_pure _

/-- Reading a class file from its bytes gives the class that was written, and the lines of each
method are those of its line tables, ascending and without repetition. -/
theorem ofBytes_bytes (c : Class) (hfits : c.Fits) :
    ofBytes c.bytes = .ok c.classFile ∧
      ∀ m ∈ c.methods, m.method.lines.toList.Pairwise (· < ·) ∧
        ∀ line, line ∈ m.method.lines.toList ↔ ∃ table ∈ m.tables, line ∈ table := by
  refine ⟨?_, fun m _ => ⟨m.method.lines.ascending, fun line => m.mem_lines⟩⟩
  have hread := reads hfits 0 []
  rw [List.append_nil] at hread
  rw [ofBytes, StateT.run, hread]
  rfl

/-- The constants of a small class; the long integer takes the indexes three and four. -/
def markedPool : Pool :=
  ⟨[.text "demo/Main", .classRef 1, .long 7, .text "run", .text "()V", .text "Code",
    .text "LineNumberTable", .text "RuntimeVisibleAnnotations", .text "Ldemo/Marked;",
    .text "value"]⟩

/-- A method with two pieces of code that have a line in common. -/
def markedMethod : Method markedPool where
  access := 1
  name := ⟨5, "run", by decide⟩
  descriptor := ⟨6, "()V", by decide⟩
  attributes :=
    [.code ⟨7, "Code", by decide⟩ rfl
      ⟨1, 1, [0xB1], [(0, 0, 0, 0)], [.lineTable ⟨8, "LineNumberTable", by decide⟩ rfl [(0, 4)]]⟩,
    .code ⟨7, "Code", by decide⟩ rfl
      ⟨1, 1, [0xB1], [], [.other ⟨6, "()V", by decide⟩ (by decide) [1, 2],
        .lineTable ⟨8, "LineNumberTable", by decide⟩ rfl [(2, 4), (0, 3)]]⟩]

/-- An annotation that holds an annotation and a long integer in a list. -/
def deepMark : AnnotationLayout markedPool where
  type := ⟨10, "Ldemo/Marked;", by decide⟩
  elements := [(⟨11, "value", by decide⟩,
    .array [.nested ⟨10, "Ldemo/Marked;", by decide⟩ [], .long ⟨3, 7, by decide⟩])]

/-- A class with this method and this annotation. -/
def marked : Class where
  minor := 0
  major := 52
  pool := markedPool
  access := 1
  self := ⟨2, ⟨1, "demo/Main", by decide⟩, by decide⟩
  superclass := none
  interfaces := []
  fields := []
  methods := [markedMethod]
  attributes := [.annotations ⟨9, "RuntimeVisibleAnnotations", by decide⟩ rfl [deepMark]]

/-- The class `marked` fits its layout. Its two line tables overlap, and the method has each of
their lines once. -/
theorem ofBytes_bytes_marked :
    marked.Fits ∧ ofBytes marked.bytes = .ok marked.classFile ∧
      marked.classFile.methods.map (fun m => m.lines.toList) = [[3, 4]] := by
  have hmethod : markedMethod.Fits := by
    refine ⟨by decide, ?_⟩
    simp only [markedMethod, List.mem_cons, List.not_mem_nil, or_false, forall_eq_or_imp, forall_eq]
    constructor
    · refine ⟨by decide, by decide, by decide, by decide, ?_⟩
      simp [CodeAttribute.Fits, CodeAttribute.CountsFit, CodeAttribute.body, countedBytes]
    · refine ⟨by decide, by decide, by decide, by decide, ?_⟩
      simp [CodeAttribute.Fits, CodeAttribute.CountsFit, CodeAttribute.body, countedBytes]
  have hannotation : deepMark.Fits := by
    simp [deepMark, AnnotationLayout.Fits, Value.Fits]
  have hlength : deepMark.bytes.length = 17 := by
    simp [deepMark, AnnotationLayout.bytes, countedBytes, Value.elementBytes, Value.bytes,
      Value.body, Pool.At.bytes]
  have hfits : marked.Fits := by
    refine ⟨⟨by decide, ?_⟩, by decide, by decide, by decide, by decide, ?_, ?_, ?_⟩
    · simp [marked, markedPool, Entry.Fits]
      decide
    · exact fun f hf => absurd hf List.not_mem_nil
    · intro m hm
      obtain rfl := List.mem_singleton.mp hm
      exact hmethod
    · intro a ha
      obtain rfl := List.mem_singleton.mp ha
      refine ⟨?_, by decide, ?_⟩
      · change (countedBytes [deepMark] AnnotationLayout.bytes).length < 2 ^ 32
        simp [countedBytes, hlength]
      · intro b hb
        obtain rfl := List.mem_singleton.mp hb
        exact hannotation
  exact ⟨hfits, (ofBytes_bytes marked hfits).1, by decide⟩

end Class

end LineAtlas.ClassFile.Layout
