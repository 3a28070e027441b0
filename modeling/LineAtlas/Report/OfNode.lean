import LineAtlas.Exchange.Node
import LineAtlas.Report.Entry

/-!
# Reading reports

A report is read from whatever a text offers. Fields may stand in any order, lists that are
left out are empty, and unknown fields are ignored. How deeply lists, records and tables lie
inside each other is limited.
-/

namespace LineAtlas

open Exchange (Node Fields)

/-- The values by number that a node offers. Of several with the same number the last one
counts. -/
def NumberMap.ofNode? {α : Type} (read : Node → Option α) (node : Node) :
    Option (NumberMap α) :=
  (node.table? UInt32.size read).map fun entries =>
    NumberMap.ofList (entries.map fun entry => (UInt32.ofNat entry.1, entry.2))

/-- A count of hits. -/
def readCount? (node : Node) : Option UInt64 :=
  (node.numberBelow? UInt64.size).map UInt64.ofNat

/-- The hits of a line: those by branch if there are any, or else those of the line. A line
that is given by position has both. -/
def LineHits.ofNode? (limit : Nat) (node : Node) : Option LineHits :=
  match limit, node with
  | 0, _ | _, .list _ [] | _, .list _ [_] => none
  | inner + 1, node => do
    let fields ← node.fields? ["hits", "branches"]
    let hits ← fields.optional? "hits" readCount?
    let branches ← fields.optional? "branches" fun node =>
      if inner = 0 then none else NumberMap.ofNode? readCount? node
    match branches, hits with
    | some branches, _ => return .branched branches
    | none, some hits => return .simple hits
    | none, none => none

/-- The lines of a function. -/
def LineMap.ofNode? (limit : Nat) (node : Node) : Option LineMap :=
  match limit with
  | 0 => if node.isVoid then some .empty else none
  | inner + 1 => NumberMap.ofNode? (LineHits.ofNode? inner) node

namespace Report

/-- How the records in a report are read where a number of levels may still be entered. -/
structure Readers where
  /-- Reads a function with a name. -/
  function : Node → Option FunctionEntry
  /-- Reads a function without a name. -/
  anonymousFunction : Node → Option AnonymousFunction
  /-- Reads a local class with a name. -/
  localClass : Node → Option LocalClassEntry
  /-- Reads a class without a name. -/
  anonymousClass : Node → Option AnonymousClass
  /-- Reads a property. -/
  property : Node → Option PropertyEntry
  /-- Reads a class. -/
  classEntry : Node → Option ClassEntry
  /-- Reads an object. -/
  object : Node → Option ObjectEntry
  /-- Reads a source file. -/
  file : Node → Option FileEntry

/-- The readers where no record may be entered any more. -/
def Readers.none : Readers :=
  ⟨fun _ => .none, fun _ => .none, fun _ => .none, fun _ => .none, fun _ => .none,
    fun _ => .none, fun _ => .none, fun _ => .none⟩

/-- What may be entered inside a record. -/
structure Inside where
  /-- The number of levels that may still be entered. -/
  limit : Nat
  /-- How records are read. -/
  records : Readers
  /-- How records in a list are read, if a list may be entered. -/
  items : Option Readers

namespace Inside

/-- A list of records. -/
def list? {α : Type} (i : Inside) (reader : Readers → Node → Option α) (node : Node) :
    Option (List α) :=
  match i.items with
  | some items => node.list? (reader items)
  | none => if node.isVoid then some [] else none

/-- Names of the fields for what is declared in a body. -/
def bodyNames : List String :=
  ["functions", "classes", "lambdaClasses", "anonymousFunctions", "anonymousClasses"]

/-- Names of the fields for the members of a class. -/
def memberNames : List String := ["functions", "constructors", "properties"]

/-- What is declared in a body. -/
def body? (i : Inside) (fields : Fields) : Option BodyEntries := do
  let functions ← fields.withDefault? "functions" [] (i.list? (·.function))
  let classes ← fields.withDefault? "classes" [] (i.list? (·.localClass))
  let lambdaClasses ← fields.withDefault? "lambdaClasses" [] (i.list? (·.anonymousClass))
  let anonymousFunctions ←
    fields.withDefault? "anonymousFunctions" [] (i.list? (·.anonymousFunction))
  let anonymousClasses ← fields.withDefault? "anonymousClasses" [] (i.list? (·.anonymousClass))
  return ⟨functions, classes, lambdaClasses, anonymousFunctions, anonymousClasses⟩

/-- The members of a class. -/
def members? (i : Inside) (fields : Fields) : Option MemberEntries := do
  let functions ← fields.withDefault? "functions" [] (i.list? (·.function))
  let constructors ← fields.withDefault? "constructors" [] (i.list? (·.function))
  let properties ← fields.withDefault? "properties" [] (i.list? (·.property))
  return ⟨functions, constructors, properties⟩

/-- A function with a name. -/
def function? (i : Inside) (node : Node) : Option FunctionEntry := do
  let fields ← node.fields?
    (["name", "descriptor", "jvmSignature", "lines", "jvmDefaultValues"] ++ bodyNames)
  let name ← fields.text? "name"
  let descriptor ← fields.optional? "descriptor" Node.text?
  let signature ← fields.text? "jvmSignature"
  let lines ← fields.required? "lines" (LineMap.ofNode? i.limit)
  let defaultValues ← fields.optional? "jvmDefaultValues" i.records.anonymousFunction
  let body ← i.body? fields
  return ⟨name, descriptor, signature, lines, defaultValues, body⟩

/-- A function without a name. -/
def anonymousFunction? (i : Inside) (node : Node) : Option AnonymousFunction := do
  let fields ← node.fields? (["jvmSignature", "lines"] ++ bodyNames)
  let signature ← fields.text? "jvmSignature"
  let lines ← fields.required? "lines" (LineMap.ofNode? i.limit)
  let body ← i.body? fields
  return ⟨signature, lines, body⟩

/-- A class without a name. -/
def anonymousClass? (i : Inside) (node : Node) : Option AnonymousClass := do
  let fields ← node.fields? ("jvmName" :: memberNames)
  let jvmName ← fields.text? "jvmName"
  let members ← i.members? fields
  return ⟨jvmName, members⟩

/-- A local class with a name. -/
def localClass? (i : Inside) (node : Node) : Option LocalClassEntry := do
  let fields ← node.fields? (["name", "jvmName"] ++ memberNames)
  let name ← fields.text? "name"
  let jvmName ← fields.text? "jvmName"
  let members ← i.members? fields
  return ⟨name, jvmName, members⟩

/-- A property. -/
def property? (i : Inside) (node : Node) : Option PropertyEntry := do
  let fields ← node.fields? ["name", "customGetter", "customSetter", "getter", "setter"]
  let name ← fields.text? "name"
  let customGetter ← fields.withDefault? "customGetter" false Node.truth?
  let customSetter ← fields.withDefault? "customSetter" false Node.truth?
  let getter ← fields.optional? "getter" i.records.anonymousFunction
  let setter ← fields.optional? "setter" i.records.anonymousFunction
  return ⟨name, customGetter, customSetter, getter, setter⟩

/-- A class. -/
def class? (i : Inside) (node : Node) : Option ClassEntry := do
  let fields ← node.fields? (["name", "jvmName"] ++ memberNames
    ++ ["classes", "objects", "isData", "companion", "jvmDefaultImpl"])
  let name ← fields.text? "name"
  let jvmName ← fields.text? "jvmName"
  let members ← i.members? fields
  let classes ← fields.withDefault? "classes" [] (i.list? (·.classEntry))
  let objects ← fields.withDefault? "objects" [] (i.list? (·.object))
  let isData ← fields.withDefault? "isData" false Node.truth?
  let companion ← fields.optional? "companion" i.records.object
  let defaultImpls ← fields.optional? "jvmDefaultImpl" i.records.anonymousClass
  return ⟨name, jvmName, members, classes, objects, isData, companion, defaultImpls⟩

/-- An object. -/
def object? (i : Inside) (node : Node) : Option ObjectEntry := do
  let fields ← node.fields? (["name", "jvmName"] ++ memberNames
    ++ ["classes", "objects", "isData"])
  let name ← fields.text? "name"
  let jvmName ← fields.text? "jvmName"
  let members ← i.members? fields
  let classes ← fields.withDefault? "classes" [] (i.list? (·.classEntry))
  let objects ← fields.withDefault? "objects" [] (i.list? (·.object))
  let isData ← fields.withDefault? "isData" false Node.truth?
  return ⟨name, jvmName, members, classes, objects, isData⟩

/-- A source file. -/
def file? (i : Inside) (node : Node) : Option FileEntry := do
  let fields ← node.fields?
    ["path", "classes", "functions", "properties", "objects", "initFunction"]
  let path ← fields.text? "path"
  let classes ← fields.withDefault? "classes" [] (i.list? (·.classEntry))
  let functions ← fields.withDefault? "functions" [] (i.list? (·.function))
  let properties ← fields.withDefault? "properties" [] (i.list? (·.property))
  let objects ← fields.withDefault? "objects" [] (i.list? (·.object))
  let init ← fields.optional? "initFunction" i.records.anonymousFunction
  return ⟨path, classes, functions, properties, objects, init⟩

/-- The readers of records, given what may be entered inside them. -/
def readers (i : Inside) : Readers :=
  ⟨i.function?, i.anonymousFunction?, i.localClass?, i.anonymousClass?, i.property?, i.class?,
    i.object?, i.file?⟩

/-- What may be entered inside a record where a number of levels may still be entered. -/
def ofLimit : Nat → Inside
  | 0 => ⟨0, .none, none⟩
  | limit + 1 => let inner := ofLimit limit; ⟨limit + 1, inner.readers, some inner.records⟩

end Inside

/-- The report that a node offers. At most the given number of levels is entered. -/
def ofNode? : (limit : Nat) → Node → Option Report
  | 0, _ => none
  | limit + 1, node => do
    let fields ← node.fields? ["files"]
    let files ← fields.withDefault? "files" [] ((Inside.ofLimit limit).list? (·.file))
    return ⟨files⟩

end Report

end LineAtlas
