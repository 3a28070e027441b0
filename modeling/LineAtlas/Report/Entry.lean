import LineAtlas.Report.LineHits

/-!
# Reports

A report has an entry for every source file, and below it entries for the classes, functions
and properties of the file. Every function has a slot for each of its lines.
-/

namespace LineAtlas.Report

mutual

/-- A function with a name. -/
structure FunctionEntry where
  /-- Declared name. -/
  name : String
  /-- Receivers and parameters, for a declared function. -/
  descriptor : Option String
  /-- Name and descriptor of the method. -/
  signature : String
  /-- Slots of the lines. -/
  lines : LineMap
  /-- The helper that fills in default arguments. -/
  defaultValues : Option AnonymousFunction
  /-- What is declared in the body. -/
  inner : BodyEntries

/-- A function without a name. -/
structure AnonymousFunction where
  /-- Name and descriptor of the method. -/
  signature : String
  /-- Slots of the lines. -/
  lines : LineMap
  /-- What is declared in the body. -/
  inner : BodyEntries

/-- What is declared in the body of a function. -/
structure BodyEntries where
  /-- Local functions. -/
  functions : List FunctionEntry
  /-- Local classes with a name. -/
  classes : List LocalClassEntry
  /-- Lambdas compiled to classes. -/
  lambdaClasses : List AnonymousClass
  /-- Lambdas compiled to methods. -/
  anonymousFunctions : List AnonymousFunction
  /-- Object expressions. -/
  anonymousClasses : List AnonymousClass

/-- A class with a name in the body of a function. -/
structure LocalClassEntry where
  /-- Name. -/
  name : String
  /-- Internal name. -/
  jvmName : String
  /-- Members. -/
  members : MemberEntries

/-- A class without a name. -/
structure AnonymousClass where
  /-- Internal name. -/
  jvmName : String
  /-- Members. -/
  members : MemberEntries

/-- The members of a class. -/
structure MemberEntries where
  /-- Functions. -/
  functions : List FunctionEntry
  /-- Constructors. -/
  constructors : List FunctionEntry
  /-- Properties. -/
  properties : List PropertyEntry

/-- A property. -/
structure PropertyEntry where
  /-- Name. -/
  name : String
  /-- Whether the getter has a body in the source. -/
  customGetter : Bool
  /-- Whether the setter has a body in the source. -/
  customSetter : Bool
  /-- The getter. -/
  getter : Option AnonymousFunction
  /-- The setter. -/
  setter : Option AnonymousFunction

end

mutual

/-- A class or interface. -/
structure ClassEntry where
  /-- Declared name with its package. -/
  name : String
  /-- Internal name. -/
  jvmName : String
  /-- Members. -/
  members : MemberEntries
  /-- Nested classes. -/
  classes : List ClassEntry
  /-- Nested objects. -/
  objects : List ObjectEntry
  /-- Whether it is a data class. -/
  isData : Bool
  /-- The companion object. -/
  companion : Option ObjectEntry
  /-- The holder of the bodies of its methods, for an interface. -/
  defaultImpls : Option AnonymousClass

/-- An object. -/
structure ObjectEntry where
  /-- Name without the classes around it. -/
  name : String
  /-- Internal name. -/
  jvmName : String
  /-- Members. -/
  members : MemberEntries
  /-- Nested classes. -/
  classes : List ClassEntry
  /-- Nested objects. -/
  objects : List ObjectEntry
  /-- Whether it is a data object. -/
  isData : Bool

end

/-- A source file. -/
structure FileEntry where
  /-- Path of the file. -/
  path : String
  /-- Classes. -/
  classes : List ClassEntry
  /-- Functions at the top level. -/
  functions : List FunctionEntry
  /-- Properties at the top level. -/
  properties : List PropertyEntry
  /-- Objects. -/
  objects : List ObjectEntry
  /-- The code of initializers at the top level. -/
  init : Option AnonymousFunction

/-- Members of nothing. -/
def MemberEntries.empty : MemberEntries := ⟨[], [], []⟩

/-- The body of a function in which nothing is declared. -/
def BodyEntries.empty : BodyEntries := ⟨[], [], [], [], []⟩

mutual

/-- The number of line slots. -/
def FunctionEntry.lineCount : FunctionEntry → Nat
  | ⟨_, _, _, lines, defaultValues, inner⟩ =>
    lines.size + AnonymousFunction.lineCountOf? defaultValues + inner.lineCount

/-- The number of line slots. -/
def AnonymousFunction.lineCount : AnonymousFunction → Nat
  | ⟨_, lines, inner⟩ => lines.size + inner.lineCount

/-- The number of line slots. -/
def BodyEntries.lineCount : BodyEntries → Nat
  | ⟨functions, classes, lambdaClasses, anonymousFunctions, anonymousClasses⟩ =>
    FunctionEntry.lineCountOf functions + LocalClassEntry.lineCountOf classes
      + AnonymousClass.lineCountOf lambdaClasses
      + AnonymousFunction.lineCountOf anonymousFunctions
      + AnonymousClass.lineCountOf anonymousClasses

/-- The number of line slots. -/
def LocalClassEntry.lineCount : LocalClassEntry → Nat
  | ⟨_, _, members⟩ => members.lineCount

/-- The number of line slots. -/
def AnonymousClass.lineCount : AnonymousClass → Nat
  | ⟨_, members⟩ => members.lineCount

/-- The number of line slots. -/
def MemberEntries.lineCount : MemberEntries → Nat
  | ⟨functions, constructors, properties⟩ =>
    FunctionEntry.lineCountOf functions + FunctionEntry.lineCountOf constructors
      + PropertyEntry.lineCountOf properties

/-- The number of line slots. -/
def PropertyEntry.lineCount : PropertyEntry → Nat
  | ⟨_, _, _, getter, setter⟩ =>
    AnonymousFunction.lineCountOf? getter + AnonymousFunction.lineCountOf? setter

/-- The number of line slots of all items. -/
def FunctionEntry.lineCountOf : List FunctionEntry → Nat
  | [] => 0
  | first :: rest => first.lineCount + FunctionEntry.lineCountOf rest

/-- The number of line slots of all items. -/
def AnonymousFunction.lineCountOf : List AnonymousFunction → Nat
  | [] => 0
  | first :: rest => first.lineCount + AnonymousFunction.lineCountOf rest

/-- The number of line slots of an item that may be missing. -/
def AnonymousFunction.lineCountOf? : Option AnonymousFunction → Nat
  | none => 0
  | some item => item.lineCount

/-- The number of line slots of all items. -/
def LocalClassEntry.lineCountOf : List LocalClassEntry → Nat
  | [] => 0
  | first :: rest => first.lineCount + LocalClassEntry.lineCountOf rest

/-- The number of line slots of all items. -/
def AnonymousClass.lineCountOf : List AnonymousClass → Nat
  | [] => 0
  | first :: rest => first.lineCount + AnonymousClass.lineCountOf rest

/-- The number of line slots of all items. -/
def PropertyEntry.lineCountOf : List PropertyEntry → Nat
  | [] => 0
  | first :: rest => first.lineCount + PropertyEntry.lineCountOf rest

end

/-- The number of line slots of a class without a name that may be missing. -/
def AnonymousClass.lineCountOf? : Option AnonymousClass → Nat
  | none => 0
  | some item => item.lineCount

mutual

/-- The number of line slots. -/
def ClassEntry.lineCount : ClassEntry → Nat
  | ⟨_, _, members, classes, objects, _, companion, defaultImpls⟩ =>
    members.lineCount + ClassEntry.lineCountOf classes + ObjectEntry.lineCountOf objects
      + ObjectEntry.lineCountOf? companion + AnonymousClass.lineCountOf? defaultImpls

/-- The number of line slots. -/
def ObjectEntry.lineCount : ObjectEntry → Nat
  | ⟨_, _, members, classes, objects, _⟩ =>
    members.lineCount + ClassEntry.lineCountOf classes + ObjectEntry.lineCountOf objects

/-- The number of line slots of all items. -/
def ClassEntry.lineCountOf : List ClassEntry → Nat
  | [] => 0
  | first :: rest => first.lineCount + ClassEntry.lineCountOf rest

/-- The number of line slots of all items. -/
def ObjectEntry.lineCountOf : List ObjectEntry → Nat
  | [] => 0
  | first :: rest => first.lineCount + ObjectEntry.lineCountOf rest

/-- The number of line slots of an item that may be missing. -/
def ObjectEntry.lineCountOf? : Option ObjectEntry → Nat
  | none => 0
  | some item => item.lineCount

end

/-- The number of line slots. -/
def FileEntry.lineCount (f : FileEntry) : Nat :=
  ClassEntry.lineCountOf f.classes + FunctionEntry.lineCountOf f.functions
    + PropertyEntry.lineCountOf f.properties + ObjectEntry.lineCountOf f.objects
    + AnonymousFunction.lineCountOf? f.init

/-- The first local function with a name. -/
def FunctionEntry.function? (f : FunctionEntry) (name : String) : Option FunctionEntry :=
  f.inner.functions.find? (·.name == name)

/-- The first function with a name. -/
def ClassEntry.function? (c : ClassEntry) (name : String) : Option FunctionEntry :=
  c.members.functions.find? (·.name == name)

/-- The first property with a name. -/
def ClassEntry.property? (c : ClassEntry) (name : String) : Option PropertyEntry :=
  c.members.properties.find? (·.name == name)

/-- The first class with a name. -/
def FileEntry.class? (f : FileEntry) (name : String) : Option ClassEntry :=
  f.classes.find? (·.name == name)

/-- The first function at the top level with a name. -/
def FileEntry.function? (f : FileEntry) (name : String) : Option FunctionEntry :=
  f.functions.find? (·.name == name)

end LineAtlas.Report

namespace LineAtlas

/-- A report on a set of class files. -/
structure Report where
  /-- Entries of the source files. -/
  files : List Report.FileEntry

namespace Report

/-- The first entry of a path. -/
def file? (r : Report) (path : String) : Option FileEntry := r.files.find? (·.path == path)

/-- The number of line slots. -/
def lineCount (r : Report) : Nat := (r.files.map FileEntry.lineCount).foldr (· + ·) 0

end Report

end LineAtlas
