import LineAtlas.Exchange.Data
import LineAtlas.Report.Entry

/-!
# The written form of reports

Names and order of the fields of a report. Empty lists and missing parts are left out, except
for the files of a report, the lines of a function and the getter of a property.
-/

namespace LineAtlas

open Exchange (Data)
open Exchange.Data (field fieldOf? fieldOfList)

/-- Values by number. -/
def NumberMap.toData {α : Type} (write : α → Data) (m : NumberMap α) : Data :=
  .table (m.entries.map fun entry => (entry.1.toNat, write entry.2))

/-- The hits of a line. -/
def LineHits.toData : LineHits → Data
  | .simple hits => .record (field "hits" (.number hits.toNat))
  | .branched branches =>
    .record (field "branches" (branches.toData fun hits => .number hits.toNat))

/-- The lines of a function. -/
def LineMap.toData (lines : LineMap) : Data := NumberMap.toData LineHits.toData lines

namespace Report

mutual

/-- The written form. -/
def FunctionEntry.toData : FunctionEntry → Data
  | ⟨name, descriptor, signature, lines, defaultValues, inner⟩ =>
    .record (field "name" (.text name) ++ fieldOf? "descriptor" (descriptor.map .text)
      ++ field "jvmSignature" (.text signature) ++ field "lines" (LineMap.toData lines)
      ++ fieldOf? "jvmDefaultValues" (AnonymousFunction.toDataOf? defaultValues)
      ++ inner.toFields)

/-- The written form. -/
def AnonymousFunction.toData : AnonymousFunction → Data
  | ⟨signature, lines, inner⟩ =>
    .record (field "jvmSignature" (.text signature) ++ field "lines" (LineMap.toData lines)
      ++ inner.toFields)

/-- The fields for what is declared in a body. -/
def BodyEntries.toFields : BodyEntries → List (String × Data)
  | ⟨functions, classes, lambdaClasses, anonymousFunctions, anonymousClasses⟩ =>
    fieldOfList "functions" (FunctionEntry.toDataOf functions)
      ++ fieldOfList "classes" (LocalClassEntry.toDataOf classes)
      ++ fieldOfList "lambdaClasses" (AnonymousClass.toDataOf lambdaClasses)
      ++ fieldOfList "anonymousFunctions" (AnonymousFunction.toDataOf anonymousFunctions)
      ++ fieldOfList "anonymousClasses" (AnonymousClass.toDataOf anonymousClasses)

/-- The written form. -/
def LocalClassEntry.toData : LocalClassEntry → Data
  | ⟨name, jvmName, members⟩ =>
    .record (field "name" (.text name) ++ field "jvmName" (.text jvmName) ++ members.toFields)

/-- The written form. -/
def AnonymousClass.toData : AnonymousClass → Data
  | ⟨jvmName, members⟩ => .record (field "jvmName" (.text jvmName) ++ members.toFields)

/-- The fields for the members of a class. -/
def MemberEntries.toFields : MemberEntries → List (String × Data)
  | ⟨functions, constructors, properties⟩ =>
    fieldOfList "functions" (FunctionEntry.toDataOf functions)
      ++ fieldOfList "constructors" (FunctionEntry.toDataOf constructors)
      ++ fieldOfList "properties" (PropertyEntry.toDataOf properties)

/-- The written form. -/
def PropertyEntry.toData : PropertyEntry → Data
  | ⟨name, customGetter, customSetter, getter, setter⟩ =>
    .record (field "name" (.text name) ++ field "customGetter" (.truth customGetter)
      ++ field "customSetter" (.truth customSetter)
      ++ field "getter" (Data.ofOption (AnonymousFunction.toDataOf? getter))
      ++ fieldOf? "setter" (AnonymousFunction.toDataOf? setter))

/-- The written forms of all items. -/
def FunctionEntry.toDataOf : List FunctionEntry → List Data
  | [] => []
  | first :: rest => first.toData :: FunctionEntry.toDataOf rest

/-- The written forms of all items. -/
def AnonymousFunction.toDataOf : List AnonymousFunction → List Data
  | [] => []
  | first :: rest => first.toData :: AnonymousFunction.toDataOf rest

/-- The written form of an item that may be missing. -/
def AnonymousFunction.toDataOf? : Option AnonymousFunction → Option Data
  | none => none
  | some item => some item.toData

/-- The written forms of all items. -/
def LocalClassEntry.toDataOf : List LocalClassEntry → List Data
  | [] => []
  | first :: rest => first.toData :: LocalClassEntry.toDataOf rest

/-- The written forms of all items. -/
def AnonymousClass.toDataOf : List AnonymousClass → List Data
  | [] => []
  | first :: rest => first.toData :: AnonymousClass.toDataOf rest

/-- The written forms of all items. -/
def PropertyEntry.toDataOf : List PropertyEntry → List Data
  | [] => []
  | first :: rest => first.toData :: PropertyEntry.toDataOf rest

end

mutual

/-- The written form. -/
def ClassEntry.toData : ClassEntry → Data
  | ⟨name, jvmName, members, classes, objects, isData, companion, defaultImpls⟩ =>
    .record (field "name" (.text name) ++ field "jvmName" (.text jvmName) ++ members.toFields
      ++ fieldOfList "classes" (ClassEntry.toDataOf classes)
      ++ fieldOfList "objects" (ObjectEntry.toDataOf objects)
      ++ field "isData" (.truth isData)
      ++ fieldOf? "companion" (ObjectEntry.toDataOf? companion)
      ++ fieldOf? "jvmDefaultImpl" (defaultImpls.map AnonymousClass.toData))

/-- The written form. -/
def ObjectEntry.toData : ObjectEntry → Data
  | ⟨name, jvmName, members, classes, objects, isData⟩ =>
    .record (field "name" (.text name) ++ field "jvmName" (.text jvmName) ++ members.toFields
      ++ fieldOfList "classes" (ClassEntry.toDataOf classes)
      ++ fieldOfList "objects" (ObjectEntry.toDataOf objects)
      ++ field "isData" (.truth isData))

/-- The written forms of all items. -/
def ClassEntry.toDataOf : List ClassEntry → List Data
  | [] => []
  | first :: rest => first.toData :: ClassEntry.toDataOf rest

/-- The written forms of all items. -/
def ObjectEntry.toDataOf : List ObjectEntry → List Data
  | [] => []
  | first :: rest => first.toData :: ObjectEntry.toDataOf rest

/-- The written form of an item that may be missing. -/
def ObjectEntry.toDataOf? : Option ObjectEntry → Option Data
  | none => none
  | some item => some item.toData

end

/-- The written form. -/
def FileEntry.toData (f : FileEntry) : Data :=
  .record (field "path" (.text f.path)
    ++ fieldOfList "classes" (ClassEntry.toDataOf f.classes)
    ++ fieldOfList "functions" (FunctionEntry.toDataOf f.functions)
    ++ fieldOfList "properties" (PropertyEntry.toDataOf f.properties)
    ++ fieldOfList "objects" (ObjectEntry.toDataOf f.objects)
    ++ fieldOf? "initFunction" (f.init.map AnonymousFunction.toData))

/-- The written form. -/
def toData (r : Report) : Data := .record (field "files" (.list (r.files.map FileEntry.toData)))

end Report

end LineAtlas
