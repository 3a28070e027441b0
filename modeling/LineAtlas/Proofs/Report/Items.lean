import LineAtlas.Report.Entry
import Mathlib.Algebra.GroupWithZero.Nat

/-!
# Items of a report

What a report shows, in one list: methods with their lines, and classes. The number of line
slots of an entry is that of the methods it shows, however deep they stand.
-/

namespace LineAtlas.Report

/-- Something that a report shows. -/
inductive Item where
  /-- The method of a function, with slots for its lines. -/
  | method (signature : String) (lines : LineMap)
  /-- A class, by its internal name. -/
  | ofClass (jvmName : String)

/-- The method, when the item is one. -/
def Item.method? : Item → Option (String × LineMap)
  | .method signature lines => some (signature, lines)
  | .ofClass _ => none

/-- The class, when the item is one. -/
def Item.className? : Item → Option String
  | .method _ _ => none
  | .ofClass jvmName => some jvmName

/-- The number of line slots of an item. -/
def Item.lineCount : Item → Nat
  | .method _ lines => lines.size
  | .ofClass _ => 0

/-- The number of line slots of several items. -/
def Item.lineCountOf (items : List Item) : Nat := (items.map Item.lineCount).sum

/-- No items have no line slots. -/
@[simp]
theorem Item.lineCountOf_nil : lineCountOf [] = 0 := rfl

/-- An item adds its own line slots. -/
@[simp]
theorem Item.lineCountOf_cons (item : Item) (items : List Item) :
    lineCountOf (item :: items) = item.lineCount + lineCountOf items := rfl

/-- Line slots are counted part by part. -/
@[simp]
theorem Item.lineCountOf_append (one two : List Item) :
    lineCountOf (one ++ two) = lineCountOf one + lineCountOf two := by
  simp [lineCountOf]

mutual

/-- What a function shows. -/
def FunctionEntry.items : FunctionEntry → List Item
  | ⟨_, _, signature, lines, defaultValues, inner⟩ =>
    .method signature lines :: (AnonymousFunction.itemsOf? defaultValues ++ inner.items)

/-- What a function without a name shows. -/
def AnonymousFunction.items : AnonymousFunction → List Item
  | ⟨signature, lines, inner⟩ => .method signature lines :: inner.items

/-- What a function body shows. -/
def BodyEntries.items : BodyEntries → List Item
  | ⟨functions, classes, lambdaClasses, anonymousFunctions, anonymousClasses⟩ =>
    FunctionEntry.itemsOf functions ++ LocalClassEntry.itemsOf classes
      ++ AnonymousClass.itemsOf lambdaClasses ++ AnonymousFunction.itemsOf anonymousFunctions
      ++ AnonymousClass.itemsOf anonymousClasses

/-- What a local class shows. -/
def LocalClassEntry.items : LocalClassEntry → List Item
  | ⟨_, jvmName, members⟩ => .ofClass jvmName :: members.items

/-- What a class without a name shows. -/
def AnonymousClass.items : AnonymousClass → List Item
  | ⟨jvmName, members⟩ => .ofClass jvmName :: members.items

/-- What the members of a class show. -/
def MemberEntries.items : MemberEntries → List Item
  | ⟨functions, constructors, properties⟩ =>
    FunctionEntry.itemsOf functions ++ FunctionEntry.itemsOf constructors
      ++ PropertyEntry.itemsOf properties

/-- What a property shows. -/
def PropertyEntry.items : PropertyEntry → List Item
  | ⟨_, _, _, getter, setter⟩ =>
    AnonymousFunction.itemsOf? getter ++ AnonymousFunction.itemsOf? setter

/-- What several functions show. -/
def FunctionEntry.itemsOf : List FunctionEntry → List Item
  | [] => []
  | first :: rest => first.items ++ FunctionEntry.itemsOf rest

/-- What several functions without names show. -/
def AnonymousFunction.itemsOf : List AnonymousFunction → List Item
  | [] => []
  | first :: rest => first.items ++ AnonymousFunction.itemsOf rest

/-- What a function shows that may be missing. -/
def AnonymousFunction.itemsOf? : Option AnonymousFunction → List Item
  | none => []
  | some f => f.items

/-- What several local classes show. -/
def LocalClassEntry.itemsOf : List LocalClassEntry → List Item
  | [] => []
  | first :: rest => first.items ++ LocalClassEntry.itemsOf rest

/-- What several classes without names show. -/
def AnonymousClass.itemsOf : List AnonymousClass → List Item
  | [] => []
  | first :: rest => first.items ++ AnonymousClass.itemsOf rest

/-- What several properties show. -/
def PropertyEntry.itemsOf : List PropertyEntry → List Item
  | [] => []
  | first :: rest => first.items ++ PropertyEntry.itemsOf rest

end

/-- What a class without a name shows that may be missing. -/
def AnonymousClass.itemsOf? : Option AnonymousClass → List Item
  | none => []
  | some c => c.items

mutual

/-- What a class shows. -/
def ClassEntry.items : ClassEntry → List Item
  | ⟨_, jvmName, members, classes, objects, _, companion, defaultImpls⟩ =>
    .ofClass jvmName :: (members.items ++ ClassEntry.itemsOf classes
      ++ ObjectEntry.itemsOf objects ++ ObjectEntry.itemsOf? companion
      ++ AnonymousClass.itemsOf? defaultImpls)

/-- What an object shows. -/
def ObjectEntry.items : ObjectEntry → List Item
  | ⟨_, jvmName, members, classes, objects, _⟩ =>
    .ofClass jvmName :: (members.items ++ ClassEntry.itemsOf classes
      ++ ObjectEntry.itemsOf objects)

/-- What several classes show. -/
def ClassEntry.itemsOf : List ClassEntry → List Item
  | [] => []
  | first :: rest => first.items ++ ClassEntry.itemsOf rest

/-- What several objects show. -/
def ObjectEntry.itemsOf : List ObjectEntry → List Item
  | [] => []
  | first :: rest => first.items ++ ObjectEntry.itemsOf rest

/-- What an object shows that may be missing. -/
def ObjectEntry.itemsOf? : Option ObjectEntry → List Item
  | none => []
  | some o => o.items

end

/-- What a source file shows. -/
def FileEntry.items (f : FileEntry) : List Item :=
  ClassEntry.itemsOf f.classes ++ FunctionEntry.itemsOf f.functions
    ++ PropertyEntry.itemsOf f.properties ++ ObjectEntry.itemsOf f.objects
    ++ AnonymousFunction.itemsOf? f.init

/-- The methods that a source file shows, with their lines. -/
def FileEntry.methods (f : FileEntry) : List (String × LineMap) :=
  f.items.filterMap Item.method?

/-- The internal names of the classes that a source file shows. -/
def FileEntry.classNames (f : FileEntry) : List String := f.items.filterMap Item.className?

mutual

/-- The line slots of a function are those of what it shows. -/
theorem FunctionEntry.lineCount_eq (f : FunctionEntry) :
    f.lineCount = Item.lineCountOf f.items := by
  cases f with
  | mk name descriptor signature lines defaultValues inner =>
    rw [FunctionEntry.lineCount, FunctionEntry.items, Item.lineCountOf_cons,
      Item.lineCountOf_append,
      AnonymousFunction.lineCountOf?_eq, inner.lineCount_eq, Item.lineCount, Nat.add_assoc]

/-- The line slots of a function without a name are those of what it shows. -/
theorem AnonymousFunction.lineCount_eq (f : AnonymousFunction) :
    f.lineCount = Item.lineCountOf f.items := by
  cases f with
  | mk signature lines inner =>
    rw [AnonymousFunction.lineCount, AnonymousFunction.items, Item.lineCountOf_cons,
      inner.lineCount_eq, Item.lineCount]

/-- The line slots of a body are those of what it shows. -/
theorem BodyEntries.lineCount_eq (b : BodyEntries) :
    b.lineCount = Item.lineCountOf b.items := by
  cases b with
  | mk functions classes lambdaClasses anonymousFunctions anonymousClasses =>
    simp only [BodyEntries.lineCount, BodyEntries.items, Item.lineCountOf_append,
      FunctionEntry.lineCountOf_eq,
      LocalClassEntry.lineCountOf_eq, AnonymousClass.lineCountOf_eq,
      AnonymousFunction.lineCountOf_eq]

/-- The line slots of a local class are those of what it shows. -/
theorem LocalClassEntry.lineCount_eq (c : LocalClassEntry) :
    c.lineCount = Item.lineCountOf c.items := by
  cases c with
  | mk name jvmName members =>
    rw [LocalClassEntry.lineCount, LocalClassEntry.items, Item.lineCountOf_cons,
      members.lineCount_eq, Item.lineCount,
      Nat.zero_add]

/-- The line slots of a class without a name are those of what it shows. -/
theorem AnonymousClass.lineCount_eq (c : AnonymousClass) :
    c.lineCount = Item.lineCountOf c.items := by
  cases c with
  | mk jvmName members =>
    rw [AnonymousClass.lineCount, AnonymousClass.items, Item.lineCountOf_cons, members.lineCount_eq,
      Item.lineCount,
      Nat.zero_add]

/-- The line slots of the members of a class are those of what they show. -/
theorem MemberEntries.lineCount_eq (m : MemberEntries) :
    m.lineCount = Item.lineCountOf m.items := by
  cases m with
  | mk functions constructors properties =>
    simp only [MemberEntries.lineCount, MemberEntries.items, Item.lineCountOf_append,
      FunctionEntry.lineCountOf_eq,
      PropertyEntry.lineCountOf_eq]

/-- The line slots of a property are those of what it shows. -/
theorem PropertyEntry.lineCount_eq (p : PropertyEntry) :
    p.lineCount = Item.lineCountOf p.items := by
  cases p with
  | mk name customGetter customSetter getter setter =>
    rw [PropertyEntry.lineCount, PropertyEntry.items, Item.lineCountOf_append,
      AnonymousFunction.lineCountOf?_eq getter,
      AnonymousFunction.lineCountOf?_eq setter]

/-- The line slots of functions are those of what they show. -/
theorem FunctionEntry.lineCountOf_eq (fs : List FunctionEntry) :
    FunctionEntry.lineCountOf fs = Item.lineCountOf (FunctionEntry.itemsOf fs) := by
  cases fs with
  | nil => rfl
  | cons first rest =>
    rw [FunctionEntry.lineCountOf, FunctionEntry.itemsOf, Item.lineCountOf_append,
      first.lineCount_eq,
      FunctionEntry.lineCountOf_eq rest]

/-- The line slots of functions without names are those of what they show. -/
theorem AnonymousFunction.lineCountOf_eq (fs : List AnonymousFunction) :
    AnonymousFunction.lineCountOf fs = Item.lineCountOf (AnonymousFunction.itemsOf fs) := by
  cases fs with
  | nil => rfl
  | cons first rest =>
    rw [AnonymousFunction.lineCountOf, AnonymousFunction.itemsOf, Item.lineCountOf_append,
      first.lineCount_eq,
      AnonymousFunction.lineCountOf_eq rest]

/-- The line slots of a function that may be missing are those of what it shows. -/
theorem AnonymousFunction.lineCountOf?_eq (f : Option AnonymousFunction) :
    AnonymousFunction.lineCountOf? f = Item.lineCountOf (AnonymousFunction.itemsOf? f) := by
  cases f with
  | none => rfl
  | some f => rw [AnonymousFunction.lineCountOf?, AnonymousFunction.itemsOf?, f.lineCount_eq]

/-- The line slots of local classes are those of what they show. -/
theorem LocalClassEntry.lineCountOf_eq (cs : List LocalClassEntry) :
    LocalClassEntry.lineCountOf cs = Item.lineCountOf (LocalClassEntry.itemsOf cs) := by
  cases cs with
  | nil => rfl
  | cons first rest =>
    rw [LocalClassEntry.lineCountOf, LocalClassEntry.itemsOf, Item.lineCountOf_append,
      first.lineCount_eq,
      LocalClassEntry.lineCountOf_eq rest]

/-- The line slots of classes without names are those of what they show. -/
theorem AnonymousClass.lineCountOf_eq (cs : List AnonymousClass) :
    AnonymousClass.lineCountOf cs = Item.lineCountOf (AnonymousClass.itemsOf cs) := by
  cases cs with
  | nil => rfl
  | cons first rest =>
    rw [AnonymousClass.lineCountOf, AnonymousClass.itemsOf, Item.lineCountOf_append,
      first.lineCount_eq,
      AnonymousClass.lineCountOf_eq rest]

/-- The line slots of properties are those of what they show. -/
theorem PropertyEntry.lineCountOf_eq (ps : List PropertyEntry) :
    PropertyEntry.lineCountOf ps = Item.lineCountOf (PropertyEntry.itemsOf ps) := by
  cases ps with
  | nil => rfl
  | cons first rest =>
    rw [PropertyEntry.lineCountOf, PropertyEntry.itemsOf, Item.lineCountOf_append,
      first.lineCount_eq,
      PropertyEntry.lineCountOf_eq rest]

end

/-- The line slots of a class that may be missing are those of what it shows. -/
theorem AnonymousClass.lineCountOf?_eq (c : Option AnonymousClass) :
    AnonymousClass.lineCountOf? c = Item.lineCountOf (AnonymousClass.itemsOf? c) := by
  cases c with
  | none => rfl
  | some c => rw [AnonymousClass.lineCountOf?, AnonymousClass.itemsOf?, c.lineCount_eq]

mutual

/-- The line slots of a class are those of what it shows, nested classes included. -/
theorem ClassEntry.lineCount_eq (c : ClassEntry) :
    c.lineCount = Item.lineCountOf c.items := by
  cases c with
  | mk name jvmName members classes objects isData companion defaultImpls =>
    simp only [ClassEntry.lineCount, ClassEntry.items, Item.lineCountOf_cons,
      Item.lineCountOf_append,
      Item.lineCount, Nat.zero_add, MemberEntries.lineCount_eq, ClassEntry.lineCountOf_eq,
      ObjectEntry.lineCountOf_eq, ObjectEntry.lineCountOf?_eq, AnonymousClass.lineCountOf?_eq]

/-- The line slots of an object are those of what it shows, nested classes included. -/
theorem ObjectEntry.lineCount_eq (o : ObjectEntry) :
    o.lineCount = Item.lineCountOf o.items := by
  cases o with
  | mk name jvmName members classes objects isData =>
    simp only [ObjectEntry.lineCount, ObjectEntry.items, Item.lineCountOf_cons,
      Item.lineCountOf_append,
      Item.lineCount, Nat.zero_add, MemberEntries.lineCount_eq, ClassEntry.lineCountOf_eq,
      ObjectEntry.lineCountOf_eq]

/-- The line slots of classes are those of what they show. -/
theorem ClassEntry.lineCountOf_eq (cs : List ClassEntry) :
    ClassEntry.lineCountOf cs = Item.lineCountOf (ClassEntry.itemsOf cs) := by
  cases cs with
  | nil => rfl
  | cons first rest =>
    rw [ClassEntry.lineCountOf, ClassEntry.itemsOf, Item.lineCountOf_append, first.lineCount_eq,
      ClassEntry.lineCountOf_eq rest]

/-- The line slots of objects are those of what they show. -/
theorem ObjectEntry.lineCountOf_eq (os : List ObjectEntry) :
    ObjectEntry.lineCountOf os = Item.lineCountOf (ObjectEntry.itemsOf os) := by
  cases os with
  | nil => rfl
  | cons first rest =>
    rw [ObjectEntry.lineCountOf, ObjectEntry.itemsOf, Item.lineCountOf_append, first.lineCount_eq,
      ObjectEntry.lineCountOf_eq rest]

/-- The line slots of an object that may be missing are those of what it shows. -/
theorem ObjectEntry.lineCountOf?_eq (o : Option ObjectEntry) :
    ObjectEntry.lineCountOf? o = Item.lineCountOf (ObjectEntry.itemsOf? o) := by
  cases o with
  | none => rfl
  | some o => rw [ObjectEntry.lineCountOf?, ObjectEntry.itemsOf?, o.lineCount_eq]

end

/-- The line slots of a source file are those of the methods it shows. -/
theorem FileEntry.lineCount_eq (f : FileEntry) : f.lineCount = Item.lineCountOf f.items := by
  simp only [lineCount, items, Item.lineCountOf_append, ClassEntry.lineCountOf_eq,
    FunctionEntry.lineCountOf_eq, PropertyEntry.lineCountOf_eq, ObjectEntry.lineCountOf_eq,
    AnonymousFunction.lineCountOf?_eq]

/-- Functions show what each of them shows, in order. -/
theorem FunctionEntry.itemsOf_eq_flatMap (fs : List FunctionEntry) :
    itemsOf fs = fs.flatMap items := by
  induction fs with
  | nil => rfl
  | cons first rest ih => rw [itemsOf, ih, List.flatMap_cons]

/-- Functions without names show what each of them shows, in order. -/
theorem AnonymousFunction.itemsOf_eq_flatMap (fs : List AnonymousFunction) :
    itemsOf fs = fs.flatMap items := by
  induction fs with
  | nil => rfl
  | cons first rest ih => rw [itemsOf, ih, List.flatMap_cons]

/-- Properties show what each of them shows, in order. -/
theorem PropertyEntry.itemsOf_eq_flatMap (ps : List PropertyEntry) :
    itemsOf ps = ps.flatMap items := by
  induction ps with
  | nil => rfl
  | cons first rest ih => rw [itemsOf, ih, List.flatMap_cons]

/-- Classes show what each of them shows, in order. -/
theorem ClassEntry.itemsOf_eq_flatMap (cs : List ClassEntry) : itemsOf cs = cs.flatMap items := by
  induction cs with
  | nil => rfl
  | cons first rest ih => rw [itemsOf, ih, List.flatMap_cons]

/-- Objects show what each of them shows, in order. -/
theorem ObjectEntry.itemsOf_eq_flatMap (os : List ObjectEntry) : itemsOf os = os.flatMap items := by
  induction os with
  | nil => rfl
  | cons first rest ih => rw [itemsOf, ih, List.flatMap_cons]

/-- A function that is missing shows nothing. -/
theorem AnonymousFunction.itemsOf?_eq_flatMap (f : Option AnonymousFunction) :
    itemsOf? f = f.toList.flatMap items := by
  cases f with
  | none => rfl
  | some f => rw [itemsOf?, Option.toList_some, List.flatMap_singleton]

/-- A class that is missing shows nothing. -/
theorem AnonymousClass.itemsOf?_eq_flatMap (c : Option AnonymousClass) :
    itemsOf? c = c.toList.flatMap items := by
  cases c with
  | none => rfl
  | some c => rw [itemsOf?, Option.toList_some, List.flatMap_singleton]

/-- An object that is missing shows nothing. -/
theorem ObjectEntry.itemsOf?_eq_flatMap (o : Option ObjectEntry) :
    itemsOf? o = o.toList.flatMap items := by
  cases o with
  | none => rfl
  | some o => rw [itemsOf?, Option.toList_some, List.flatMap_singleton]

end LineAtlas.Report
