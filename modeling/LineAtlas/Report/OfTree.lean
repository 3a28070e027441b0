import LineAtlas.Report.Entry
import LineAtlas.Tree.SourceTree

/-!
# Reports from trees

The entry of a source file follows its tree. Classes that failed are left out with all that
is below them; every other node keeps its place and order.
-/

namespace LineAtlas.SourceTree

open Report

/-- The classes at some positions that did not fail. -/
def live (t : SourceTree) (ids : List ClassId) : List ClassNode :=
  (ids.filterMap t.class?).filter (!·.failed)

/-- How the contents of a function body are found. -/
abbrev Contents := FunctionNode → BodyEntries

/-- The entry of a function without a name. -/
def anonymousFunction? (t : SourceTree) (contents : Contents) (id : FunctionId) :
    Option AnonymousFunction :=
  (t.function? id).map fun node =>
    ⟨node.body.signature.display, node.body.lines.slots, contents node⟩

/-- Receivers and parameters of a function, when it is declared. -/
def descriptorOf (node : FunctionNode) : Option String :=
  match node.kind with
  | .declared _ descriptor _ => descriptor
  | _ => none

/-- The entry of a function with a name. -/
def functionEntry? (t : SourceTree) (contents : Contents) (id : FunctionId) :
    Option FunctionEntry :=
  (t.function? id).map fun node =>
    { name := node.name
      descriptor := descriptorOf node
      signature := node.body.signature.display
      lines := node.body.lines.slots
      defaultValues := node.defaultValues.bind (t.anonymousFunction? contents)
      inner := contents node }

/-- The entries of functions with names. -/
def functionEntries (t : SourceTree) (contents : Contents) (ids : List FunctionId) :
    List FunctionEntry :=
  ids.filterMap (t.functionEntry? contents)

/-- The entry of a property. -/
def propertyEntry (t : SourceTree) (contents : Contents) (p : PropertyNode) : PropertyEntry :=
  { name := p.name
    customGetter := p.customGetter
    customSetter := p.customSetter
    getter := p.getter.bind (t.anonymousFunction? contents)
    setter := p.setter.bind (t.anonymousFunction? contents) }

/-- The entries of the members of a class. -/
def memberEntries (t : SourceTree) (contents : Contents) (c : ClassNode) : MemberEntries :=
  { functions := t.functionEntries contents c.functions
    constructors := t.functionEntries contents c.constructors
    properties := c.properties.map (t.propertyEntry contents) }

/-- The entry of a class without a name. -/
def anonymousClass (t : SourceTree) (contents : Contents) (c : ClassNode) : AnonymousClass :=
  ⟨c.jvmName, t.memberEntries contents c⟩

/-- The name of a local class, when it has one. -/
def localName? (c : ClassNode) : Option String :=
  match c.shape with
  | .localClass (.named name) _ => some name
  | _ => none

/-- Whether a class is a lambda. -/
def isLambdaClass (c : ClassNode) : Bool :=
  match c.shape with
  | .localClass .lambda _ => true
  | _ => false

/-- Whether a function has no name. -/
def isAnonymous (t : SourceTree) (id : FunctionId) : Bool :=
  (t.function? id).any (·.kind == .anonymous)

/-- What is declared in a function body, given how the bodies inside are treated. -/
def bodyEntries (t : SourceTree) (contents : Contents) (node : FunctionNode) : BodyEntries :=
  let classes := t.live node.classes
  let (lambdas, others) :=
    (classes.filter fun c => (localName? c).isNone).partition isLambdaClass
  { functions := t.functionEntries contents (node.locals.filter (!t.isAnonymous ·))
    classes := classes.filterMap fun c =>
      (localName? c).map fun name => ⟨name, c.jvmName, t.memberEntries contents c⟩
    lambdaClasses := lambdas.map (t.anonymousClass contents)
    anonymousFunctions :=
      (node.locals.filter t.isAnonymous).filterMap (t.anonymousFunction? contents)
    anonymousClasses := others.map (t.anonymousClass contents) }

/-- What is declared in a function body, down to a given number of functions inside each
other. -/
def contentsWithin (t : SourceTree) : Nat → Contents
  | 0, _ => .empty
  | depth + 1, node => t.bodyEntries (t.contentsWithin depth) node

/-- What is declared in a function body. No branch has more functions than the tree. -/
def contents (t : SourceTree) : Contents := t.contentsWithin t.functions.length

/-- Entries of classes, by whether they are objects. -/
structure NestedEntries where
  /-- Classes that are no objects. -/
  classes : List ClassEntry
  /-- Objects. -/
  objects : List ObjectEntry

/-- How the classes nested in a class are found. -/
abbrev Nesting := List ClassId → NestedEntries

/-- The entry of an object. -/
def objectEntry (t : SourceTree) (nesting : Nesting) (c : ClassNode) : ObjectEntry :=
  let members := t.memberEntries t.contents c
  match c.shape with
  | .named shape =>
    let inner := nesting shape.nested
    { name := shape.declaredName.last, jvmName := c.jvmName, members
      classes := inner.classes, objects := inner.objects, isData := shape.isData }
  | _ => ⟨c.jvmName, c.jvmName, members, [], [], false⟩

/-- The entry of a class. One without a declared name goes by its internal name and shows no
members. -/
def classEntry (t : SourceTree) (nesting : Nesting) (c : ClassNode) : ClassEntry :=
  match c.shape with
  | .named shape =>
    let inner := nesting shape.nested
    { name := shape.declaredName.display
      jvmName := c.jvmName
      members := t.memberEntries t.contents c
      classes := inner.classes
      objects := inner.objects
      isData := shape.isData
      companion := (t.live shape.companion.toList).head?.map (t.objectEntry nesting)
      defaultImpls := (t.live shape.defaultImpls.toList).head?.map (t.anonymousClass t.contents) }
  | _ => ⟨c.jvmName, c.jvmName, .empty, [], [], false, none, none⟩

/-- The entries of classes, down to a given number of classes inside each other. -/
def nestedWithin (t : SourceTree) : Nat → Nesting
  | 0, _ => ⟨[], []⟩
  | depth + 1, ids =>
    let (objects, classes) := (t.live ids).partition ClassNode.isObject
    { classes := classes.map (t.classEntry (t.nestedWithin depth))
      objects := objects.map (t.objectEntry (t.nestedWithin depth)) }

/-- The entries of classes. No branch has more classes than the tree. -/
def nested (t : SourceTree) : Nesting := t.nestedWithin t.classes.length

/-- The initializer of a file's top level. -/
def initializerEntry? (t : SourceTree) (facade : ClassNode) : Option AnonymousFunction :=
  match facade.shape with
  | .facade (some init) => t.anonymousFunction? t.contents init
  | _ => none

/-- One initializer for a file: the first, with the others among its anonymous functions. -/
def joinInitializers : List AnonymousFunction → Option AnonymousFunction
  | [] => none
  | first :: others =>
    some { first with inner := { first.inner with
      anonymousFunctions := first.inner.anonymousFunctions ++ others } }

/-- The entry of a source file. -/
def fileEntry (t : SourceTree) : FileEntry :=
  let facades := t.live t.facades
  let members := facades.map (t.memberEntries t.contents)
  let top := t.nested t.topLevel
  { path := t.path
    classes := top.classes
    functions := members.flatMap (·.functions)
    properties := members.flatMap (·.properties)
    objects := top.objects
    init := joinInitializers (facades.filterMap t.initializerEntry?) }

end LineAtlas.SourceTree
