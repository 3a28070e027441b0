import LineAtlas.Tree.DefaultBodies

/-!
# Placing classes

Local classes go into the function that declares them, nested classes into the class around
them, and companion objects into a slot of their own.
-/

namespace LineAtlas.Draft

/-- The place that a local class names, when the class is one. -/
def originOf? (d : Draft) (id : ClassId) : Option Origin :=
  match d.tree.class? id with
  | some node =>
    match node.shape with
    | .localClass _ origin => some origin
    | _ => none
  | none => none

/-- The local classes that name a class as the one around them. -/
def localClassesIn (d : Draft) (owner : String) : List ClassId :=
  d.localClasses.filter fun id => (d.originOf? id).any (·.outerClass == owner)

/-- The function of a class, at any depth, that has a signature. -/
def functionIn? (t : SourceTree) (owner : ClassNode) (signature : Signature) :
    Option FunctionId :=
  (owner.memberFunctions.flatMap t.functionTree).find? fun id =>
    (t.function? id).any (·.body.signature == signature)

/-- Puts a local class into the function of a class that it names. -/
def attachLocalClass (owner : ClassNode) (id : ClassId) : Drafting Unit := do
  let d ← get
  match (d.originOf? id).bind (·.outerMethod) with
  | some signature =>
    match functionIn? d.tree owner signature with
    | some f => modifyFunction f fun node => { node with classes := node.classes ++ [id] }
    | none => fail id (.outerMethodNotFound signature owner.jvmName)
  | none =>
    match owner.initializer? with
    | some f => modifyFunction f fun node => { node with classes := node.classes ++ [id] }
    | none => fail id (.noInitializer owner.jvmName)

/-- The names of missing outer classes, each once and in ascending order. -/
def missingOuterClasses (d : Draft) : List String :=
  let owners := d.tree.classes.map ClassNode.jvmName
  let wanted := d.localClasses.filterMap fun id => (d.originOf? id).map (·.outerClass)
  ((wanted.filter (!owners.contains ·)).eraseDups).mergeSort (· ≤ ·)

/-- Puts all local classes into their functions. -/
def placeLocalClasses : Drafting Unit := do
  let d ← get
  d.tree.classes.forM fun owner =>
    (d.localClassesIn owner.jvmName).forM (attachLocalClass owner)
  d.missingOuterClasses.forM fun name =>
    (d.localClassesIn name).forM fun id => fail id (.outerClassNotFound name)

/-- The declared name of a class. -/
def declaredName? (d : Draft) (id : ClassId) : Option ClassName :=
  (d.tree.class? id).bind ClassNode.declaredName?

/-- The position of the class with a declared name, the last of several. -/
def withDeclaredName? (d : Draft) (name : ClassName) : Option ClassId :=
  d.named.reverse.find? fun id => d.declaredName? id == some name

/-- Puts a class into the class around it, or at the top level. -/
def placeNestedClass (id : ClassId) : Drafting Unit := do
  let d ← get
  match d.declaredName? id with
  | none => return
  | some name =>
    match name.parent? with
    | none => set { d with tree := { d.tree with topLevel := d.tree.topLevel ++ [id] } }
    | some parent =>
      match d.withDeclaredName? parent with
      | some parent =>
        modifyNamed parent fun shape => { shape with nested := shape.nested ++ [id] }
      | none => fail id (.parentNotFound parent)

/-- Puts all classes with names of their own into the classes around them, the outer ones
first. -/
def placeNestedClasses : Drafting Unit := do
  let d ← get
  let depth (id : ClassId) : Nat := ((d.declaredName? id).map ClassName.depth).getD 0
  (d.named.mergeSort fun a b => depth a ≤ depth b).forM placeNestedClass

/-- The static methods of a class that are no forwarders to its companion object. -/
def strayForwarders (d : Draft) (id : ClassId) (companion : ClassNode) : List Signature :=
  let members := (companion.memberFunctions.filterMap d.tree.function?).map (·.body.signature)
  ((d.sources[id]?.map (·.forwarders)).getD []).filter (!members.contains ·)

/-- Under the strict policy, fails a class whose static methods do not all forward to its
companion object. -/
def checkForwarders (policy : AccountingPolicy) (id companion : ClassId) : Drafting Unit := do
  let d ← get
  match policy, (d.tree.class? companion).map (d.strayForwarders id) with
  | .strict, some (first :: others) => fail id (.strayForwarders (first :: others))
  | _, _ => return

/-- Moves the companion object of a class from its nested classes into the slot for it. -/
def placeCompanion (policy : AccountingPolicy) (id : ClassId) : Drafting Unit := do
  let d ← get
  match (d.tree.class? id).map ClassNode.shape with
  | some (.named shape) =>
    match shape.companionName with
    | none => return
    | some name =>
      let expected := shape.declaredName.nested name
      match shape.nested.find? fun child => d.declaredName? child == some expected with
      | some companion =>
        modifyNamed id fun shape =>
          { shape with nested := shape.nested.erase companion, companion := some companion }
        checkForwarders policy id companion
      | none => fail id (.companionNotFound expected)
  | _ => return

/-- Moves all companion objects into their slots. -/
def placeCompanions (policy : AccountingPolicy) : Drafting Unit := do
  (← get).named.forM (placeCompanion policy)

/-- Places everything that was added. -/
def placeAll (policy : AccountingPolicy) : Drafting Unit := do
  placeHolders
  placeLocalClasses
  placeNestedClasses
  placeCompanions policy

end LineAtlas.Draft

namespace LineAtlas

/-- A tree and what could not be placed in it. -/
structure Composition where
  /-- The tree. -/
  tree : SourceTree
  /-- What went wrong. -/
  failures : List ClassFailure
  deriving DecidableEq

/-- The tree of a source file from the units of its class files. -/
def SourceTree.compose (path : String) (policy : AccountingPolicy)
    (units : List (String × ResolvedUnit)) : Composition :=
  let build : Drafting Unit := do
    units.forM fun (file, unit) => Draft.add file unit
    Draft.placeAll policy
  let d := (build.run (Draft.empty path)).2
  ⟨d.tree, d.failures⟩

end LineAtlas
