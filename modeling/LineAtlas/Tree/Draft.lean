import LineAtlas.Failure
import LineAtlas.Tree.SourceTree

/-!
# Drafts of trees

A tree on its way: besides its nodes, where each class came from and which classes wait for
their place. Failing a class leaves it in the tree but out of the report.
-/

namespace LineAtlas

/-- Why a class cannot be placed. -/
inductive PlacementFault where
  /-- A class of this name was already added to the source file. -/
  | duplicate (path : String)
  /-- A local function is below no function. -/
  | noOuterFunction (signature : Signature)
  /-- The interface of a holder of bodies is missing. -/
  | interfaceNotFound (name : String)
  /-- The class around a local class is missing. -/
  | outerClassNotFound (name : String)
  /-- The class around a local class has no initializer. -/
  | noInitializer (owner : String)
  /-- The function around a local class is missing. -/
  | outerMethodNotFound (signature : Signature) (owner : String)
  /-- The class around a nested class is missing. -/
  | parentNotFound (name : ClassName)
  /-- The companion object is missing. -/
  | companionNotFound (name : ClassName)
  /-- Static methods forward to no member of the companion object. -/
  | strayForwarders (signatures : List Signature)
  deriving DecidableEq, Repr

/-- The wording of a fault. -/
def PlacementFault.message : PlacementFault → String
  | .duplicate path => "duplicate class in " ++ path
  | .noOuterFunction signature => "no outer function for local " ++ signature.display
  | .interfaceNotFound name => "interface " ++ name ++ " not found"
  | .outerClassNotFound name => "outer class " ++ name ++ " not found"
  | .noInitializer owner => "no initializer in " ++ owner
  | .outerMethodNotFound signature owner =>
    "outer method " ++ signature.display ++ " not found in " ++ owner
  | .parentNotFound name => "parent class " ++ name.display ++ " not found"
  | .companionNotFound name => "companion " ++ name.display ++ " not found"
  | .strayForwarders signatures =>
    "static methods " ++ ", ".intercalate (signatures.map Signature.display)
      ++ " match no companion member"

/-- Where a class of a draft came from. -/
structure ClassSource where
  /-- Path of the class file. -/
  file : String
  /-- Static methods that should forward to members of the companion object. -/
  forwarders : List Signature := []
  deriving DecidableEq

/-- A tree on its way. -/
structure Draft where
  /-- The nodes so far. -/
  tree : SourceTree
  /-- Where each class came from. -/
  sources : List ClassSource := []
  /-- Internal names of everything that was added. -/
  names : List String := []
  /-- Classes with names of their own, in the order of addition. -/
  named : List ClassId := []
  /-- Local classes, in the order of addition. -/
  localClasses : List ClassId := []
  /-- Holders of interface bodies with their class files, in the order of addition. -/
  holders : List (String × DefaultImplsUnit) := []
  /-- What went wrong, in order. -/
  failures : List ClassFailure := []
  deriving DecidableEq

/-- A step that changes a draft. -/
abbrev Drafting := StateM Draft

namespace Draft

/-- A draft without nodes. -/
def empty (path : String) : Draft := { tree := { path } }

/-- Adds a function. -/
def addFunction (node : FunctionNode) : Drafting FunctionId := fun d =>
  (d.tree.functions.length,
    { d with tree := { d.tree with functions := d.tree.functions ++ [node] } })

/-- Adds a class. -/
def addClass (node : ClassNode) (source : ClassSource) : Drafting ClassId := fun d =>
  (d.tree.classes.length,
    { d with
      tree := { d.tree with classes := d.tree.classes ++ [node] }
      sources := d.sources ++ [source] })

/-- Changes a function. -/
def modifyFunction (id : FunctionId) (change : FunctionNode → FunctionNode) :
    Drafting Unit :=
  modify fun d =>
    { d with tree := { d.tree with functions := d.tree.functions.modify id change } }

/-- Changes a class. -/
def modifyClass (id : ClassId) (change : ClassNode → ClassNode) : Drafting Unit :=
  modify fun d => { d with tree := { d.tree with classes := d.tree.classes.modify id change } }

/-- Changes what a class with a name of its own has besides members. -/
def modifyNamed (id : ClassId) (change : NamedShape → NamedShape) : Drafting Unit :=
  modifyClass id fun node =>
    match node.shape with
    | .named shape => { node with shape := .named (change shape) }
    | _ => node

/-- Notes that a class of a file cannot be placed. -/
def report (file className : String) (fault : PlacementFault) : Drafting Unit :=
  modify fun d =>
    { d with failures := d.failures ++
        [⟨file, some className, .composition className fault.message⟩] }

/-- Leaves a class out of the report. -/
def fail (id : ClassId) (fault : PlacementFault) : Drafting Unit := do
  modifyClass id fun node => { node with failed := true }
  let d ← get
  match d.tree.class? id with
  | none => return
  | some node =>
    let file := (d.sources[id]?.map (·.file)).getD ""
    report file node.jvmName fault

end Draft

end LineAtlas
