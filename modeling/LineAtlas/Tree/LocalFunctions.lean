import LineAtlas.Name.DefaultHelper
import LineAtlas.Tree.Draft
import LineAtlas.Tree.LocalKeys

/-!
# Placing local functions

Every local function goes below the function whose key its name continues. Shorter names
come first, so that a function is in place before the functions inside it.
-/

namespace LineAtlas.Draft

/-- Local functions in the order of the lengths of their names. -/
def byNameLength (locals : List Body) : List Body :=
  locals.mergeSort fun a b =>
    a.signature.name.utf8ByteSize ≤ b.signature.name.utf8ByteSize

/-- How a local function is shown below the function with a key. -/
def localKind (name key : String) : FunctionKind :=
  if LocalName.isLambda name then .anonymous
  else .localFunction ((Text.dropHead? (key ++ "$") name).getD name)

/-- The function around a local one, and its key. -/
def outer? (d : Draft) (keys : LocalKeys) (body : Body) : Option (String × FunctionId) := do
  let key ← keys.outerKey? body.signature.name
  let candidates := (keys.candidates key).filterMap fun id =>
    (d.tree.function? id).map fun node => (id, node.body.lines)
  let id ← LocalKeys.enclosing? candidates body.lines
  return (key, id)

/-- Places local functions in the given order. The first one that is below no function ends
the placement. -/
def placeEach (keys : LocalKeys) : List Body → Drafting (Except Signature (List FunctionId))
  | [] => return .ok []
  | body :: rest => do
    match (← get).outer? keys body with
    | none => return .error body.signature
    | some (key, outer) =>
      let name := body.signature.name
      let id ← addFunction { kind := localKind name key, body }
      modifyFunction outer fun node => { node with locals := node.locals ++ [id] }
      match ← placeEach (keys ++ [(name, id)]) rest with
      | .ok placed => return .ok (id :: placed)
      | .error signature => return .error signature

/-- The helpers for the default arguments of a local function among those below it. -/
def localHelpers (t : SourceTree) (node : FunctionNode) : List FunctionId :=
  node.locals.filter fun id =>
    (t.function? id).any fun helper =>
      DefaultHelper.isOfFunction helper.body.signature node.body.signature none

/-- Turns the only helper below a local function into its helper for default arguments. -/
def attachDefaultValues (id : FunctionId) : Drafting Unit := do
  let t := (← get).tree
  match t.function? id with
  | some node =>
    match node.kind, localHelpers t node with
    | .localFunction _, [helper] =>
      modifyFunction id fun node =>
        { node with locals := node.locals.erase helper, defaultValues := some helper }
      modifyFunction helper fun node => { node with kind := .anonymous }
    | _, _ => return
  | none => return

/-- Places the local functions of a class; the answer is the one that is below no function. -/
def placeLocals (keys : LocalKeys) (locals : List Body) : Drafting (Option Signature) := do
  match ← placeEach keys (byNameLength locals) with
  | .error signature => return some signature
  | .ok placed =>
    placed.forM attachDefaultValues
    return none

end LineAtlas.Draft
