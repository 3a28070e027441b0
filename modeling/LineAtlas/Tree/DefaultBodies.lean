import LineAtlas.Tree.Members

/-!
# Bodies of interface methods

The bodies of interface methods may stand in a holder class. Each goes by the member of the
interface whose signature it has with the interface in front.
-/

namespace LineAtlas.Draft

/-- Takes the first body of a kind out of a list. -/
def takeBody? (kind : Body → Bool) (bodies : List Body) : Option (Body × List Body) :=
  match bodies.find? kind with
  | some body => some (body, bodies.eraseP kind)
  | none => none

/-- Adds a function that is shown by a given name. -/
def addNamed (name : String) (body : Body) : Drafting FunctionId :=
  addFunction { kind := .declared name none false, body }

/-- Adds the body of an interface function and its helper for default arguments, if the
holder has them; the answer has the function and the bodies that are left. -/
def addFunctionBody (interfaceName : String) (f : FunctionNode) (bodies : List Body) :
    Drafting (Option FunctionId × List Body) := do
  let declared := f.body.signature
  match takeBody? (·.signature == declared.inDefaultImpls interfaceName) bodies with
  | none => return (none, bodies)
  | some (body, bodies) =>
    let id ← addNamed f.name body
    match takeBody? (DefaultHelper.isOfFunction ·.signature declared none) bodies with
    | none => return (some id, bodies)
    | some (helper, bodies) =>
      let helper ← addAnonymous helper
      modifyFunction id fun node => { node with defaultValues := some helper }
      return (some id, bodies)

/-- Adds the bodies of interface functions; the answer has them with their names, and the
bodies that are left. -/
def addFunctionBodies (interfaceName : String) :
    List FunctionNode → List Body → Drafting (LocalKeys × List Body)
  | [], bodies => return ([], bodies)
  | f :: rest, bodies => do
    let (id, bodies) ← addFunctionBody interfaceName f bodies
    let (others, bodies) ← addFunctionBodies interfaceName rest bodies
    return (id.toList.map (fun id => (f.name, id)) ++ others, bodies)

/-- Adds the body of an accessor of an interface, if the holder has it. -/
def addAccessorBody (interfaceName : String) (accessor : Option FunctionId)
    (bodies : List Body) : Drafting (Option FunctionId × List Body) := do
  match accessor.bind (← get).tree.function? with
  | none => return (none, bodies)
  | some f =>
    match takeBody? (·.signature == f.body.signature.inDefaultImpls interfaceName) bodies with
    | none => return (none, bodies)
    | some (body, bodies) => return (some (← addAnonymous body), bodies)

/-- Adds the bodies of the accessors of interface properties; the answer has the properties
with a body, and the bodies that are left. -/
def addPropertyBodies (interfaceName : String) :
    List PropertyNode → List Body → Drafting (List PropertyNode × List Body)
  | [], bodies => return ([], bodies)
  | p :: rest, bodies => do
    let (getter, bodies) ← addAccessorBody interfaceName p.getter bodies
    let (setter, bodies) ← addAccessorBody interfaceName p.setter bodies
    let (others, bodies) ← addPropertyBodies interfaceName rest bodies
    let found := if getter.isSome || setter.isSome then [{ p with getter, setter }] else []
    return (found ++ others, bodies)

/-- Adds the class of a holder whose interface is in the draft. -/
def addHolder (file : String) (u : DefaultImplsUnit) (interface : ClassNode) :
    Drafting ClassId := do
  let members := interface.functions.filterMap (← get).tree.function?
  let (keyed, bodies) ← addFunctionBodies u.interfaceName members u.methods
  let (properties, bodies) ← addPropertyBodies u.interfaceName interface.properties bodies
  let keys := keyed ++ properties.flatMap propertyKeys
  let (locals, others) := bodies.partition fun body =>
    (keys.longestKey? body.signature.name).isSome
  let others ← others.mapM fun body => addNamed body.signature.name body
  addPlaced
    { jvmName := u.jvmName, shape := .defaultImpls
      functions := keyed.map Prod.snd ++ others, properties }
    ⟨file, []⟩ keys locals

/-- The position of the class with a name of its own that has an internal name. -/
def namedWith? (d : Draft) (jvmName : String) : Option ClassId :=
  d.named.find? fun id => (d.tree.class? id).any (·.jvmName == jvmName)

/-- Puts a holder of bodies into the slot of its interface. -/
def placeHolder (file : String) (u : DefaultImplsUnit) : Drafting Unit := do
  let d ← get
  let interface := d.namedWith? u.interfaceName
  match interface, interface.bind d.tree.class? with
  | some interfaceId, some node =>
    let id ← addHolder file u node
    modifyNamed interfaceId fun shape => { shape with defaultImpls := some id }
  | _, _ => report file u.jvmName (.interfaceNotFound u.interfaceName)

/-- Puts all holders of bodies into the slots of their interfaces. -/
def placeHolders : Drafting Unit := do
  (← get).holders.forM fun (file, u) => placeHolder file u

end LineAtlas.Draft
