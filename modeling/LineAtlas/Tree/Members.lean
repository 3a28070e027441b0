import LineAtlas.Tree.LocalFunctions

/-!
# Adding classes

A resolved unit becomes a class with functions, constructors and properties, whose local
functions are placed at once. Each internal name is accepted once.
-/

namespace LineAtlas.Draft

/-- Adds an anonymous function. -/
def addAnonymous (body : Body) : Drafting FunctionId :=
  addFunction { kind := .anonymous, body }

/-- Adds a function if there is one. -/
def addAnonymous? : Option Body → Drafting (Option FunctionId)
  | some body => some <$> addAnonymous body
  | none => return none

/-- Adds a bound function, its helper first. -/
def addBound (f : BoundFunction) : Drafting FunctionId := do
  let defaultValues ← addAnonymous? f.defaultValues
  addFunction
    { kind := .declared f.name f.descriptor f.isConstructor, body := f.body, defaultValues }

/-- Adds the accessors of a property. -/
def addProperty (p : BoundProperty) : Drafting PropertyNode := do
  let getter ← addAnonymous? p.getter
  let setter ← addAnonymous? p.setter
  return ⟨p.name, p.isVar, p.customGetter, p.customSetter, getter, setter⟩

/-- The keys of functions and constructors. -/
def functionKeys (functions : List BoundFunction) (ids : List FunctionId) : LocalKeys :=
  (functions.zip ids).flatMap fun (f, id) => f.localKeys.map fun key => (key, id)

/-- The keys of the accessors of a property. -/
def propertyKeys (p : PropertyNode) : LocalKeys :=
  (p.getter.toList.map fun id => (LocalName.getterKey p.name, id))
    ++ p.setter.toList.map fun id => (LocalName.setterKey p.name, id)

/-- Adds a class after placing its local functions; one that cannot be placed fails it. -/
def addPlaced (node : ClassNode) (source : ClassSource) (keys : LocalKeys)
    (locals : List Body) : Drafting ClassId := do
  let unplaced ← placeLocals keys locals
  let id ← addClass node source
  match unplaced with
  | some signature => fail id (.noOuterFunction signature)
  | none => pure ()
  return id

/-- The shape of a class with the initializer of a file's top level added. -/
def addInitializer (init : Option Body) : ClassShape → Drafting ClassShape
  | .facade _ => .facade <$> addAnonymous? init
  | shape => return shape

/-- Adds a class with its members. -/
def addClassWith (file jvmName : String) (shape : ClassShape) (m : Members) :
    Drafting ClassId := do
  let functions ← m.functions.mapM addBound
  let constructors ← m.constructors.mapM addBound
  let properties ← m.properties.mapM addProperty
  let shape ← addInitializer m.init shape
  let keys := functionKeys m.functions functions ++ functionKeys m.constructors constructors
    ++ properties.flatMap propertyKeys
  addPlaced { jvmName, shape, functions, constructors, properties }
    ⟨file, m.forwarders.map (·.signature)⟩ keys m.locals

/-- Adds what a unit contributes. -/
def addUnit (file : String) : ResolvedUnit → Drafting Unit
  | .classUnit u => do
    let id ← addClassWith file u.jvmName
      (.named ⟨u.declaredName, u.isObject, u.isData, u.companion, [], none, none⟩) u.members
    modify fun d => { d with named := d.named ++ [id] }
  | .localClass u => do
    let id ← addClassWith file u.jvmName (.localClass u.kind u.origin) u.members
    modify fun d => { d with localClasses := d.localClasses ++ [id] }
  | .facade u => do
    let id ← addClassWith file u.jvmName (.facade none) u.members
    modify fun d => { d with tree := { d.tree with facades := d.tree.facades ++ [id] } }
  | .defaultImpls u => modify fun d => { d with holders := d.holders ++ [(file, u)] }
  | .opaqueUnit | .foreign => return

/-- Adds a unit, unless a unit of the same internal name was added before. -/
def add (file : String) (unit : ResolvedUnit) : Drafting Unit := do
  let d ← get
  match unit.jvmName? with
  | none => addUnit file unit
  | some name =>
    if d.names.contains name then report file name (.duplicate d.tree.path)
    else
      set { d with names := d.names ++ [name] }
      addUnit file unit

end LineAtlas.Draft
