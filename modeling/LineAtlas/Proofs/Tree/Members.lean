import LineAtlas.Proofs.Resolution.Accounting
import LineAtlas.Proofs.Tree.LocalFunctions
import LineAtlas.Proofs.Tree.Places
import LineAtlas.Tree.Members

/-!
# Classes with their blocks

Adding a class adds the block of its functions, whose roots are its members, and then the class.
Unless the class fails, its block stands for all methods that it was given.
-/

namespace LineAtlas

/-- The keys of the accessors of a property. -/
def BoundProperty.localKeys (p : BoundProperty) : List String :=
  (p.getter.toList.map fun _ => LocalName.getterKey p.name)
    ++ p.setter.toList.map fun _ => LocalName.setterKey p.name

namespace Members

/-- The keys under which the local functions of members are looked for. -/
def localKeys (m : Members) : List String :=
  m.functions.flatMap BoundFunction.localKeys ++ m.constructors.flatMap BoundFunction.localKeys
    ++ m.properties.flatMap BoundProperty.localKeys

/-- The name of every local function continues the key of a member. -/
def LocalsFit (m : Members) : Prop :=
  ∀ body ∈ m.locals, LocalKeys.Fits m.localKeys body.signature.name

end Members

namespace Draft

/-- A draft follows from another one by adding a block with certain roots, some of which have no
name, that stands for certain methods. -/
def Grown (d d' : Draft) (roots unnamed : List FunctionId) (bodies : List Body) : Prop :=
  ∃ block, d' = d.grow block ∧ Rooted d.tree.functions.length roots block bodies
    ∧ ∀ f ∈ unnamed, Unnamed d.tree.functions.length block f

/-- Doing nothing adds an empty block. -/
theorem Grown.refl (d : Draft) : Grown d d [] [] [] :=
  ⟨[], (grow_nil d).symm, Rooted.nil _, by simp⟩

/-- Blocks that are added one after the other are added as one. -/
theorem Grown.trans {d d' d'' : Draft} {roots roots' unnamed unnamed' : List FunctionId}
    {bodies bodies' : List Body} (h : Grown d d' roots unnamed bodies)
    (h' : Grown d' d'' roots' unnamed' bodies') :
    Grown d d'' (roots ++ roots') (unnamed ++ unnamed') (bodies ++ bodies') := by
  obtain ⟨block, rfl, hrooted, hunnamed⟩ := h
  obtain ⟨block', rfl, hrooted', hunnamed'⟩ := h'
  rw [grow_length] at hrooted' hunnamed'
  refine ⟨block ++ block', grow_grow d block block', hrooted.append hrooted', fun f hf => ?_⟩
  rcases List.mem_append.mp hf with hf | hf
  · exact (hunnamed f hf).append_right block'
  · exact (hunnamed' f hf).append_left

/-- Adding a function adds a block that consists of it. -/
theorem addFunction_grown (d : Draft) (kind : FunctionKind) (body : Body) :
    Grown d (addFunction { kind, body } d).2 [(addFunction { kind, body } d).1] [] [body] :=
  ⟨[{ kind, body }], rfl, Rooted.single _ kind body, by simp⟩

/-- Adding a function without a name adds a root without a name. -/
theorem addAnonymous_grown (d : Draft) (body : Body) :
    Grown d (addAnonymous body d).2 [(addAnonymous body d).1] [(addAnonymous body d).1] [body] := by
  refine ⟨[{ kind := .anonymous, body }], rfl, Rooted.single _ _ body, fun f hf => ?_⟩
  exact ⟨0, _, List.mem_singleton.mp hf, rfl, rfl⟩

/-- Adding a function without a name, if there is one, adds at most one root. -/
theorem addAnonymous?_grown (d : Draft) (body : Option Body) :
    Grown d (addAnonymous? body d).2 (addAnonymous? body d).1.toList
      (addAnonymous? body d).1.toList body.toList := by
  cases body with
  | none => exact Grown.refl d
  | some body => exact addAnonymous_grown d body

/-- Adding a function adds a root with the helper below it. -/
theorem addBound_grown (f : BoundFunction) (d : Draft) :
    Grown d (addBound f d).2 [(addBound f d).1] [] f.bodies := by
  obtain ⟨name, descriptor, isConstructor, body, defaultValues⟩ := f
  cases defaultValues with
  | none => exact addFunction_grown d _ body
  | some helper =>
    refine ⟨_, grow_grow d [{ kind := .anonymous, body := helper }] _, ?_, by simp⟩
    have hid : (addBound ⟨name, descriptor, isConstructor, body, some helper⟩ d).1
        = d.tree.functions.length + 1 := by
      change (d.tree.functions ++ [_]).length = _
      rw [List.length_append, List.length_singleton]
    rw [hid]
    exact Rooted.afterHelper _ _ body helper (by simp)

/-- Adding a property adds its accessors as roots without names. -/
theorem addProperty_grown (p : BoundProperty) (d : Draft) :
    Grown d (addProperty p d).2 (addProperty p d).1.accessors (addProperty p d).1.accessors
      p.bodies :=
  (addAnonymous?_grown d p.getter).trans (addAnonymous?_grown _ p.setter)

/-- A step that is made for every item. -/
theorem mapM_grown {α β : Type} {step : α → Drafting β} (roots unnamed : β → List FunctionId)
    {bodies : α → List Body}
    (hstep : ∀ a d, Grown d (step a d).2 (roots (step a d).1) (unnamed (step a d).1) (bodies a))
    (items : List α) (d : Draft) :
    Grown d (items.mapM step d).2 ((items.mapM step d).1.flatMap roots)
      ((items.mapM step d).1.flatMap unnamed) (items.flatMap bodies) := by
  induction items generalizing d with
  | nil => exact Grown.refl d
  | cons a rest ih =>
    rw [List.mapM_cons]
    exact (hstep a d).trans (ih (step a d).2)

/-- A step that is done for each item gives as many results. -/
theorem mapM_length {α β : Type} (step : α → Drafting β) (items : List α) (d : Draft) :
    (items.mapM step d).1.length = items.length := by
  induction items generalizing d with
  | nil => rfl
  | cons a rest ih =>
    rw [List.mapM_cons]
    exact congrArg (· + 1) (ih (step a d).2)

/-- The initializer that a class takes, depending on what it stands for. -/
def initOf (init : Option Body) : ClassShape → List Body
  | .facade _ => init.toList
  | _ => []

/-- Adding an initializer adds a root without a name, in the shape of a facade only. -/
theorem addInitializer_grown (d : Draft) (init : Option Body) (shape : ClassShape) :
    Grown d (addInitializer init shape d).2 (addInitializer init shape d).1.initializers
      (addInitializer init shape d).1.initializers (initOf init shape) := by
  cases shape with
  | facade old =>
    have hgrown := addAnonymous?_grown d init
    cases init with
    | none => exact hgrown
    | some body => exact hgrown
  | named shape => exact Grown.refl d
  | localClass kind origin => exact Grown.refl d
  | defaultImpls => exact Grown.refl d

/-- An initializer changes only the shape of a facade. -/
theorem addInitializer_shape (d : Draft) (init : Option Body) (shape : ClassShape) :
    (shape.IsFacade → (addInitializer init shape d).1.IsFacade)
      ∧ (¬ shape.IsFacade → (addInitializer init shape d).1 = shape) := by
  cases shape with
  | facade old =>
    refine ⟨fun _ => ?_, fun h => absurd ⟨old, rfl⟩ h⟩
    cases init with
    | none => exact ⟨none, rfl⟩
    | some body => exact ⟨_, rfl⟩
  | named shape => exact ⟨id, fun _ => rfl⟩
  | localClass kind origin => exact ⟨id, fun _ => rfl⟩
  | defaultImpls => exact ⟨id, fun _ => rfl⟩

/-- A draft with one more class at its end, and the block of its functions. -/
def withClass (d : Draft) (block : List FunctionNode) (node : ClassNode) (source : ClassSource)
    (new : List ClassFailure) : Draft :=
  { d with
    tree := { d.tree with
      functions := d.tree.functions ++ block
      classes := d.tree.classes ++ [node] }
    sources := d.sources ++ [source]
    failures := d.failures ++ new }

/-- The names of the classes that failures are about. -/
def namesOf (failures : List ClassFailure) : List String :=
  failures.filterMap ClassFailure.className

/-- A class whose functions are a block. Unless it failed, the block stands for certain
methods. -/
structure Fills (base : Nat) (node : ClassNode) (block : List FunctionNode)
    (bodies : List Body) : Prop where
  /-- The members are the roots of the block. -/
  rooted : ∃ bodies', Rooted base node.memberFunctions block bodies' ∧
    (node.failed = false → bodies'.Perm bodies)
  /-- Accessors and initializers have no name. -/
  unnamed : ∀ f ∈ node.properties.flatMap PropertyNode.accessors ++ node.shape.initializers,
    Unnamed base block f

/-- The methods in a block do not depend on their order. -/
theorem Fills.perm {base : Nat} {node : ClassNode} {block : List FunctionNode}
    {bodies bodies' : List Body} (h : Fills base node block bodies)
    (hperm : bodies.Perm bodies') : Fills base node block bodies' := by
  obtain ⟨⟨carried, hrooted, hcarried⟩, hunnamed⟩ := h
  exact ⟨⟨carried, hrooted, fun hfailed => (hcarried hfailed).trans hperm⟩, hunnamed⟩

/-- Changing a class changes nothing else. -/
theorem modifyClass_apply (id : ClassId) (change : ClassNode → ClassNode) (d : Draft) :
    modifyClass id change d
      = ((), { d with tree := { d.tree with classes := d.tree.classes.modify id change } }) := rfl

/-- A draft in which one more class failed. -/
def withFailed (d : Draft) (id : ClassId) (e : ClassFailure) : Draft :=
  { d with
    tree := { d.tree with
      classes := d.tree.classes.modify id fun node => { node with failed := true } }
    failures := d.failures ++ [e] }

/-- How a fault of a class is reported. -/
def failureOf (d : Draft) (id : ClassId) (node : ClassNode) (fault : PlacementFault) :
    ClassFailure :=
  ⟨((d.sources[id]?).map (·.file)).getD "", some node.jvmName,
    .composition node.jvmName fault.message⟩

/-- Failing a class notes its fault and marks it. -/
theorem fail_apply {d : Draft} {id : ClassId} {node : ClassNode}
    (hnode : d.tree.class? id = some node) (fault : PlacementFault) :
    fail id fault d = ((), d.withFailed id (d.failureOf id node fault)) := by
  have hclass : (d.tree.classes.modify id fun node => { node with failed := true })[id]?
      = some { node with failed := true } := by
    rw [List.getElem?_modify_eq]
    exact congrArg _ hnode
  rw [fail, bind_apply, modifyClass_apply]
  dsimp only
  rw [bind_apply, get_apply]
  dsimp only [SourceTree.class?]
  rw [hclass]
  rfl

/-- Failing a class is reported under its name. -/
theorem fail_withFailed {d : Draft} {id : ClassId} {node : ClassNode}
    (hnode : d.tree.class? id = some node) (fault : PlacementFault) :
    ∃ e, fail id fault d = ((), d.withFailed id e) ∧ e.className = some node.jvmName :=
  ⟨_, fail_apply hnode fault, rfl⟩

section AddPlaced

variable {d e : Draft} {keys : LocalKeys} {locals : List Body} {signature : Signature}

/-- Behind local functions that are all placed a class is just added. -/
theorem addPlaced_of_none (hrun : placeLocals keys locals d = (none, e)) (node : ClassNode)
    (source : ClassSource) : addPlaced node source keys locals d = addClass node source e := by
  rw [addPlaced, bind_apply, hrun]
  rfl

/-- When a local function is left over, the class that was added fails. -/
theorem addPlaced_of_some (hrun : placeLocals keys locals d = (some signature, e))
    (node : ClassNode) (source : ClassSource) :
    addPlaced node source keys locals d
      = (e.tree.classes.length, (addClass node source e).2.withFailed e.tree.classes.length
          ((addClass node source e).2.failureOf e.tree.classes.length node
            (.noOuterFunction signature))) := by
  have hclass : (addClass node source e).2.tree.class? e.tree.classes.length = some node :=
    List.getElem?_concat_length
  have hfail := fail_apply hclass (.noOuterFunction signature)
  rw [addPlaced, bind_apply, hrun]
  simp only [bind_apply]
  rw [show (addClass node source e).1 = e.tree.classes.length from rfl, hfail]
  rfl

end AddPlaced

/-- Adding a class after its functions extends its block by the local ones. The class fails when
one of them is left over, which happens only if its name continues none of the keys. -/
theorem addPlaced_withClass {d d' : Draft} {node : ClassNode} {unnamed : List FunctionId}
    {bodies : List Body} (h : Grown d d' node.memberFunctions unnamed bodies)
    (hfailed : node.failed = false)
    (hunnamed : ∀ f ∈ node.properties.flatMap PropertyNode.accessors ++ node.shape.initializers,
      f ∈ unnamed)
    (source : ClassSource) (keys : LocalKeys) (locals : List Body)
    (hkeys : ∀ entry ∈ keys, entry.2 ∈ node.memberFunctions) :
    ∃ block failed new, addPlaced node source keys locals d'
        = (d.tree.classes.length, d.withClass block { node with failed } source new)
      ∧ Fills d.tree.functions.length { node with failed } block (bodies ++ locals)
      ∧ namesOf new = (if failed then [node.jvmName] else []) ∧
      ((∀ body ∈ locals, LocalKeys.Fits (keys.map Prod.fst) body.signature.name) →
        failed = false ∧ new = []) := by
  obtain ⟨block, rfl, hrooted, hblock⟩ := h
  obtain ⟨unplaced, block', bodies', hrun, hrooted', hbodies, hblock', hfit⟩ :=
    placeLocals_grow locals hrooted keys fun entry hentry =>
      hrooted.mem_range_of_mem_roots (hkeys entry hentry)
  have hanonymous (f : FunctionId)
      (hf : f ∈ node.properties.flatMap PropertyNode.accessors ++ node.shape.initializers) :
      Unnamed d.tree.functions.length block' f := hblock' f (hblock f (hunnamed f hf))
  cases unplaced with
  | none =>
    refine ⟨block', false, [], ?_, ⟨⟨bodies', hrooted', fun _ => hbodies rfl⟩, hanonymous⟩, rfl,
      fun _ => ⟨rfl, rfl⟩⟩
    rw [addPlaced_of_none hrun, ← hfailed]
    simp [addClass, grow, withClass]
  | some signature =>
    refine ⟨block', true, [(addClass node source (d.grow block')).2.failureOf
      d.tree.classes.length node (.noOuterFunction signature)], ?_,
      ⟨⟨bodies', hrooted', by simp⟩, hanonymous⟩, rfl, fun hfits => ?_⟩
    · rw [addPlaced_of_some hrun]
      simp [addClass, grow, withClass, withFailed, Lists.modify_append_last]
    · simpa using hfit hfits

/-- The keys of functions are for those functions. -/
theorem functionKeys_mem {functions : List BoundFunction} {ids : List FunctionId}
    {entry : String × FunctionId} (h : entry ∈ functionKeys functions ids) : entry.2 ∈ ids := by
  obtain ⟨⟨f, id⟩, hpair, hentry⟩ := List.mem_flatMap.mp h
  obtain ⟨key, -, rfl⟩ := List.mem_map.mp hentry
  exact (List.of_mem_zip hpair).2

/-- The keys of a property are for its accessors. -/
theorem propertyKeys_mem {p : PropertyNode} {entry : String × FunctionId}
    (h : entry ∈ propertyKeys p) : entry.2 ∈ p.accessors := by
  rcases List.mem_append.mp h with h | h
  · obtain ⟨f, hf, rfl⟩ := List.mem_map.mp h
    exact List.mem_append_left _ hf
  · obtain ⟨f, hf, rfl⟩ := List.mem_map.mp h
    exact List.mem_append_right _ hf

/-- The keys of functions that are added are those of the bound ones. -/
theorem map_fst_functionKeys {functions : List BoundFunction} {ids : List FunctionId}
    (hlength : ids.length = functions.length) :
    (functionKeys functions ids).map Prod.fst = functions.flatMap BoundFunction.localKeys := by
  have hzip : functions.flatMap BoundFunction.localKeys
      = (functions.zip ids).flatMap fun entry => entry.1.localKeys := by
    rw [← List.flatMap_map Prod.fst, List.map_fst_zip (by omega)]
  rw [functionKeys, List.map_flatMap, hzip]
  exact List.flatMap_congr fun entry _ => by simp [Function.comp_def]

/-- The keys of a property that is added are those of the bound one. -/
theorem map_fst_propertyKeys (p : BoundProperty) (d : Draft) :
    (propertyKeys (addProperty p d).1).map Prod.fst = p.localKeys := by
  obtain ⟨name, isVar, customGetter, customSetter, getter, setter⟩ := p
  cases getter <;> cases setter <;> rfl

/-- The keys of properties that are added are those of the bound ones, in order. -/
theorem mapM_map_fst_propertyKeys (properties : List BoundProperty) (d : Draft) :
    ((properties.mapM addProperty d).1.flatMap propertyKeys).map Prod.fst
      = properties.flatMap BoundProperty.localKeys := by
  induction properties generalizing d with
  | nil => rfl
  | cons p rest ih =>
    have hfirst := map_fst_propertyKeys p d
    have hrest := ih (addProperty p d).2
    rw [List.mapM_cons]
    change List.map Prod.fst (propertyKeys (addProperty p d).1
      ++ (rest.mapM addProperty (addProperty p d).2).1.flatMap propertyKeys) = _
    rw [List.map_append, hfirst, hrest, List.flatMap_cons]

/-- The methods in the block of a class with some members. -/
def placedBodies (m : Members) (shape : ClassShape) : List Body :=
  m.functions.flatMap BoundFunction.bodies ++ m.constructors.flatMap BoundFunction.bodies
    ++ m.properties.flatMap BoundProperty.bodies ++ initOf m.init shape ++ m.locals

/-- Adding a class with its members. -/
theorem addClassWith_withClass (d : Draft) (file jvmName : String) (shape : ClassShape)
    (m : Members) :
    ∃ block node source new, addClassWith file jvmName shape m d
        = (d.tree.classes.length, d.withClass block node source new)
      ∧ Fills d.tree.functions.length node block (placedBodies m shape)
      ∧ namesOf new = (if node.failed then [node.jvmName] else [])
      ∧ node.jvmName = jvmName ∧ (shape.IsFacade → node.shape.IsFacade)
      ∧ (¬ shape.IsFacade → node.shape = shape)
      ∧ (m.constructors = [] → node.constructors = [])
      ∧ (m.LocalsFit → node.failed = false ∧ new = []) := by
  have hfunctions := mapM_grown (fun id => [id]) (fun _ => []) addBound_grown m.functions d
  have hlengthFunctions := mapM_length addBound m.functions d
  rcases hone : m.functions.mapM addBound d with ⟨functions, d₁⟩
  have hconstructors := mapM_grown (fun id => [id]) (fun _ => []) addBound_grown m.constructors d₁
  have hlength := mapM_length addBound m.constructors d₁
  rcases htwo : m.constructors.mapM addBound d₁ with ⟨constructors, d₂⟩
  have hproperties := mapM_grown PropertyNode.accessors PropertyNode.accessors addProperty_grown
    m.properties d₂
  have hpropertyKeys := mapM_map_fst_propertyKeys m.properties d₂
  rcases hthree : m.properties.mapM addProperty d₂ with ⟨properties, d₃⟩
  have hinit := addInitializer_grown d₃ m.init shape
  have hshape := addInitializer_shape d₃ m.init shape
  rcases hfour : addInitializer m.init shape d₃ with ⟨shape', d₄⟩
  rw [hone] at hfunctions hlengthFunctions
  rw [htwo] at hconstructors hlength
  rw [hthree] at hproperties hpropertyKeys
  rw [hfour] at hinit hshape
  have hgrown := ((hfunctions.trans hconstructors).trans hproperties).trans hinit
  simp only [List.flatMap_singleton'] at hgrown
  obtain ⟨node, hnode⟩ : ∃ node : ClassNode,
    node = { jvmName, shape := shape', functions, constructors, properties } := ⟨_, rfl⟩
  have hmembers : node.memberFunctions = functions ++ constructors
      ++ properties.flatMap PropertyNode.accessors ++ shape'.initializers := by
    rw [hnode, ClassNode.memberFunctions_eq, ClassNode.listedFunctions]
  rw [← hmembers] at hgrown
  have hkeys : ∀ entry ∈ functionKeys m.functions functions
      ++ functionKeys m.constructors constructors ++ properties.flatMap propertyKeys,
      entry.2 ∈ node.memberFunctions := by
    intro entry hentry
    rw [hmembers]
    refine List.mem_append_left _ ?_
    rcases List.mem_append.mp hentry with hentry | hentry
    · refine List.mem_append_left _ ?_
      rcases List.mem_append.mp hentry with hentry | hentry
      · exact List.mem_append_left _ (functionKeys_mem hentry)
      · exact List.mem_append_right _ (functionKeys_mem hentry)
    · obtain ⟨p, hp, hentry⟩ := List.mem_flatMap.mp hentry
      exact List.mem_append_right _ (List.mem_flatMap.mpr ⟨p, hp, propertyKeys_mem hentry⟩)
  have hnames : (functionKeys m.functions functions ++ functionKeys m.constructors constructors
      ++ properties.flatMap propertyKeys).map Prod.fst = m.localKeys := by
    rw [List.map_append, List.map_append, map_fst_functionKeys hlengthFunctions,
      map_fst_functionKeys hlength, hpropertyKeys, Members.localKeys]
  obtain ⟨block, failed, new, hrun, hfills, hnew, hfit⟩ := addPlaced_withClass hgrown
    (by rw [hnode]) (fun f hf => by simpa [hnode] using hf)
    ⟨file, m.forwarders.map (·.signature)⟩ _ m.locals hkeys
  subst hnode
  refine ⟨block, _, ⟨file, m.forwarders.map (·.signature)⟩, new, ?_, hfills, hnew, rfl, hshape.1,
    hshape.2, fun hnil => ?_, fun hlocals => hfit fun body hbody => hnames ▸ hlocals body hbody⟩
  · rw [addClassWith, bind_apply, hone]
    dsimp only
    rw [bind_apply, htwo]
    dsimp only
    rw [bind_apply, hthree]
    dsimp only
    rw [bind_apply, hfour]
    exact hrun
  · rw [hnil] at hlength
    exact List.length_eq_zero_iff.mp hlength

end Draft

end LineAtlas
