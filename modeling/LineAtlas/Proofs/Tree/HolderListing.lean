import LineAtlas.Proofs.Tree.BodySearch

/-!
# What holders list

A holder lists the bodies of interface methods in the order of the interface, and after them the
bodies that no member of the interface has, in the order of its own class file.
-/

namespace LineAtlas

/-- A function of a holder is the body of a function of the interface. -/
def BoundFunction.Implements (interfaceName : String) (f g : BoundFunction) : Prop :=
  f.name = g.name ∧ f.body.signature = g.body.signature.inDefaultImpls interfaceName

/-- A property of a holder has the bodies of a property of the interface. -/
structure BoundProperty.Implements (interfaceName : String) (p q : BoundProperty) : Prop where
  /-- Both have the same name. -/
  name : p.name = q.name
  /-- The getter is the body of the getter. -/
  getter : ∀ b ∈ p.getter, ∃ b' ∈ q.getter, b.signature = b'.signature.inDefaultImpls interfaceName
  /-- The setter is the body of the setter. -/
  setter : ∀ b ∈ p.setter, ∃ b' ∈ q.setter, b.signature = b'.signature.inDefaultImpls interfaceName

/-- A method that is listed under its own name. -/
def Body.asFunction (b : Body) : BoundFunction := ⟨b.signature.name, none, false, b, none⟩

/-- The members of a holder with some methods are in the order of the interface. -/
structure Members.Implements (m : Members) (interfaceName : String) (interface : Members)
    (methods : List Body) : Prop where
  /-- Bodies of the functions of the interface come first, others follow. -/
  functions : ∃ (bodies : List BoundFunction) (others : List Body),
    m.functions = bodies ++ others.map Body.asFunction ∧
    List.SublistForall₂ (BoundFunction.Implements interfaceName) bodies interface.functions ∧
    others.Sublist methods
  /-- There are no constructors. -/
  constructors : m.constructors = []
  /-- Properties are in the order of the interface. -/
  properties : List.SublistForall₂ (BoundProperty.Implements interfaceName) m.properties
    interface.properties
  /-- Local functions are in the order of the class file. -/
  locals : m.locals.Sublist methods

namespace SourceTree

variable {t : SourceTree}

/-- The functions at some positions are those that are bound there. -/
theorem nodes_of_hasFunction {ids : List FunctionId} {bound : List BoundFunction}
    (h : List.Forall₂ t.HasFunction ids bound) :
    List.Forall₂ (fun (node : FunctionNode) (f : BoundFunction) =>
      node.name = f.name ∧ node.body = f.body) (ids.filterMap t.function?) bound := by
  induction h with
  | nil => exact .nil
  | cons hfirst _ ih =>
    obtain ⟨node, hnode, hface⟩ := Option.map_eq_some_iff.mp hfirst
    obtain ⟨hname, hbody⟩ := Prod.mk.inj hface
    rw [List.filterMap_cons_some hnode]
    exact .cons ⟨hname, hbody⟩ ih

end SourceTree

namespace Draft

open SourceTree

variable {d d' : Draft} {t t' : SourceTree} {m : Members} {u : DefaultImplsUnit} {node : ClassNode}
  {keyed : LocalKeys} {others : List FunctionId} {left : List Body}

/-- The signatures of the functions and accessors that are members. -/
def memberSignatures (m : Members) : List Signature :=
  m.functions.map (·.body.signature) ++ m.properties.flatMap accessorSignatures

/-- The keys of a holder with some bodies of functions and some properties. -/
def holderKeys (keyed : LocalKeys) (properties : List PropertyNode) : LocalKeys :=
  keyed ++ properties.flatMap propertyKeys

/-- The members of a holder that implement members of the interface. -/
def implementing (keyed : LocalKeys) (properties : List PropertyNode) : List FunctionId :=
  keyed.map Prod.snd ++ properties.flatMap PropertyNode.accessors

/-- A method of a holder is local when its name continues a key. -/
def isLocalTo (keys : LocalKeys) (b : Body) : Bool := (keys.longestKey? b.signature.name).isSome

/-- A function of a holder that is just a method. -/
def IsPlain (t : SourceTree) (f : FunctionId) (b : Body) : Prop :=
  (t.function? f).map FunctionNode.face = some (.declared b.signature.name none false, b)

/-- What a holder finds when it searches for the bodies of the members of an interface. -/
structure Serves (t : SourceTree) (m : Members) (u : DefaultImplsUnit)
    (properties : List PropertyNode) (keyed : LocalKeys)
    (found : List (Signature × Option FunctionId)) : Prop where
  /-- It searches for every member. -/
  searched : found.map Prod.fst = (memberSignatures m).map (·.inDefaultImpls u.interfaceName)
  /-- What it finds are its members that implement some. -/
  ids : found.filterMap Prod.snd = implementing keyed properties
  /-- What it finds has the signature that it searches. -/
  each : ∀ e ∈ found, ∀ f ∈ e.2, t.HasSignature f e.1
  /-- Of different signatures that are not named as helpers it finds all that there are. -/
  complete : (found.map Prod.fst).Nodup → (∀ e ∈ found, ¬ e.1.IsHelper) →
    ∀ e ∈ found, e.2 = none → ∀ b ∈ u.methods, b.signature ≠ e.1
  /-- Bodies of functions are in the order of the interface. -/
  functions : ∃ entries, keyed = entries.filterMap id ∧
    List.Forall₂ (ServesFunction t u.interfaceName found) m.functions entries
  /-- Properties with bodies are in the order of the interface. -/
  properties : ∃ items : List PropertyNode,
    properties = items.filter (fun p => p.getter.isSome || p.setter.isSome) ∧
    List.Forall₂ (ServesProperty t u.interfaceName found) m.properties items

/-- What is found for an interface stays found. -/
theorem Serves.retains {properties : List PropertyNode}
    {found : List (Signature × Option FunctionId)} (h : Serves t m u properties keyed found)
    (hretains : Retains FunctionNode.core t t') : Serves t' m u properties keyed found where
  searched := h.searched
  ids := h.ids
  each := fun e he f hf => (h.each e he f hf).retains hretains
  complete := h.complete
  functions := by
    obtain ⟨entries, hkeyed, hall⟩ := h.functions
    exact ⟨entries, hkeyed, hall.imp fun _ _ hf => hf.later hretains (List.Subset.refl _)⟩
  properties := by
    obtain ⟨items, hitems, hall⟩ := h.properties
    exact ⟨items, hitems, hall.imp fun _ _ hp => hp.later hretains (List.Subset.refl _)⟩

/-- Functions that implement members have signatures of methods. -/
theorem Serves.exists_signature {properties : List PropertyNode}
    {found : List (Signature × Option FunctionId)} (h : Serves t m u properties keyed found) :
    ∀ f ∈ implementing keyed properties, ∃ s, t.HasSignature f s := by
  intro f hf
  rw [← h.ids] at hf
  obtain ⟨e, he, hsome⟩ := List.mem_filterMap.mp hf
  exact ⟨e.1, h.each e he f hsome⟩

/-- The methods of a holder are divided: what the members of the interface search for, their
helpers, local functions, and all others, which are functions under their own names. -/
structure Divides (t : SourceTree) (m : Members) (u : DefaultImplsUnit) (node : ClassNode)
    (keyed : LocalKeys) (others : List FunctionId) (left : List Body) : Prop where
  /-- The bodies of functions of the interface come first. -/
  functions : node.functions = keyed.map Prod.snd ++ others
  /-- There are no constructors. -/
  constructors : node.constructors = []
  /-- What is found for the members of the interface. -/
  found : ∃ found, Serves t m u node.properties keyed found
  /-- Helpers of these are functions, too. -/
  helpers : ∀ h ∈ t.helpersOf (implementing keyed node.properties), ∃ s, t.HasSignature h s
  /-- Bodies that are left stay in order. -/
  rest : left.Sublist u.methods
  /-- No body is lost, and none is taken twice. -/
  all : u.methods.Perm (t.bodiesAt (implementing keyed node.properties)
    ++ t.bodiesAt (t.helpersOf (implementing keyed node.properties)) ++ left)
  /-- What is left and does not continue a key is a function under its own name. -/
  others : List.Forall₂ (IsPlain t) others
    (left.filter (!isLocalTo (holderKeys keyed node.properties) ·))

/-- What is divided stays so when more functions are made. -/
theorem Divides.retains (h : Divides t m u node keyed others left)
    (hretains : Retains FunctionNode.core t t') : Divides t' m u node keyed others left := by
  have hface : Retains FunctionNode.face t t' := hretains.map fun core => (core.1, core.2.1)
  obtain ⟨found, hserves⟩ := h.found
  have hhelpers := helpersOf_eq_of_retains hretains hserves.exists_signature
  refine ⟨h.functions, h.constructors, ⟨found, hserves.retains hretains⟩, ?_, h.rest, ?_,
    h.others.imp fun _ _ hplain => hface _ _ hplain⟩
  · rw [hhelpers]
    intro f hf
    obtain ⟨s, hs⟩ := h.helpers f hf
    exact ⟨s, hs.retains hretains⟩
  · rw [hhelpers, bodiesAt_eq_of_retains hretains hserves.exists_signature,
      bodiesAt_eq_of_retains hretains h.helpers]
    exact h.all

/-- Before the local functions of a holder are placed, its methods are divided. -/
theorem addHolder_steps (d : Draft) (file : String) (u : DefaultImplsUnit) {interface : ClassNode}
    (hinterface : d.tree.ListsMembers interface m) :
    ∃ (node : ClassNode) (source : ClassSource) (keyed : LocalKeys) (others : List FunctionId)
      (left : List Body) (d' : Draft),
      addHolder file u interface d = addPlaced node source (holderKeys keyed node.properties)
        (left.filter (isLocalTo (holderKeys keyed node.properties))) d' ∧
      node.jvmName = u.jvmName ∧ Appends d d' ∧ Divides d'.tree m u node keyed others left := by
  obtain ⟨keyed, left₁, d₁, hrunOne, found₁, entries, hone, hsearchedOne, hidsOne, hkeyed,
    hfunctions⟩ := addFunctionBodies_finds u.interfaceName
      (nodes_of_hasFunction hinterface.functions) u.methods d
  obtain ⟨served, left, d₂, hrunTwo, found₂, items, htwo, hsearchedTwo, hidsTwo, hserved,
    hproperties⟩ := addPropertyBodies_finds u.interfaceName left₁ d₁
      (hinterface.retains hone.appends.retains).properties
  have hboth := hone.trans htwo
  obtain ⟨hthree, hothers⟩ := mapM_appends (fun body => addNamed body.signature.name body)
    (R := IsPlain) (fun _ _ f _ h hretains => hretains f _ h)
    (fun body d => by
      obtain ⟨happends, hnode⟩ := addFunction_appends
        { kind := .declared body.signature.name none false, body } rfl d
      exact ⟨happends, congrArg (Option.map FunctionNode.face) hnode⟩)
    (left.filter (!isLocalTo (holderKeys keyed served) ·)) d₂
  rcases hrunThree : (left.filter (!isLocalTo (holderKeys keyed served) ·)).mapM
    (fun body => addNamed body.signature.name body) d₂ with ⟨others, d₃⟩
  rw [hrunThree] at hthree hothers
  have hids : (found₁ ++ found₂).filterMap Prod.snd = implementing keyed served := by
    rw [List.filterMap_append, hidsOne, hidsTwo, implementing]
  have hserves : Serves d₂.tree m u served keyed (found₁ ++ found₂) := by
    refine ⟨?_, hids, hboth.each, hboth.complete, ⟨entries, hkeyed, hfunctions.imp fun _ _ hf =>
      hf.later htwo.appends.retains (List.subset_append_left _ _)⟩, ⟨items, hserved,
      hproperties.imp fun _ _ hp => hp.later (Retains.refl _ _) (List.subset_append_right _ _)⟩⟩
    rw [List.map_append, hsearchedOne, hsearchedTwo, memberSignatures, List.map_append,
      List.map_map]
    rfl
  have hlater : Retains FunctionNode.core d₂.tree d₃.tree := hthree.retains
  have hhelpers := helpersOf_eq_of_retains hlater hserves.exists_signature
  have hsome : ∀ f ∈ d₂.tree.helpersOf (implementing keyed served),
      ∃ s, d₂.tree.HasSignature f s := fun f hf => by
    rw [← hids] at hf
    obtain ⟨s, hs, -⟩ := hboth.helpers f hf
    exact ⟨s, hs⟩
  refine ⟨{ jvmName := u.jvmName, shape := .defaultImpls
            functions := keyed.map Prod.snd ++ others, properties := served },
    ⟨file, []⟩, keyed, others, left, d₃, ?_, rfl, hboth.appends.trans hthree,
    ⟨rfl, rfl, ⟨_, hserves.retains hlater⟩, ?_, hboth.rest, ?_, hothers⟩⟩
  · exact addHolder_apply hrunOne hrunTwo hrunThree
  · rw [hhelpers]
    intro f hf
    obtain ⟨s, hs⟩ := hsome f hf
    exact ⟨s, hs.retains hlater⟩
  · rw [hhelpers, bodiesAt_eq_of_retains hlater hserves.exists_signature,
      bodiesAt_eq_of_retains hlater hsome, ← hids]
    exact hboth.all

/-- The bodies of functions that are found, in the order of the interface. -/
theorem Serves.exists_functions {properties : List PropertyNode}
    {found : List (Signature × Option FunctionId)} (h : Serves t m u properties keyed found) :
    ∃ functions : List BoundFunction, List.Forall₂ t.HasFunction (keyed.map Prod.snd) functions ∧
      List.SublistForall₂ (BoundFunction.Implements u.interfaceName) functions m.functions := by
  obtain ⟨entries, rfl, hall⟩ := h.functions
  have heach := h.each
  clear h
  generalize m.functions = bound at hall ⊢
  induction hall with
  | nil => exact ⟨[], .nil, .nil⟩
  | @cons f entry _ _ hfirst _ ih =>
    obtain ⟨functions, hhas, himplements⟩ := ih
    obtain ⟨hmem, hkind⟩ := hfirst
    cases entry with
    | none => exact ⟨functions, hhas, .cons_right himplements⟩
    | some e =>
      obtain ⟨node, hnode, hsignature⟩ := (heach _ hmem e.2 rfl).exists_core
      obtain ⟨hname, hkind⟩ := hkind e rfl
      rw [HasKind, hnode, Option.map_some, Option.some.injEq] at hkind
      refine ⟨⟨f.name, none, false, node.body, none⟩ :: functions,
        .cons (hasFunction_of_function? hnode ?_ rfl) hhas, .cons ⟨rfl, hsignature⟩ himplements⟩
      rw [FunctionNode.name, hkind]

/-- The body of an accessor that is found. -/
theorem ServesAccessor.exists_body {found : List (Signature × Option FunctionId)}
    {accessor : Option Body} {id : Option FunctionId} {interfaceName : String}
    (h : ServesAccessor t interfaceName found accessor id)
    (heach : ∀ e ∈ found, ∀ f ∈ e.2, t.HasSignature f e.1) :
    ∃ b : Option Body, List.Forall₂ t.HasBody id.toList b.toList ∧
      ∀ body ∈ b, ∃ b' ∈ accessor, body.signature = b'.signature.inDefaultImpls interfaceName := by
  cases id with
  | none => exact ⟨none, .nil, by simp⟩
  | some f =>
    cases accessor with
    | none => cases h
    | some b' =>
      obtain ⟨node, hnode, hsignature⟩ := (heach _ h.1 f rfl).exists_core
      refine ⟨some node.body, .cons (hasBody_of_function? hnode) .nil, ?_⟩
      rintro body ⟨⟩
      exact ⟨b', rfl, hsignature⟩

/-- The bodies of accessors that are found, in the order of the interface. -/
theorem Serves.exists_properties {properties : List PropertyNode}
    {found : List (Signature × Option FunctionId)} (h : Serves t m u properties keyed found) :
    ∃ bound : List BoundProperty, List.Forall₂ t.HasProperty properties bound ∧
      List.SublistForall₂ (BoundProperty.Implements u.interfaceName) bound m.properties := by
  obtain ⟨items, rfl, hall⟩ := h.properties
  have heach := h.each
  clear h
  generalize m.properties = implemented at hall ⊢
  induction hall with
  | nil => exact ⟨[], .nil, .nil⟩
  | @cons q p _ _ hfirst _ ih =>
    obtain ⟨bound, hhas, himplements⟩ := ih
    obtain ⟨getter, hgetter, himplementsGetter⟩ := hfirst.getter.exists_body heach
    obtain ⟨setter, hsetter, himplementsSetter⟩ := hfirst.setter.exists_body heach
    rw [List.filter_cons]
    split
    · exact ⟨{ q with getter, setter } :: bound, .cons ⟨hfirst.name, hgetter, hsetter⟩ hhas,
        .cons ⟨rfl, himplementsGetter, himplementsSetter⟩ himplements⟩
    · exact ⟨bound, hhas, .cons_right himplements⟩

/-- What a holder lists are members in the order of the interface. -/
theorem Divides.exists_members (h : Divides t m u node keyed others left) :
    ∃ own : Members, own.locals = left.filter (isLocalTo (holderKeys keyed node.properties)) ∧
      own.Implements u.interfaceName m u.methods ∧ t.ListsMembers node own := by
  obtain ⟨found, hserves⟩ := h.found
  obtain ⟨functions, hfunctions, himplements⟩ := hserves.exists_functions
  obtain ⟨properties, hproperties, himplements'⟩ := hserves.exists_properties
  obtain ⟨keys, hkeys⟩ : ∃ keys, keys = holderKeys keyed node.properties := ⟨_, rfl⟩
  rw [← hkeys]
  refine ⟨{ functions := functions ++ (left.filter (!isLocalTo keys ·)).map Body.asFunction
            properties, locals := left.filter (isLocalTo keys) }, rfl,
    ⟨⟨functions, _, rfl, himplements, List.filter_sublist.trans h.rest⟩, rfl, himplements',
      List.filter_sublist.trans h.rest⟩, ?_, ?_, hproperties⟩
  · rw [h.functions]
    refine List.rel_append hfunctions (List.forall₂_map_right_iff.mpr ?_)
    rw [hkeys]
    refine h.others.imp ?_
    intro f b hplain
    obtain ⟨node, hnode, hface⟩ := Option.map_eq_some_iff.mp hplain
    obtain ⟨hkind, hbody⟩ := Prod.mk.inj hface
    refine hasFunction_of_function? hnode ?_ hbody
    rw [FunctionNode.name, hkind]
    rfl
  · rw [h.constructors]
    exact .nil

/-- A holder gets a class that lists its methods in the order of the interface. -/
theorem addHolder_lists (d : Draft) (file : String) (u : DefaultImplsUnit) {interface : ClassNode}
    {m : Members} (hinterface : d.tree.ListsMembers interface m) :
    ∃ block node source, addHolder file u interface d
        = (d.tree.classes.length, d.withClass block node source []) ∧ node.jvmName = u.jvmName ∧
      ∃ own : Members, own.Implements u.interfaceName m u.methods ∧
        (d.withClass block node source []).tree.Lists node own := by
  obtain ⟨block, node, source, hrun, hfills, hname, -⟩ := addHolder_withClass d file u interface
  obtain ⟨node', source', keyed, others, left, d', hsteps, -, happends, hdivides⟩ :=
    addHolder_steps d file u hinterface
  obtain ⟨own, hlocals, himplements, hmembers⟩ := hdivides.exists_members
  rw [← hlocals] at hsteps
  exact ⟨block, node, source, hrun, hname, own, himplements,
    addPlaced_lists happends hmembers hfills (congrArg Prod.snd (hsteps.symm.trans hrun))⟩

end Draft

end LineAtlas
