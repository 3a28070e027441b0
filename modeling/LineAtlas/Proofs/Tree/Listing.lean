import LineAtlas.Proofs.Tree.Keeping
import LineAtlas.Proofs.Tree.LocalOrder

/-!
# What classes list

A class that is added lists its functions, constructors and properties in the order in which they
are bound, and the local functions below them come in the order of the lengths of their names.
Whatever is added or placed later leaves these lists as they are.
-/

namespace LineAtlas

/-- What the report shows of a function besides what is below it. -/
def FunctionNode.face (f : FunctionNode) : FunctionKind × Body := (f.kind, f.body)

namespace SourceTree

variable {β γ : Type} {t t' t'' : SourceTree}

/-- The functions of a tree are functions of a later one too, alike in some respect. -/
def Retains (g : FunctionNode → β) (t t' : SourceTree) : Prop :=
  ∀ f a, (t.function? f).map g = some a → (t'.function? f).map g = some a

/-- A tree retains its own functions. -/
theorem Retains.refl (g : FunctionNode → β) (t : SourceTree) : Retains g t t :=
  fun _ _ h => h

/-- What is retained twice is retained. -/
theorem Retains.trans {g : FunctionNode → β} (h : Retains g t t') (h' : Retains g t' t'') :
    Retains g t t'' := fun f a ha => h' f a (h f a ha)

/-- Functions that are alike are alike in every part. -/
theorem Retains.map {g : FunctionNode → β} (h : Retains g t t') (part : β → γ) :
    Retains (part ∘ g) t t' := by
  intro f a ha
  rw [← Option.map_map] at ha ⊢
  obtain ⟨b, hb, rfl⟩ := Option.map_eq_some_iff.mp ha
  rw [h f b hb, Option.map_some]

/-- New functions come after the others. -/
theorem Retains.of_prefix {g : FunctionNode → β}
    (h : t.functions.map g <+: t'.functions.map g) : Retains g t t' := by
  intro f a ha
  rw [function?, ← List.getElem?_map] at ha ⊢
  obtain ⟨more, hmore⟩ := h
  rw [← hmore, List.getElem?_append_left (List.getElem?_eq_some_iff.mp ha).1, ha]

/-- A function has a method. -/
def HasBody (t : SourceTree) (f : FunctionId) (b : Body) : Prop :=
  (t.function? f).map FunctionNode.body = some b

/-- A function has the name and the method of a bound one. -/
def HasFunction (t : SourceTree) (f : FunctionId) (bound : BoundFunction) : Prop :=
  (t.function? f).map (fun node => (node.name, node.body)) = some (bound.name, bound.body)

/-- A property has the name and the methods of a bound one. -/
structure HasProperty (t : SourceTree) (p : PropertyNode) (bound : BoundProperty) : Prop where
  /-- Both have the same name. -/
  name : p.name = bound.name
  /-- The getter has the getter's method. -/
  getter : List.Forall₂ t.HasBody p.getter.toList bound.getter.toList
  /-- The setter has the setter's method. -/
  setter : List.Forall₂ t.HasBody p.setter.toList bound.setter.toList

/-- A function of the tree has its method. -/
theorem hasBody_of_function? {f : FunctionId} {node : FunctionNode}
    (hnode : t.function? f = some node) : t.HasBody f node.body := by
  rw [HasBody, hnode, Option.map_some]

/-- A function of the tree with the name and the method of a bound one is that one. -/
theorem hasFunction_of_function? {f : FunctionId} {node : FunctionNode} {bound : BoundFunction}
    (hnode : t.function? f = some node) (hname : node.name = bound.name)
    (hbody : node.body = bound.body) : t.HasFunction f bound := by
  rw [HasFunction, hnode, Option.map_some, hname, hbody]

/-- A function keeps its method in later trees. -/
theorem HasBody.retains {f : FunctionId} {b : Body} (h : t.HasBody f b)
    (hretains : Retains FunctionNode.face t t') : t'.HasBody f b :=
  hretains.map Prod.snd f b h

/-- A function keeps its name and its method in later trees. -/
theorem HasFunction.retains {f : FunctionId} {bound : BoundFunction} (h : t.HasFunction f bound)
    (hretains : Retains FunctionNode.face t t') : t'.HasFunction f bound :=
  hretains.map (fun face => (FunctionNode.name { kind := face.1, body := face.2 }, face.2))
    f _ h

/-- A property keeps its accessors in later trees. -/
theorem HasProperty.retains {p : PropertyNode} {bound : BoundProperty}
    (h : t.HasProperty p bound) (hretains : Retains FunctionNode.face t t') :
    t'.HasProperty p bound where
  name := h.name
  getter := h.getter.imp fun _ _ hbody => hbody.retains hretains
  setter := h.setter.imp fun _ _ hbody => hbody.retains hretains

/-- The functions and properties of a class are those of some members, in the same order. -/
structure ListsMembers (t : SourceTree) (c : ClassNode) (m : Members) : Prop where
  /-- Functions are in order. -/
  functions : List.Forall₂ t.HasFunction c.functions m.functions
  /-- Constructors are in order. -/
  constructors : List.Forall₂ t.HasFunction c.constructors m.constructors
  /-- Properties are in order. -/
  properties : List.Forall₂ t.HasProperty c.properties m.properties

/-- A class lists the same members in later trees. -/
theorem ListsMembers.retains {c : ClassNode} {m : Members} (h : t.ListsMembers c m)
    (hretains : Retains FunctionNode.face t t') : t'.ListsMembers c m where
  functions := h.functions.imp fun _ _ hf => hf.retains hretains
  constructors := h.constructors.imp fun _ _ hf => hf.retains hretains
  properties := h.properties.imp fun _ _ hp => hp.retains hretains

/-- Some functions with all that is below them, where local functions come in a given order. -/
def OrdersLocals (t : SourceTree) (own : FunctionId → Prop) (locals : List Body) : Prop :=
  ∀ f, own f → ∃ node, t.function? f = some node ∧ (∀ g ∈ node.below, own g) ∧
    (t.bodiesAt node.locals).Sublist locals

/-- Local functions that are in order among some are in order among more. -/
theorem OrdersLocals.mono {own : FunctionId → Prop} {locals locals' : List Body}
    (h : t.OrdersLocals own locals) (hlocals : locals.Sublist locals') :
    t.OrdersLocals own locals' := fun f hf => by
  obtain ⟨node, hnode, hbelow, hsublist⟩ := h f hf
  exact ⟨node, hnode, hbelow, hsublist.trans hlocals⟩

/-- Local functions stay in order in later trees. -/
theorem OrdersLocals.retains {own : FunctionId → Prop} {locals : List Body}
    (h : t.OrdersLocals own locals) (hretains : Retains FunctionNode.bare t t') :
    t'.OrdersLocals own locals := by
  intro f hf
  obtain ⟨node, hnode, hbelow, hlocals⟩ := h f hf
  obtain ⟨node', hnode', hbare⟩ :=
    Option.map_eq_some_iff.mp (hretains f node.bare (by rw [hnode, Option.map_some]))
  have hsame : node'.below = node.below := (congrArg FunctionNode.below hbare :)
  have hids : node'.locals = node.locals := (congrArg FunctionNode.locals hbare :)
  refine ⟨node', hnode', hsame ▸ hbelow, ?_⟩
  have hbodies : t'.bodiesAt node.locals = t.bodiesAt node.locals := by
    rw [bodiesAt, bodiesAt, List.map_filterMap, List.map_filterMap]
    refine List.filterMap_congr fun g hg => ?_
    obtain ⟨local', hlocal', -⟩ := h g (hbelow g (List.mem_append_right _ hg))
    have hbody : t.HasBody g local'.body := hasBody_of_function? hlocal'
    exact (hretains.map FunctionNode.body g _ hbody).trans hbody.symm
  rwa [hids, hbodies]

/-- A class lists some members, and what is below them is in order. -/
structure Lists (t : SourceTree) (c : ClassNode) (m : Members) : Prop where
  /-- Members are in order. -/
  members : t.ListsMembers c m
  /-- Local functions are in the order of the lengths of their names. -/
  locals : ∃ own : FunctionId → Prop, (∀ f ∈ c.memberFunctions, own f) ∧
    t.OrdersLocals own (Draft.byNameLength m.locals)

/-- A class that lists members in order does so in later trees. -/
theorem Lists.retains {c : ClassNode} {m : Members} (h : t.Lists c m)
    (hretains : Retains FunctionNode.bare t t') : t'.Lists c m where
  members := h.members.retains (hretains.map FunctionNode.face)
  locals := by
    obtain ⟨own, hmembers, horders⟩ := h.locals
    exact ⟨own, hmembers, horders.retains hretains⟩

/-- What a class lists has nothing to do with its slots. -/
theorem Lists.of_bare {c c' : ClassNode} {m : Members} (h : t.Lists c m)
    (hbare : c'.bare = c.bare) : t.Lists c' m := by
  have hfunctions : c'.functions = c.functions := (congrArg ClassNode.functions hbare :)
  have hconstructors : c'.constructors = c.constructors :=
    (congrArg ClassNode.constructors hbare :)
  have hproperties : c'.properties = c.properties := (congrArg ClassNode.properties hbare :)
  have hmembers : c'.memberFunctions = c.memberFunctions := by
    rw [← Draft.bare_memberFunctions, hbare, Draft.bare_memberFunctions]
  obtain ⟨own, hown, horders⟩ := h.locals
  exact ⟨⟨hfunctions ▸ h.members.functions, hconstructors ▸ h.members.constructors,
    hproperties ▸ h.members.properties⟩, own, hmembers ▸ hown, horders⟩

end SourceTree

namespace Draft

open SourceTree

variable {d d' d'' : Draft} {m : Members}

/-- A draft follows from another one by adding functions without local ones. -/
def Appends (d d' : Draft) : Prop :=
  ∃ block : List FunctionNode, d' = d.grow block ∧ ∀ node ∈ block, node.locals = []

/-- Doing nothing adds no functions. -/
theorem Appends.refl (d : Draft) : Appends d d := ⟨[], (grow_nil d).symm, by simp⟩

/-- Steps that follow one another add the functions of both. -/
theorem Appends.trans (h : Appends d d') (h' : Appends d' d'') : Appends d d'' := by
  obtain ⟨block, rfl, hblock⟩ := h
  obtain ⟨block', rfl, hblock'⟩ := h'
  exact ⟨block ++ block', grow_grow d block block', fun node hnode =>
    (List.mem_append.mp hnode).elim (hblock node) (hblock' node)⟩

/-- Adding functions retains those that are there, in every respect. -/
theorem Appends.retains {β : Type} {g : FunctionNode → β} (h : Appends d d') :
    Retains g d.tree d'.tree := by
  obtain ⟨block, rfl, -⟩ := h
  refine Retains.of_prefix ?_
  rw [grow, List.map_append]
  exact List.prefix_append _ _

/-- Adding functions removes none. -/
theorem Appends.length_le (h : Appends d d') :
    d.tree.functions.length ≤ d'.tree.functions.length := by
  obtain ⟨block, rfl, -⟩ := h
  rw [grow_length]
  exact Nat.le_add_right _ _

/-- Adding functions leaves the classes. -/
theorem Appends.classes_eq (h : Appends d d') : d'.tree.classes = d.tree.classes := by
  obtain ⟨block, rfl, -⟩ := h
  rfl

/-- Nothing is below functions that are just appended. -/
theorem Appends.locals_eq_nil (h : Appends d d') {i : Nat} {node : FunctionNode}
    (hi : d.tree.functions.length ≤ i) (hnode : d'.tree.functions[i]? = some node) :
    node.locals = [] := by
  obtain ⟨block, rfl, hblock⟩ := h
  rw [grow, List.getElem?_append_right hi] at hnode
  exact hblock node (List.mem_of_getElem? hnode)

/-- A function that is added is found at the position that is given back. -/
theorem addFunction_appends (node : FunctionNode) (hnode : node.locals = []) (d : Draft) :
    Appends d (addFunction node d).2 ∧
      (addFunction node d).2.tree.function? (addFunction node d).1 = some node := by
  refine ⟨⟨[node], rfl, by simpa using hnode⟩, ?_⟩
  exact List.getElem?_concat_length

/-- A function without a name that is added has the given method. -/
theorem addAnonymous?_appends (body : Option Body) (d : Draft) :
    Appends d (addAnonymous? body d).2 ∧
      List.Forall₂ (addAnonymous? body d).2.tree.HasBody (addAnonymous? body d).1.toList
        body.toList := by
  cases body with
  | none => exact ⟨Appends.refl d, .nil⟩
  | some body =>
    obtain ⟨happends, hnode⟩ := addFunction_appends { kind := .anonymous, body } rfl d
    exact ⟨happends, .cons (hasBody_of_function? hnode) .nil⟩

/-- A function that is added with its helper has the name and the method of the bound one. -/
theorem addBound_appends (f : BoundFunction) (d : Draft) :
    Appends d (addBound f d).2 ∧ (addBound f d).2.tree.HasFunction (addBound f d).1 f := by
  obtain ⟨hhelper, -⟩ := addAnonymous?_appends f.defaultValues d
  rcases hrun : addAnonymous? f.defaultValues d with ⟨defaultValues, d₁⟩
  rw [hrun] at hhelper
  obtain ⟨happends, hnode⟩ := addFunction_appends
    { kind := .declared f.name f.descriptor f.isConstructor, body := f.body, defaultValues } rfl d₁
  have hadd : addBound f d = addFunction
      { kind := .declared f.name f.descriptor f.isConstructor, body := f.body, defaultValues }
        d₁ := by
    rw [addBound, bind_apply, hrun]
  rw [hadd]
  exact ⟨hhelper.trans happends, hasFunction_of_function? hnode rfl rfl⟩

/-- A property that is added has the name and the methods of the bound one. -/
theorem addProperty_appends (p : BoundProperty) (d : Draft) :
    Appends d (addProperty p d).2 ∧ (addProperty p d).2.tree.HasProperty (addProperty p d).1 p := by
  obtain ⟨hone, hgetter⟩ := addAnonymous?_appends p.getter d
  obtain ⟨htwo, hsetter⟩ := addAnonymous?_appends p.setter (addAnonymous? p.getter d).2
  exact ⟨hone.trans htwo, rfl, hgetter.imp fun _ _ h => h.retains htwo.retains, hsetter⟩

/-- A step that appends something for every item. -/
theorem mapM_appends {α β : Type} (step : α → Drafting β) {R : SourceTree → β → α → Prop}
    (hretains : ∀ (t t' : SourceTree) (b : β) (a : α), R t b a → Retains FunctionNode.face t t' →
      R t' b a)
    (hstep : ∀ a d, Appends d (step a d).2 ∧ R (step a d).2.tree (step a d).1 a) (items : List α)
    (d : Draft) : Appends d (items.mapM step d).2 ∧
      List.Forall₂ (R (items.mapM step d).2.tree) (items.mapM step d).1 items := by
  induction items generalizing d with
  | nil => exact ⟨Appends.refl d, .nil⟩
  | cons a rest ih =>
    obtain ⟨hfirst, ha⟩ := hstep a d
    obtain ⟨hrest, hall⟩ := ih (step a d).2
    rw [List.mapM_cons]
    exact ⟨hfirst.trans hrest, .cons (hretains _ _ _ _ ha hrest.retains) hall⟩

/-- Placing local functions leaves the functions before them under their names. -/
theorem Orders.retains {t t' : SourceTree} {base : Nat} {placed : List Body}
    (h : Orders base t.functions t'.functions placed) : Retains FunctionNode.face t t' := by
  intro f face hface
  obtain ⟨node, hnode, rfl⟩ := Option.map_eq_some_iff.mp hface
  have hlt : f < t.functions.length := (List.getElem?_eq_some_iff.mp hnode).1
  have hbody : (t'.functions[f]?).map FunctionNode.body = some node.body := by
    have hsame : t.functions[f]? = some node := hnode
    rw [← List.getElem?_map, h.bodies, List.getElem?_append_left (by simpa using hlt),
      List.getElem?_map, hsame, Option.map_some]
  obtain ⟨node', hnode', hbodies⟩ := Option.map_eq_some_iff.mp hbody
  have hkind := h.kinds f hlt
  rw [hnode', show t.functions[f]? = some node from hnode] at hkind
  have hsame : t'.function? f = some node' := hnode'
  rw [hsame, Option.map_some]
  exact congrArg some (Prod.ext (Option.some.inj hkind) hbodies)

/-- Adding a class changes no function. -/
theorem addPlaced_tree (node : ClassNode) (source : ClassSource) (keys : LocalKeys)
    (locals : List Body) (d : Draft) : ∃ failed,
      (addPlaced node source keys locals d).2.tree.functions
        = (placeLocals keys locals d).2.tree.functions ∧
      (addPlaced node source keys locals d).2.tree.classes
        = (placeLocals keys locals d).2.tree.classes ++ [{ node with failed }] := by
  rcases hrun : placeLocals keys locals d with ⟨unplaced, d'⟩
  cases unplaced with
  | none =>
    refine ⟨node.failed, ?_⟩
    rw [addPlaced_of_none hrun]
    exact ⟨rfl, rfl⟩
  | some signature =>
    refine ⟨true, ?_⟩
    rw [addPlaced_of_some hrun]
    exact ⟨rfl, Lists.modify_append_last _ _ _⟩

/-- The functions of a block belong together, and the local ones among them come in the order in
which they were placed. -/
theorem Rooted.ordersLocals {roots : List FunctionId} {before block : List FunctionNode}
    {bodies placed : List Body} (hrooted : Rooted d.tree.functions.length roots block bodies)
    (horders : Orders d.tree.functions.length before (d.grow block).tree.functions placed) :
    (d.grow block).tree.OrdersLocals
      (· ∈ List.range' d.tree.functions.length block.length) placed := by
  intro f hf
  have hrange := List.mem_range'_1.mp hf
  obtain ⟨i, rfl⟩ := Nat.exists_eq_add_of_le hrange.1
  have hi : block[i]? = some block[i] := List.getElem?_eq_getElem (by omega)
  have hnode := (grow_function? d block i).trans hi
  refine ⟨block[i], hnode, fun g hg => ?_, horders.bodiesAt_sublist hrange.1 hnode⟩
  exact hrooted.places.mem_iff.mp (List.mem_append_right _
    (List.mem_flatMap.mpr ⟨block[i], List.mem_of_getElem? hi, hg⟩))

/-- A class that is added after its functions lists its members. -/
theorem addPlaced_lists (happends : Appends d d') {node node' : ClassNode}
    (hmembers : d'.tree.ListsMembers node m) {source source' : ClassSource} {keys : LocalKeys}
    {block : List FunctionNode} {new : List ClassFailure} {bodies : List Body}
    (hfills : Fills d.tree.functions.length node' block bodies)
    (hrun : (addPlaced node source keys m.locals d').2 = d.withClass block node' source' new) :
    (d.withClass block node' source' new).tree.Lists node' m := by
  obtain ⟨unplaced, fs, placed, hplace, hprefix, horders⟩ :=
    placeLocals_orders keys m.locals happends.length_le fun i n hi hn =>
      happends.locals_eq_nil hi hn
  obtain ⟨failed, hfunctions, hadded⟩ := addPlaced_tree node source keys m.locals d'
  rw [hrun, hplace] at hfunctions hadded
  obtain rfl : node' = { node with failed } := by
    have hlast : d.tree.classes ++ [node'] = d'.tree.classes ++ [{ node with failed }] := hadded
    rw [happends.classes_eq] at hlast
    exact List.singleton_inj.mp (List.append_cancel_left hlast)
  obtain rfl : d.tree.functions ++ block = fs := hfunctions
  have hretained : (d.withClass block { node with failed } source' new).tree.ListsMembers node m :=
    hmembers.retains horders.retains
  obtain ⟨⟨_, hrooted, -⟩, -⟩ := hfills
  refine ⟨⟨hretained.functions, hretained.constructors, hretained.properties⟩,
    _, fun f hf => hrooted.mem_range_of_mem_roots hf, ?_⟩
  exact (hrooted.ordersLocals horders).mono hprefix.sublist

/-- The keys of the functions and accessors of a class with some members. -/
def localKeys (c : ClassNode) (m : Members) : LocalKeys :=
  functionKeys m.functions c.functions ++ functionKeys m.constructors c.constructors
    ++ c.properties.flatMap propertyKeys

/-- The keys of the accessors of a property are named after those of the bound one. -/
theorem map_fst_propertyKeys_of_hasProperty {t : SourceTree} {p : PropertyNode}
    {bound : BoundProperty} (h : t.HasProperty p bound) :
    (propertyKeys p).map Prod.fst = bound.localKeys := by
  have hconst {ids : List FunctionId} {bodies : List Body} (key : String)
      (hall : List.Forall₂ t.HasBody ids bodies) :
      ids.map (fun _ => key) = bodies.map fun _ => key := by
    rw [List.map_const', List.map_const', hall.length_eq]
  rw [propertyKeys, BoundProperty.localKeys, List.map_append, List.map_map, List.map_map,
    ← h.name, ← hconst _ h.getter, ← hconst _ h.setter]
  rfl

/-- A class that lists members has their keys. -/
theorem map_fst_localKeys {t : SourceTree} {c : ClassNode} {m : Members}
    (h : t.ListsMembers c m) : (localKeys c m).map Prod.fst = m.localKeys := by
  have hproperties {properties : List PropertyNode} {bound : List BoundProperty}
      (hall : List.Forall₂ t.HasProperty properties bound) :
      (properties.flatMap propertyKeys).map Prod.fst = bound.flatMap BoundProperty.localKeys := by
    induction hall with
    | nil => rfl
    | cons hfirst _ ih =>
      rw [List.flatMap_cons, List.flatMap_cons, List.map_append, ih,
        map_fst_propertyKeys_of_hasProperty hfirst]
  rw [localKeys, List.map_append, List.map_append, map_fst_functionKeys h.functions.length_eq,
    map_fst_functionKeys h.constructors.length_eq, hproperties h.properties, Members.localKeys]

/-- Before the local functions of a class are placed, its members are appended. -/
theorem addClassWith_steps (d : Draft) (file jvmName : String) (shape : ClassShape)
    (m : Members) : ∃ (node : ClassNode) (d' : Draft),
      addClassWith file jvmName shape m d = addPlaced node ⟨file, m.forwarders.map (·.signature)⟩
        (localKeys node m) m.locals d' ∧
      node.jvmName = jvmName ∧ Appends d d' ∧ d'.tree.ListsMembers node m := by
  obtain ⟨hone, hfunctions⟩ := mapM_appends addBound (R := HasFunction)
    (fun _ _ _ _ => HasFunction.retains) addBound_appends m.functions d
  rcases hrunOne : m.functions.mapM addBound d with ⟨functions, d₁⟩
  obtain ⟨htwo, hconstructors⟩ := mapM_appends addBound (R := HasFunction)
    (fun _ _ _ _ => HasFunction.retains) addBound_appends m.constructors d₁
  rcases hrunTwo : m.constructors.mapM addBound d₁ with ⟨constructors, d₂⟩
  obtain ⟨hthree, hproperties⟩ := mapM_appends addProperty (R := HasProperty)
    (fun _ _ _ _ => HasProperty.retains) addProperty_appends m.properties d₂
  rcases hrunThree : m.properties.mapM addProperty d₂ with ⟨properties, d₃⟩
  have hfour : Appends d₃ (addInitializer m.init shape d₃).2 := by
    cases shape with
    | facade old =>
      have hinit := (addAnonymous?_appends m.init d₃).1
      cases hbody : m.init <;> rw [hbody] at hinit <;> exact hinit
    | named shape | localClass kind origin | defaultImpls => exact Appends.refl d₃
  rcases hrunFour : addInitializer m.init shape d₃ with ⟨shape', d₄⟩
  rw [hrunOne] at hone hfunctions
  rw [hrunTwo] at htwo hconstructors
  rw [hrunThree] at hthree hproperties
  rw [hrunFour] at hfour
  have hlater := hthree.trans hfour
  refine ⟨{ jvmName, shape := shape', functions, constructors, properties }, d₄, ?_, rfl,
    hone.trans (htwo.trans hlater),
    ⟨hfunctions.imp fun _ _ h => h.retains (htwo.trans hlater).retains,
      hconstructors.imp fun _ _ h => h.retains hlater.retains,
      hproperties.imp fun _ _ h => h.retains hfour.retains⟩⟩
  rw [addClassWith, bind_apply, hrunOne]
  dsimp only
  rw [bind_apply, hrunTwo]
  dsimp only
  rw [bind_apply, hrunThree]
  dsimp only
  rw [bind_apply, hrunFour]
  rfl

/-- Adding a class with its members gives a class that lists them. -/
theorem addClassWith_lists (d : Draft) (file jvmName : String) (shape : ClassShape)
    (m : Members) : ∃ block node source new,
      addClassWith file jvmName shape m d
        = (d.tree.classes.length, d.withClass block node source new) ∧
      node.jvmName = jvmName ∧ (d.withClass block node source new).tree.Lists node m := by
  obtain ⟨block, node, source, new, hrun, hfills, -, hname, -⟩ :=
    addClassWith_withClass d file jvmName shape m
  obtain ⟨node', d', hsteps, -, happends, hmembers⟩ :=
    addClassWith_steps d file jvmName shape m
  exact ⟨block, node, source, new, hrun, hname, addPlaced_lists happends hmembers hfills
    (congrArg Prod.snd (hsteps.symm.trans hrun))⟩

end Draft

end LineAtlas
