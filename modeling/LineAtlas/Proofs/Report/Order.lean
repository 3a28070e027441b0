import LineAtlas.Proofs.Report.Slots
import LineAtlas.Proofs.Tree.ListedOrder
import LineAtlas.Proofs.Tree.Shows

/-!
# The order in a report

Every list of functions, constructors or properties in a report is that of a class file, in the
order of its metadata. Local functions and functions without a name come in the order of the
lengths of their methods' names, and those with names of the same length in the order of the class
file.
-/

namespace LineAtlas

open Draft (byNameLength)

/-- The name under which a function is listed, with its method. -/
def BoundFunction.shown (f : BoundFunction) : String × String × LineMap := (f.name, f.body.slot)

/-- The name under which a property is listed, with the methods of its accessors. -/
def BoundProperty.shown (p : BoundProperty) :
    String × Option (String × LineMap) × Option (String × LineMap) :=
  (p.name, p.getter.map Body.slot, p.setter.map Body.slot)

namespace Report

/-- The method of a function. -/
def FunctionEntry.slot (f : FunctionEntry) : String × LineMap := (f.signature, f.lines)

/-- The method of a function. -/
def AnonymousFunction.slot (f : AnonymousFunction) : String × LineMap := (f.signature, f.lines)

/-- The name and the method of a function. -/
def FunctionEntry.shown (f : FunctionEntry) : String × String × LineMap := (f.name, f.slot)

/-- The name of a property and the methods of its accessors. -/
def PropertyEntry.shown (p : PropertyEntry) :
    String × Option (String × LineMap) × Option (String × LineMap) :=
  (p.name, p.getter.map AnonymousFunction.slot, p.setter.map AnonymousFunction.slot)

/-- The body of a function and that of its helper. -/
def FunctionEntry.bodies (f : FunctionEntry) : List BodyEntries :=
  f.inner :: f.defaultValues.toList.map AnonymousFunction.inner

/-- The bodies of accessors. -/
def PropertyEntry.bodies (p : PropertyEntry) : List BodyEntries :=
  (p.getter.toList ++ p.setter.toList).map AnonymousFunction.inner

/-- The bodies of the members of a class. -/
def MemberEntries.bodies (e : MemberEntries) : List BodyEntries :=
  (e.functions ++ e.constructors).flatMap FunctionEntry.bodies
    ++ e.properties.flatMap PropertyEntry.bodies

/-- The bodies of the functions in a body. -/
def BodyEntries.bodies (e : BodyEntries) : List BodyEntries :=
  e.functions.flatMap FunctionEntry.bodies ++ e.anonymousFunctions.map AnonymousFunction.inner

/-- The classes in a body, by their internal names. -/
def BodyEntries.members (e : BodyEntries) : List (String × MemberEntries) :=
  e.classes.map (fun c => (c.jvmName, c.members))
    ++ (e.lambdaClasses ++ e.anonymousClasses).map fun c => (c.jvmName, c.members)

/-- The lists of a class have exactly some members, in the same order. -/
structure MemberEntries.Lists (e : MemberEntries) (m : Members) : Prop where
  /-- Functions are in order. -/
  functions : e.functions.map FunctionEntry.shown = m.functions.map BoundFunction.shown
  /-- Constructors are in order. -/
  constructors : e.constructors.map FunctionEntry.shown = m.constructors.map BoundFunction.shown
  /-- Properties are in order. -/
  properties : e.properties.map PropertyEntry.shown = m.properties.map BoundProperty.shown

mutual

/-- The lists of a class, and all lists in its functions, are in the order of class files. -/
inductive MemberEntries.InOrder (files : List ClassFile) : String → MemberEntries → Prop
  /-- The lists are those of some members in order, and the bodies are in order. -/
  | intro {jvmName : String} {e : MemberEntries} (m : Members) (order : m.OrderedIn files jvmName)
    (lists : e.Lists m)
    (bodies : ∀ body ∈ e.bodies, BodyEntries.InOrder files (byNameLength m.locals) body) :
    MemberEntries.InOrder files jvmName e

/-- The lists in the body of a function of a class with some local functions are in order. -/
inductive BodyEntries.InOrder (files : List ClassFile) : List Body → BodyEntries → Prop
  /-- The functions are among the local ones in their order, and all bodies in it are in order. -/
  | intro {locals : List Body} {e : BodyEntries}
    (functions : (e.functions.map FunctionEntry.slot).Sublist (locals.map Body.slot))
    (anonymous : (e.anonymousFunctions.map AnonymousFunction.slot).Sublist
      (locals.map Body.slot))
    (bodies : ∀ body ∈ e.bodies, BodyEntries.InOrder files locals body)
    (members : ∀ c ∈ e.members, MemberEntries.InOrder files c.1 c.2) :
    BodyEntries.InOrder files locals e

end

mutual

/-- The lists of a class and of all that is nested in it are in order. -/
inductive ClassEntry.InOrder (files : List ClassFile) : ClassEntry → Prop
  /-- The members are in order, and so is all that is nested. -/
  | intro {e : ClassEntry} (members : e.members.InOrder files e.jvmName)
    (classes : ∀ c ∈ e.classes, ClassEntry.InOrder files c)
    (objects : ∀ o ∈ e.objects, ObjectEntry.InOrder files o)
    (companion : ∀ o ∈ e.companion, ObjectEntry.InOrder files o)
    (defaultImpls : ∀ c ∈ e.defaultImpls, c.members.InOrder files c.jvmName) :
    ClassEntry.InOrder files e

/-- The lists of an object and of all that is nested in it are in order. -/
inductive ObjectEntry.InOrder (files : List ClassFile) : ObjectEntry → Prop
  /-- The members are in order, and so is all that is nested. -/
  | intro {e : ObjectEntry} (members : e.members.InOrder files e.jvmName)
    (classes : ∀ c ∈ e.classes, ClassEntry.InOrder files c)
    (objects : ∀ o ∈ e.objects, ObjectEntry.InOrder files o) :
    ObjectEntry.InOrder files e

end

/-- All lists of members in the entry of a source file are in the order of class files. -/
structure FileEntry.InOrder (files : List ClassFile) (e : FileEntry) : Prop where
  /-- Classes are in order. -/
  classes : ∀ c ∈ e.classes, c.InOrder files
  /-- Objects are in order. -/
  objects : ∀ o ∈ e.objects, o.InOrder files
  /-- The top level has the lists of one class file after those of another. -/
  topLevel : ∃ parts : List (String × MemberEntries),
    e.functions = parts.flatMap (·.2.functions) ∧ e.properties = parts.flatMap (·.2.properties) ∧
      ∀ part ∈ parts, part.2.InOrder files part.1
  /-- Initializers are in order. -/
  init : ∃ inits : List AnonymousFunction, e.init = SourceTree.joinInitializers inits ∧
    ∀ f ∈ inits, ∃ (jvmName : String) (m : Members), m.OrderedIn files jvmName ∧
      f.inner.InOrder files (byNameLength m.locals)

/-- A body without entries is in order. -/
theorem BodyEntries.inOrder_empty (files : List ClassFile) (locals : List Body) :
    BodyEntries.empty.InOrder files locals :=
  .intro (List.nil_sublist _) (List.nil_sublist _) (by simp [BodyEntries.empty, bodies])
    (by simp [BodyEntries.empty, members])

end Report

namespace SourceTree

open Report

variable {files : List ClassFile} {t : SourceTree} {contents : Contents}

/-- The contents of functions are in order. -/
def Tells (files : List ClassFile) (t : SourceTree) (contents : Contents) : Prop :=
  ∀ (own : FunctionId → Prop) (locals : List Body), t.OrdersLocals own locals → ∀ f node,
    own f → t.function? f = some node → (contents node).InOrder files locals

/-- The entries of functions come in the order of the functions that were bound. -/
theorem functionEntries_shown (contents : Contents) {ids : List FunctionId}
    {bound : List BoundFunction} (h : List.Forall₂ t.HasFunction ids bound) :
    (t.functionEntries contents ids).map FunctionEntry.shown
      = bound.map BoundFunction.shown := by
  induction h with
  | nil => rfl
  | @cons id f ids bound hfirst _ ih =>
    obtain ⟨node, hnode, hface⟩ := Option.map_eq_some_iff.mp hfirst
    obtain ⟨hname, hbody⟩ := Prod.mk.inj hface
    have hentry : functionEntry? t contents id = some
        { name := node.name
          descriptor := descriptorOf node
          signature := node.body.signature.display
          lines := node.body.lines.slots
          defaultValues := node.defaultValues.bind (t.anonymousFunction? contents)
          inner := contents node } := by
      unfold functionEntry?
      rw [hnode, Option.map_some]
    rw [functionEntries, List.filterMap_cons_some hentry, List.map_cons, ← functionEntries, ih,
      List.map_cons]
    refine congrArg (· :: _) ?_
    simp only [FunctionEntry.shown, FunctionEntry.slot, BoundFunction.shown, hname, hbody]
    rfl

/-- The entry of an accessor has the method that was bound for it. -/
theorem anonymousFunction?_slot (contents : Contents) {id : Option FunctionId}
    {b : Option Body} (h : List.Forall₂ t.HasBody id.toList b.toList) :
    (id.bind (t.anonymousFunction? contents)).map AnonymousFunction.slot = b.map Body.slot := by
  cases id with
  | none =>
    cases b with
    | none => rfl
    | some b => cases h
  | some id =>
    cases b with
    | none => cases h
    | some b =>
      obtain ⟨hbody, -⟩ := List.forall₂_cons.mp h
      obtain ⟨node, hnode, rfl⟩ := Option.map_eq_some_iff.mp hbody
      rw [Option.bind_some, anonymousFunction?, hnode]
      rfl

/-- The entries of properties come in the order of the properties that were bound. -/
theorem propertyEntries_shown (contents : Contents) {properties : List PropertyNode}
    {bound : List BoundProperty} (h : List.Forall₂ t.HasProperty properties bound) :
    (properties.map (t.propertyEntry contents)).map PropertyEntry.shown
      = bound.map BoundProperty.shown := by
  induction h with
  | nil => rfl
  | cons hfirst _ ih =>
    rw [List.map_cons, List.map_cons, List.map_cons, ih]
    refine congrArg (· :: _) ?_
    rw [PropertyEntry.shown, BoundProperty.shown, ← hfirst.name]
    simp only [propertyEntry, anonymousFunction?_slot contents hfirst.getter,
      anonymousFunction?_slot contents hfirst.setter]

/-- The entries of a class have the members that it lists. -/
theorem memberEntries_lists (contents : Contents) {c : ClassNode} {m : Members}
    (h : t.ListsMembers c m) : (t.memberEntries contents c).Lists m where
  functions := functionEntries_shown contents h.functions
  constructors := functionEntries_shown contents h.constructors
  properties := propertyEntries_shown contents h.properties

section Bodies

variable {own : FunctionId → Prop} {locals : List Body}

/-- The body of a function without a name is in order when contents are. -/
theorem anonymousFunction?_inOrder (htells : t.Tells files contents)
    (horders : t.OrdersLocals own locals) {o : Option FunctionId} (hown : ∀ f ∈ o, own f) :
    ∀ e ∈ o.bind (t.anonymousFunction? contents), e.inner.InOrder files locals := by
  intro e he
  obtain ⟨f, hf, hentry⟩ := Option.bind_eq_some_iff.mp he
  obtain ⟨node, hnode, rfl⟩ := Option.map_eq_some_iff.mp hentry
  exact htells own locals horders f node (hown f hf) hnode

/-- The bodies of functions that belong to a class. -/
theorem functionEntries_inOrder (htells : t.Tells files contents)
    (horders : t.OrdersLocals own locals) {ids : List FunctionId} (hown : ∀ f ∈ ids, own f) :
    ∀ body ∈ (t.functionEntries contents ids).flatMap FunctionEntry.bodies,
      body.InOrder files locals := by
  intro body hbody
  obtain ⟨e, he, hbody⟩ := List.mem_flatMap.mp hbody
  obtain ⟨f, hf, hentry⟩ := List.mem_filterMap.mp he
  obtain ⟨node, hnode, rfl⟩ := Option.map_eq_some_iff.mp hentry
  rcases List.mem_cons.mp hbody with rfl | hhelper
  · exact htells own locals horders f node (hown f hf) hnode
  · obtain ⟨helper, hmem, rfl⟩ := List.mem_map.mp hhelper
    obtain ⟨node', hnode', hbelow, -⟩ := horders f (hown f hf)
    obtain rfl := Option.some.inj (hnode'.symm.trans hnode)
    exact anonymousFunction?_inOrder htells horders (fun g hg =>
      hbelow g (List.mem_append_left _ (Option.mem_toList.mpr hg))) helper
      (Option.mem_toList.mp hmem)

/-- The local functions of a function are shown in the order in which they lie below it. -/
theorem filterMap_slot_sublist {β : Type} {entry : FunctionId → Option β}
    {slot : β → String × LineMap}
    (hentry : ∀ f, (entry f).map slot = (t.function? f).map fun node => node.body.slot)
    (ids : List FunctionId) (p : FunctionId → Bool) :
    (((ids.filter p).filterMap entry).map slot).Sublist ((t.bodiesAt ids).map Body.slot) := by
  have hsame : ((ids.filter p).filterMap entry).map slot
      = (t.bodiesAt (ids.filter p)).map Body.slot := by
    rw [bodiesAt, List.map_filterMap, List.map_map, List.map_filterMap]
    exact List.filterMap_congr fun f _ => hentry f
  rw [hsame]
  exact (t.bodiesAt_sublist List.filter_sublist).map _

end Bodies

/-- The lists of a class are in order when the contents of functions are. -/
theorem Tells.memberEntries (h : t.InOrder files) (htells : t.Tells files contents)
    {c : ClassNode} (hc : c ∈ t.classes) :
    (t.memberEntries contents c).InOrder files c.jvmName := by
  obtain ⟨m, hm, hlists⟩ := h c hc
  obtain ⟨own, hown, horders⟩ := hlists.locals
  refine .intro m hm (memberEntries_lists contents hlists.members) fun body hbody => ?_
  have hlisted : ∀ f ∈ c.functions ++ c.constructors, own f := fun f hf =>
    hown f (List.mem_append_left _ (List.mem_append_left _ hf))
  rcases List.mem_append.mp hbody with hbody | hbody
  · have hsplit : (t.memberEntries contents c).functions
        ++ (t.memberEntries contents c).constructors
        = t.functionEntries contents (c.functions ++ c.constructors) :=
      List.filterMap_append.symm
    rw [hsplit] at hbody
    exact functionEntries_inOrder htells horders hlisted body hbody
  · obtain ⟨e, he, hbody⟩ := List.mem_flatMap.mp hbody
    obtain ⟨p, hp, rfl⟩ := List.mem_map.mp he
    have haccessor : ∀ f ∈ p.getter.toList ++ p.setter.toList, own f := fun f hf =>
      hown f (List.mem_append_left _ (List.mem_append_right _ (List.mem_flatMap.mpr ⟨p, hp, hf⟩)))
    obtain ⟨f, hf, rfl⟩ := List.mem_map.mp hbody
    rcases List.mem_append.mp hf with hf | hf
    · exact anonymousFunction?_inOrder htells horders (fun g hg =>
        haccessor g (List.mem_append_left _ (Option.mem_toList.mpr hg))) f
        (Option.mem_toList.mp hf)
    · exact anonymousFunction?_inOrder htells horders (fun g hg =>
        haccessor g (List.mem_append_right _ (Option.mem_toList.mpr hg))) f
        (Option.mem_toList.mp hf)

/-- A class that is shown among others is one of the tree. -/
theorem mem_classes_of_mem_live {ids : List ClassId} {c : ClassNode} (hc : c ∈ t.live ids) :
    c ∈ t.classes := by
  obtain ⟨id, -, hid⟩ := List.mem_filterMap.mp (List.mem_of_mem_filter hc)
  exact List.mem_of_getElem? hid

/-- The classes in a body are those that are placed there and did not fail. -/
theorem mem_bodyEntries_members {node : FunctionNode} {c : String × MemberEntries}
    (hc : c ∈ (t.bodyEntries contents node).members) :
    ∃ k ∈ t.live node.classes, c = (k.jvmName, t.memberEntries contents k) := by
  simp only [BodyEntries.members, bodyEntries, List.partition_eq_filter_filter] at hc
  rcases List.mem_append.mp hc with hc | hc
  · obtain ⟨e, he, rfl⟩ := List.mem_map.mp hc
    obtain ⟨k, hk, hname⟩ := List.mem_filterMap.mp he
    obtain ⟨name, -, rfl⟩ := Option.map_eq_some_iff.mp hname
    exact ⟨k, hk, rfl⟩
  · obtain ⟨e, he, rfl⟩ := List.mem_map.mp hc
    rcases List.mem_append.mp he with he | he
    all_goals
      obtain ⟨k, hk, rfl⟩ := List.mem_map.mp he
      exact ⟨k, List.mem_of_mem_filter (List.mem_of_mem_filter hk), rfl⟩

/-- One level of functions more is in order when those inside are. -/
theorem Tells.bodyEntries (h : t.InOrder files) (htells : t.Tells files contents) :
    t.Tells files (t.bodyEntries contents) := by
  intro own locals horders f node hf hnode
  obtain ⟨node', hnode', hbelow, hlocals⟩ := horders f hf
  obtain rfl := Option.some.inj (hnode'.symm.trans hnode)
  have hown (p : FunctionId → Bool) : ∀ g ∈ node'.locals.filter p, own g := fun g hg =>
    hbelow g (List.mem_append_right _ (List.mem_of_mem_filter hg))
  have hslots := hlocals.map Body.slot
  refine .intro ?_ ?_ (fun body hbody => ?_) fun c hc => ?_
  · refine (filterMap_slot_sublist (fun g => ?_) node'.locals _).trans hslots
    unfold functionEntry?
    rw [Option.map_map]
    rfl
  · refine (filterMap_slot_sublist (fun g => ?_) node'.locals _).trans hslots
    rw [anonymousFunction?, Option.map_map]
    rfl
  · rcases List.mem_append.mp hbody with hbody | hbody
    · exact functionEntries_inOrder htells horders (hown _) body hbody
    · obtain ⟨e, he, rfl⟩ := List.mem_map.mp hbody
      obtain ⟨g, hg, hentry⟩ := List.mem_filterMap.mp he
      exact anonymousFunction?_inOrder htells horders (o := some g)
        (fun i hi => Option.some.inj hi ▸ hown _ g hg) e hentry
  · obtain ⟨k, hk, rfl⟩ := mem_bodyEntries_members hc
    exact htells.memberEntries h (mem_classes_of_mem_live hk)

/-- What is declared in functions is in order, down to any depth. -/
theorem InOrder.tells (h : t.InOrder files) : t.Tells files t.contents := by
  have hdepth (depth : Nat) : t.Tells files (t.contentsWithin depth) := by
    induction depth with
    | zero => exact fun _ _ _ _ _ _ _ => BodyEntries.inOrder_empty files _
    | succ depth ih => exact ih.bodyEntries h
  exact hdepth _

/-- The members of a class are in order in a tree that is. -/
theorem InOrder.memberEntries (h : t.InOrder files) {c : ClassNode} (hc : c ∈ t.classes) :
    (t.memberEntries t.contents c).InOrder files c.jvmName :=
  h.tells.memberEntries h hc

/-- What is nested in classes is in order. -/
def Nests (files : List ClassFile) (t : SourceTree) (nesting : Nesting) : Prop :=
  ∀ ids, (∀ c ∈ ids, ∀ node, t.class? c = some node → node.shape.IsNamed) →
    (∀ e ∈ (nesting ids).classes, e.InOrder files) ∧ ∀ e ∈ (nesting ids).objects, e.InOrder files

section Nesting

variable {nesting : Nesting}

/-- The entry of an object is in order when what is nested in it is. -/
theorem objectEntry_inOrder (h : t.InOrder files) (hplaces : t.PlacesClasses)
    (hnests : t.Nests files nesting) {c : ClassNode} (hc : c ∈ t.classes)
    (hnamed : c.shape.IsNamed) : (t.objectEntry nesting c).InOrder files := by
  obtain ⟨shape, hshape⟩ := hnamed
  obtain ⟨hclasses, hobjects⟩ := hnests shape.nested fun id hid =>
    hplaces.nested c hc id (by simpa [hshape, ClassShape.nested] using Or.inl hid)
  have hmembers := h.memberEntries hc
  rw [objectEntry, hshape]
  exact .intro hmembers hclasses hobjects

/-- The entry of a class is in order when what is nested in it is. -/
theorem classEntry_inOrder (h : t.InOrder files) (hplaces : t.PlacesClasses)
    (hnests : t.Nests files nesting) {c : ClassNode} (hc : c ∈ t.classes)
    (hnamed : c.shape.IsNamed) : (t.classEntry nesting c).InOrder files := by
  obtain ⟨shape, hshape⟩ := hnamed
  obtain ⟨hclasses, hobjects⟩ := hnests shape.nested fun id hid =>
    hplaces.nested c hc id (by simpa [hshape, ClassShape.nested] using Or.inl hid)
  have hmembers := h.memberEntries hc
  rw [classEntry, hshape]
  refine .intro hmembers hclasses hobjects (fun o ho => ?_) fun e he => ?_
  · obtain ⟨companion, hhead, rfl⟩ := Option.map_eq_some_iff.mp ho
    have hmem := List.mem_of_head? hhead
    obtain ⟨id, hid, hclass⟩ := List.mem_filterMap.mp (List.mem_of_mem_filter hmem)
    refine objectEntry_inOrder h hplaces hnests (mem_classes_of_mem_live hmem)
      (hplaces.nested c hc id ?_ companion hclass)
    simpa [hshape, ClassShape.companion] using Or.inr hid
  · obtain ⟨holder, hhead, rfl⟩ := Option.map_eq_some_iff.mp he
    exact h.memberEntries (mem_classes_of_mem_live (List.mem_of_head? hhead))

/-- What is nested in classes is in order, however deep the walk may go. -/
theorem nestedWithin_nests (h : t.InOrder files) (hplaces : t.PlacesClasses) (depth : Nat) :
    t.Nests files (t.nestedWithin depth) := by
  induction depth with
  | zero => exact fun _ _ => ⟨by simp [nestedWithin], by simp [nestedWithin]⟩
  | succ depth ih =>
    intro ids hids
    have hnamed {c : ClassNode} (hc : c ∈ t.live ids) : c.shape.IsNamed := by
      obtain ⟨id, hid, hclass⟩ := List.mem_filterMap.mp (List.mem_of_mem_filter hc)
      exact hids id hid c hclass
    simp only [nestedWithin, List.partition_eq_filter_filter]
    constructor
    · intro e he
      obtain ⟨c, hc, rfl⟩ := List.mem_map.mp he
      have hlive := List.mem_of_mem_filter hc
      exact classEntry_inOrder h hplaces ih (mem_classes_of_mem_live hlive) (hnamed hlive)
    · intro e he
      obtain ⟨c, hc, rfl⟩ := List.mem_map.mp he
      have hlive := List.mem_of_mem_filter hc
      exact objectEntry_inOrder h hplaces ih (mem_classes_of_mem_live hlive) (hnamed hlive)

end Nesting

/-- The report of a tree whose classes list their members in order has all its lists in order. -/
theorem InOrder.fileEntry (h : t.InOrder files) (hplaces : t.PlacesClasses) :
    t.fileEntry.InOrder files := by
  obtain ⟨hclasses, hobjects⟩ :=
    nestedWithin_nests h hplaces t.classes.length t.topLevel hplaces.topLevel
  refine ⟨hclasses, hobjects, ?_, (t.live t.facades).filterMap ( initializerEntry? t), rfl, ?_⟩
  · refine ⟨(t.live t.facades).map fun c => (c.jvmName, t.memberEntries t.contents c), ?_, ?_, ?_⟩
    · simp [SourceTree.fileEntry, List.flatMap_map]
    · simp [SourceTree.fileEntry, List.flatMap_map]
    · intro part hpart
      obtain ⟨c, hc, rfl⟩ := List.mem_map.mp hpart
      exact h.memberEntries (mem_classes_of_mem_live hc)
  · intro f hf
    obtain ⟨c, hc, hinit⟩ := List.mem_filterMap.mp hf
    obtain ⟨m, hm, hlists⟩ := h c (mem_classes_of_mem_live hc)
    obtain ⟨own, hown, horders⟩ := hlists.locals
    refine ⟨c.jvmName, m, hm, ?_⟩
    unfold initializerEntry? at hinit
    split at hinit
    · next init hshape =>
      have hmember : init ∈ c.memberFunctions := by
        simp [ClassNode.memberFunctions, hshape]
      exact anonymousFunction?_inOrder h.tells horders (o := some init)
        (fun g hg => Option.some.inj hg ▸ hown init hmember) f hinit
    · simp at hinit

end SourceTree

end LineAtlas
