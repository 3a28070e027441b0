import LineAtlas.Proofs.Tree.Homes

/-!
# Local and nested classes in their homes

The home of a local class is the function that it names, or the initializer of the class that
it names. The home of another class is the class around it or the top level.
-/

namespace LineAtlas

/-- The place that a local class names. -/
def ClassNode.origin? (node : ClassNode) : Option Origin :=
  match node.shape with
  | .localClass _ origin => some origin
  | _ => none

/-- Where a local class is declared does not depend on what stands in slots. -/
theorem ClassNode.bare_origin? (node : ClassNode) : node.bare.origin? = node.origin? := by
  cases hshape : node.shape <;> simp [origin?, bare, ClassShape.bare, hshape]

/-- The declared name does not depend on what stands in slots. -/
theorem ClassNode.bare_declaredName? (node : ClassNode) :
    node.bare.declaredName? = node.declaredName? := by
  cases hshape : node.shape <;> simp [declaredName?, bare, ClassShape.bare, hshape]

namespace Draft

/-- Where a class is declared is read off the class. -/
theorem originOf?_eq (d : Draft) (c : ClassId) :
    d.originOf? c = (d.tree.class? c).bind ClassNode.origin? := by
  rw [originOf?]
  cases d.tree.class? c <;> rfl

/-- The first class with an internal name. -/
def ownerNamed? (d : Draft) (name : String) : Option ClassNode :=
  d.tree.classes.find? (·.jvmName == name)

/-- The function of a class that a local class names. -/
def bodyIn? (t : SourceTree) (owner : ClassNode) (origin : Origin) : Option FunctionId :=
  match origin.outerMethod with
  | some signature => functionIn? t owner signature
  | none => owner.initializer?

/-- The place that a class goes to. -/
def home? (d : Draft) (c : ClassId) : Option Slot :=
  match (d.tree.class? c).map ClassNode.shape with
  | some (.localClass _ origin) =>
    (d.ownerNamed? origin.outerClass).bind fun owner =>
      (bodyIn? d.tree owner origin).map Slot.body
  | some (.named shape) =>
    match shape.declaredName.parent? with
    | none => some .topLevel
    | some parent => (d.withDeclaredName? parent).map Slot.nested
  | _ => none

/-- Why a function that a local class names is missing. -/
def bodyFault (owner : ClassNode) (origin : Origin) : PlacementFault :=
  match origin.outerMethod with
  | some signature => .outerMethodNotFound signature owner.jvmName
  | none => .noInitializer owner.jvmName

/-- Why a class has no place to go to. -/
def fault? (d : Draft) (c : ClassId) : Option PlacementFault :=
  match (d.tree.class? c).map ClassNode.shape with
  | some (.localClass _ origin) =>
    match d.ownerNamed? origin.outerClass with
    | none => some (.outerClassNotFound origin.outerClass)
    | some owner =>
      if (bodyIn? d.tree owner origin).isSome then none else some (bodyFault owner origin)
  | some (.named shape) => shape.declaredName.parent?.bind fun parent =>
    if (d.withDeclaredName? parent).isSome then none else some (.parentNotFound parent)
  | _ => none

/-- What is reported of a class that has no place to go to. -/
def blame? (d : Draft) (c : ClassId) : Option ClassFailure :=
  (d.tree.class? c).bind fun node => (d.fault? c).map (d.failureOf c node)

variable {d start : Draft}

/-- The place of a class depends on the place that it names, or else on its declared name. -/
theorem home?_eq (d : Draft) (c : ClassId) : d.home? c =
    match d.originOf? c, d.declaredName? c with
    | some origin, _ => (d.ownerNamed? origin.outerClass).bind fun owner =>
      (bodyIn? d.tree owner origin).map Slot.body
    | none, some name =>
      match name.parent? with
      | none => some .topLevel
      | some parent => (d.withDeclaredName? parent).map Slot.nested
    | none, none => none := by
  unfold home? originOf? declaredName?
  cases d.tree.class? c with
  | none => rfl
  | some node => cases hshape : node.shape <;> simp [hshape, ClassNode.declaredName?]

/-- The fault of a class is that of its way out: a local class misses an enclosing class or method,
another one its parent. -/
theorem fault?_eq (d : Draft) (c : ClassId) : d.fault? c =
    match d.originOf? c, d.declaredName? c with
    | some origin, _ =>
      match d.ownerNamed? origin.outerClass with
      | none => some (.outerClassNotFound origin.outerClass)
      | some owner =>
        if (bodyIn? d.tree owner origin).isSome then none else some (bodyFault owner origin)
    | none, some name => name.parent?.bind fun parent =>
      if (d.withDeclaredName? parent).isSome then none else some (.parentNotFound parent)
    | none, none => none := by
  unfold fault? originOf? declaredName?
  cases d.tree.class? c with
  | none => rfl
  | some node => cases hshape : node.shape <;> simp [hshape, ClassNode.declaredName?]

/-- A class is blamed for its fault. -/
theorem blame?_of_fault? {c : ClassId} {node : ClassNode} (hnode : d.tree.class? c = some node) :
    d.blame? c = (d.fault? c).map (d.failureOf c node) := by
  rw [blame?, hnode, Option.bind_some]

/-- Failing a class for want of a place reports what it is blamed for. -/
theorem fail_settles_blame? (h : Keeps start d) {c : ClassId} {node : ClassNode}
    {fault : PlacementFault} (hnode : start.tree.class? c = some node)
    (hhome : start.home? c = none) (hfault : start.fault? c = some fault) :
    Settles start.home? start.blame? d (fail c fault d).2 [c] := by
  obtain ⟨new, hnew, -⟩ := h.exists_class hnode
  refine fail_settles hhome hnew ?_
  rw [blame?_of_fault? hnode, hfault, h.failureOf hnode hnew, Option.map_some]

/-- Putting a class into its place reports nothing. -/
theorem put_settles_blame? {c : ClassId} {s : Slot} (hhome : start.home? c = some s)
    (hfault : start.fault? c = none) (hs : d.tree.HasSlot s) :
    Settles start.home? start.blame? d (put s c d).2 [c] := by
  refine put_settles hhome ?_ hs
  rw [blame?, hfault]
  simp

/-- What is declared in a class or method has the shape of a local class. -/
theorem exists_class_of_originOf? {c : ClassId} {origin : Origin}
    (h : d.originOf? c = some origin) :
    ∃ node kind, d.tree.class? c = some node ∧ node.shape = .localClass kind origin := by
  unfold originOf? at h
  split at h
  · next node hnode =>
    split at h
    · next kind own hshape =>
      obtain rfl := Option.some.inj h
      exact ⟨node, kind, hnode, hshape⟩
    · simp at h
  · simp at h

namespace Keeps

/-- Where a class is declared stays the same while classes are placed. -/
theorem originOf? (h : Keeps start d) (c : ClassId) : d.originOf? c = start.originOf? c := by
  rw [originOf?_eq, originOf?_eq]
  exact h.class?_bind ClassNode.origin? ClassNode.bare_origin? c

/-- The declared name of a class stays the same while classes are placed. -/
theorem declaredName? (h : Keeps start d) (c : ClassId) :
    d.declaredName? c = start.declaredName? c :=
  h.class?_bind ClassNode.declaredName? ClassNode.bare_declaredName? c

/-- The class with a declared name stays the same while classes are placed. -/
theorem withDeclaredName? (h : Keeps start d) (name : ClassName) :
    d.withDeclaredName? name = start.withDeclaredName? name := by
  rw [Draft.withDeclaredName?, Draft.withDeclaredName?, h.named]
  simp only [h.declaredName?]

/-- The function of a class with a signature stays the same while classes are placed. -/
theorem functionIn? (h : Keeps start d) (owner : ClassNode) (signature : Signature) :
    Draft.functionIn? d.tree owner signature = Draft.functionIn? start.tree owner signature := by
  have hany (f : FunctionId) : (d.tree.function? f).any (·.body.signature == signature)
      = (start.tree.function? f).any (·.body.signature == signature) := by
    have hmap := h.function?_map (·.body.signature == signature) (fun _ => rfl) f
    simpa [Option.any_map, Function.comp_def] using congrArg (Option.any id) hmap
  have htree : d.tree.functionTree = start.tree.functionTree := funext h.functionTree
  simp only [Draft.functionIn?, htree, hany]

end Keeps

/-- The function in which initializers run is a member. -/
theorem initializer?_mem {owner : ClassNode} {f : FunctionId} (hf : owner.initializer? = some f) :
    f ∈ owner.memberFunctions := by
  have hconstructor (h : owner.constructors.head? = some f) : f ∈ owner.memberFunctions := by
    rw [ClassNode.memberFunctions_eq, ClassNode.listedFunctions]
    exact List.mem_append_left _ (List.mem_append_left _
      (List.mem_append_right _ (List.mem_of_head? h)))
  cases hshape : owner.shape with
  | facade init =>
    obtain rfl : init = some f := by simpa [ClassNode.initializer?, hshape] using hf
    rw [ClassNode.memberFunctions_eq, hshape]
    exact List.mem_append_right _ List.mem_cons_self
  | named shape => exact hconstructor (by simpa [ClassNode.initializer?, hshape] using hf)
  | localClass kind origin =>
    exact hconstructor (by simpa [ClassNode.initializer?, hshape] using hf)
  | defaultImpls => exact hconstructor (by simpa [ClassNode.initializer?, hshape] using hf)

/-- A function that a local class names is in the tree. -/
theorem bodyIn?_hasSlot (hplaces : d.tree.PlacesFunctions) {owner : ClassNode}
    (howner : owner ∈ d.tree.classes) {origin : Origin} {f : FunctionId}
    (hf : bodyIn? d.tree owner origin = some f) : d.tree.HasSlot (.body f) := by
  unfold bodyIn? at hf
  split at hf
  · have hany := List.find?_some hf
    rw [Option.any_eq_true] at hany
    obtain ⟨node, hnode, -⟩ := hany
    exact ⟨node, hnode⟩
  · have hmember := initializer?_mem hf
    obtain ⟨o, ho⟩ := List.getElem?_of_mem howner
    have hbound := hplaces.bound_member (c := o) (f := f) (by
      have hclass : d.tree.class? o = some owner := ho
      simpa [SourceTree.membersOf, hclass] using hmember)
    exact ⟨_, List.getElem?_eq_getElem hbound⟩

/-- A local class goes into the function that it names, if its class has that function. -/
theorem attachLocalClass_settles (hplaces : start.tree.PlacesFunctions) (h : Keeps start d)
    {owner : ClassNode} {c : ClassId} {origin : Origin}
    (howner : start.ownerNamed? origin.outerClass = some owner)
    (horigin : start.originOf? c = some origin) :
    Settles start.home? start.blame? d (attachLocalClass owner c d).2 [c] := by
  obtain ⟨node, kind, hnode, hshape⟩ := exists_class_of_originOf? horigin
  have hhome : start.home? c = (bodyIn? start.tree owner origin).map Slot.body := by
    simp [home?, hnode, hshape, howner]
  have hfault : start.fault? c = if (bodyIn? start.tree owner origin).isSome then none
      else some (bodyFault owner origin) := by
    simp [fault?, hnode, hshape, howner]
  have hslot {f : FunctionId} (hf : bodyIn? start.tree owner origin = some f) :
      Settles start.home? start.blame? d (put (.body f) c d).2 [c] :=
    put_settles_blame? (by rw [hhome, hf]; rfl) (by rw [hfault, hf]; rfl)
      (h.hasSlot (bodyIn?_hasSlot hplaces (List.mem_of_find?_eq_some howner) hf))
  have hfail (hf : bodyIn? start.tree owner origin = none) :
      Settles start.home? start.blame? d (fail c (bodyFault owner origin) d).2 [c] :=
    fail_settles_blame? h hnode (by rw [hhome, hf]; rfl) (by rw [hfault, hf]; rfl)
  rw [attachLocalClass, bind_apply, get_apply]
  dsimp only
  rw [h.originOf?, horigin, Option.bind_some]
  rw [bodyFault] at hfail
  cases hmethod : origin.outerMethod with
  | none =>
    rw [hmethod] at hfail
    dsimp only at hfail ⊢
    cases hinit : owner.initializer? with
    | none => exact hfail (by rw [bodyIn?, hmethod]; exact hinit)
    | some f => exact hslot (by rw [bodyIn?, hmethod]; exact hinit)
  | some signature =>
    rw [hmethod] at hfail
    dsimp only at hfail ⊢
    rw [h.functionIn?]
    cases hfunction : functionIn? start.tree owner signature with
    | none => exact hfail (by rw [bodyIn?, hmethod]; exact hfunction)
    | some f => exact hslot (by rw [bodyIn?, hmethod]; exact hfunction)

/-- The names of the classes, and of missing ones that local classes name. -/
def ownerNames (d : Draft) : List String :=
  d.tree.classes.map ClassNode.jvmName ++ d.missingOuterClasses

/-- The local classes of a class are those that name it as theirs. -/
theorem mem_localClassesIn {name : String} {c : ClassId} :
    c ∈ d.localClassesIn name ↔
      c ∈ d.localClasses ∧ ∃ origin, d.originOf? c = some origin ∧ origin.outerClass = name := by
  rw [localClassesIn, List.mem_filter, Option.any_eq_true]
  simp only [beq_iff_eq]

/-- A missing class is one that a local class names and that is not there. -/
theorem mem_missingOuterClasses {name : String} : name ∈ d.missingOuterClasses ↔
    (∃ c ∈ d.localClasses, ∃ origin, d.originOf? c = some origin ∧ origin.outerClass = name) ∧
      name ∉ d.tree.classes.map ClassNode.jvmName := by
  rw [missingOuterClasses, List.mem_mergeSort, List.mem_eraseDups, List.mem_filter]
  simp [List.mem_filterMap, Option.map_eq_some_iff]

/-- No class is gone through twice for its local classes. -/
theorem ownerNames_nodup (hnames : (d.tree.classes.map ClassNode.jvmName).Nodup) :
    d.ownerNames.Nodup := by
  refine List.nodup_append.mpr ⟨hnames, ?_, ?_⟩
  · exact (List.mergeSort_perm _ _).nodup_iff.mpr (Lists.nodup_eraseDups _)
  · rintro name hname _ hmissing rfl
    exact (mem_missingOuterClasses.mp hmissing).2 hname

/-- Going through the names of their classes comes by every local class once. -/
theorem localClasses_perm (hnames : (d.tree.classes.map ClassNode.jvmName).Nodup)
    (hnodup : d.localClasses.Nodup)
    (horigin : ∀ c ∈ d.localClasses, ∃ origin, d.originOf? c = some origin) :
    (d.ownerNames.flatMap d.localClassesIn).Perm d.localClasses := by
  have hall : (d.ownerNames.flatMap d.localClassesIn).Nodup := by
    refine List.nodup_flatMap.mpr ⟨fun name _ => hnodup.filter _, ?_⟩
    refine (ownerNames_nodup hnames).imp fun hne c hc hc' => hne ?_
    obtain ⟨-, origin, horigin, rfl⟩ := mem_localClassesIn.mp hc
    obtain ⟨-, origin', horigin', rfl⟩ := mem_localClassesIn.mp hc'
    rw [Option.some.inj (horigin.symm.trans horigin')]
  refine (List.perm_ext_iff_of_nodup hall hnodup).mpr fun c => ⟨fun hc => ?_, fun hc => ?_⟩
  · obtain ⟨name, -, hc⟩ := List.mem_flatMap.mp hc
    exact (mem_localClassesIn.mp hc).1
  · obtain ⟨origin, hc'⟩ := horigin c hc
    refine List.mem_flatMap.mpr ⟨origin.outerClass, ?_,
      mem_localClassesIn.mpr ⟨hc, origin, hc', rfl⟩⟩
    by_cases hname : origin.outerClass ∈ d.tree.classes.map ClassNode.jvmName
    · exact List.mem_append_left _ hname
    · exact List.mem_append_right _ (mem_missingOuterClasses.mpr
        ⟨⟨c, hc, origin, hc', rfl⟩, hname⟩)

/-- A class is found by its internal name. -/
theorem ownerNamed?_eq_some (hnames : (d.tree.classes.map ClassNode.jvmName).Nodup)
    {owner : ClassNode} (howner : owner ∈ d.tree.classes) :
    d.ownerNamed? owner.jvmName = some owner := by
  cases hfind : d.ownerNamed? owner.jvmName with
  | none => simpa using List.find?_eq_none.mp hfind owner howner
  | some found =>
    have hname : found.jvmName = owner.jvmName := by simpa using List.find?_some hfind
    rw [List.inj_on_of_nodup_map hnames (List.mem_of_find?_eq_some hfind) howner hname]

/-- All local classes are put into their homes. -/
theorem placeLocalClasses_settles (hplaces : d.tree.PlacesFunctions)
    (hnames : (d.tree.classes.map ClassNode.jvmName).Nodup) :
    Settles d.home? d.blame? d (placeLocalClasses d).2 (d.ownerNames.flatMap d.localClassesIn) := by
  have hattach : Settles d.home? d.blame? d (d.tree.classes.forM (fun owner =>
      (d.localClassesIn owner.jvmName).forM (attachLocalClass owner)) d).2
      (d.tree.classes.flatMap fun owner => d.localClassesIn owner.jvmName) := by
    refine forM_settles _ _ d.tree.classes d (fun owner howner d' hkeeps => ?_)
      (Keeps.refl d)
    refine forM_settles_each _ _ d (fun c hc d'' hkeeps' => ?_) hkeeps
    obtain ⟨-, origin, horigin, hname⟩ := mem_localClassesIn.mp hc
    refine attachLocalClass_settles hplaces hkeeps' ?_ horigin
    rw [hname]
    exact ownerNamed?_eq_some hnames howner
  have hmissing : Settles d.home? d.blame? (d.tree.classes.forM (fun owner =>
      (d.localClassesIn owner.jvmName).forM (attachLocalClass owner)) d).2
      (placeLocalClasses d).2 (d.missingOuterClasses.flatMap d.localClassesIn) := by
    refine forM_settles _ _ d.missingOuterClasses d (fun name hname d' hkeeps => ?_)
      hattach.keeps
    refine forM_settles_each _ _ d (fun c hc d'' hkeeps' => ?_) hkeeps
    obtain ⟨-, origin, horigin, rfl⟩ := mem_localClassesIn.mp hc
    obtain ⟨node, kind, hnode, hshape⟩ := exists_class_of_originOf? horigin
    have howner : d.ownerNamed? origin.outerClass = none := by
      refine List.find?_eq_none.mpr fun owner howner hsame => ?_
      exact (mem_missingOuterClasses.mp hname).2
        (List.mem_map.mpr ⟨owner, howner, by simpa using hsame⟩)
    exact fail_settles_blame? hkeeps' hnode (by simp [home?, hnode, hshape, howner])
      (by simp [fault?, hnode, hshape, howner])
  rw [ownerNames, List.flatMap_append, List.flatMap_map]
  exact hattach.trans hmissing

/-- Classes with names of their own, the outer ones first. -/
def byDepth (d : Draft) : List ClassId :=
  d.named.mergeSort fun a b =>
    ((d.declaredName? a).map ClassName.depth).getD 0
      ≤ ((d.declaredName? b).map ClassName.depth).getD 0

/-- Classes that come with the outer ones first are placed in the order in which they come. -/
theorem placeNestedClasses_of_pairwise {d : Draft}
    (h : d.named.Pairwise fun a b => ((d.declaredName? a).map ClassName.depth).getD 0
      ≤ ((d.declaredName? b).map ClassName.depth).getD 0) :
    placeNestedClasses d = d.named.forM placeNestedClass d := by
  have hsorted : d.byDepth = d.named :=
    List.mergeSort_of_pairwise (h.imp fun hle => decide_eq_true hle)
  rw [placeNestedClasses, bind_apply, get_apply]
  exact congrArg (fun ids => ids.forM placeNestedClass d) hsorted

/-- A class with a name of its own goes into the class around it or to the top level. -/
theorem placeNestedClass_settles (h : Keeps start d) {c : ClassId} {node : ClassNode}
    {shape : NamedShape} (hnode : start.tree.class? c = some node)
    (hshape : node.shape = .named shape)
    (hnamed : ∀ o ∈ start.named, start.tree.HasSlot (.nested o)) :
    Settles start.home? start.blame? d (placeNestedClass c d).2 [c] := by
  have hname : d.declaredName? c = some shape.declaredName := by
    rw [h.declaredName?]
    simp [declaredName?, hnode, ClassNode.declaredName?, hshape]
  rw [placeNestedClass, bind_apply, get_apply]
  dsimp only
  rw [hname]
  dsimp only
  cases hparent : shape.declaredName.parent? with
  | none =>
    exact put_settles_blame? (s := .topLevel) (by simp [home?, hnode, hshape, hparent])
      (by simp [fault?, hnode, hshape, hparent]) trivial
  | some parent =>
    dsimp only
    rw [h.withDeclaredName?]
    cases howner : start.withDeclaredName? parent with
    | none =>
      exact fail_settles_blame? h hnode (by simp [home?, hnode, hshape, hparent, howner])
        (by simp [fault?, hnode, hshape, hparent, howner])
    | some o =>
      have hmem : o ∈ start.named := List.mem_reverse.mp (List.mem_of_find?_eq_some howner)
      exact put_settles_blame? (s := .nested o) (by simp [home?, hnode, hshape, hparent, howner])
        (by simp [fault?, hnode, hshape, hparent, howner]) (h.hasSlot (hnamed o hmem))

/-- All classes with names of their own are put into their homes. -/
theorem placeNestedClasses_settles (h : Keeps start d)
    (hnamed : ∀ o ∈ start.named, start.tree.HasSlot (.nested o)) :
    Settles start.home? start.blame? d (placeNestedClasses d).2 start.byDepth := by
  have hrun : (placeNestedClasses d).2 = (start.byDepth.forM placeNestedClass d).2 := by
    rw [placeNestedClasses, bind_apply, get_apply, byDepth]
    simp only [h.declaredName?, h.named]
  rw [hrun]
  refine forM_settles_each _ _ start (fun c hc d' hkeeps => ?_) h
  obtain ⟨node, hnode, shape, hshape⟩ := hnamed c (List.mem_mergeSort.mp hc)
  exact placeNestedClass_settles hkeeps hnode hshape hnamed

end Draft

end LineAtlas
