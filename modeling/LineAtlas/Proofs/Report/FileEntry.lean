import LineAtlas.Proofs.Report.Shown

/-!
# What the entry of a file shows

The entry of a source file lists the functions of its facades, but for constructors, and the
classes of the top level with what is in them. It shows every class and every function that the
walk down from these comes to, and nothing else.
-/

namespace LineAtlas.SourceTree

open Report

variable {t : SourceTree}

/-- An orderly tree whose report leaves out nothing at the top level of a file: nothing there has
a constructor. -/
structure Sound (t : SourceTree) : Prop extends Orderly t where
  /-- The top level of a file has no constructor. -/
  plainFacade : ∀ c ∈ t.facades, ∀ node, t.class? c = some node → node.constructors = []

/-- How the report shows a class by itself: a facade is the file. -/
def nameItems (t : SourceTree) (c : ClassId) : List Item :=
  (t.class? c).toList.flatMap fun node =>
    match node.shape with
    | .facade _ => []
    | _ => [node.item]

/-- What the report shows of a class: the class and the methods of all its functions. -/
def itemsOf (t : SourceTree) (c : ClassId) : List Item :=
  t.nameItems c ++ (t.forest c).flatMap t.methodItems

/-- The functions of a facade that the entry of a file lists. -/
def fileMembersOf (t : SourceTree) (c : ClassId) : List FunctionId :=
  (t.class? c).toList.flatMap ClassNode.fileFunctions

/-- The functions that the entry of a file lists, or an entry of a class in it. -/
def listed (t : SourceTree) : List FunctionId :=
  t.facadesShown.flatMap t.fileMembersOf ++ t.namedShown.flatMap t.membersOf

namespace Orderly

/-- Several initializers show what they show one by one. -/
theorem joinInitializers_items (fs : List AnonymousFunction) :
    (AnonymousFunction.itemsOf? (joinInitializers fs)).Perm
      (fs.flatMap AnonymousFunction.items) := by
  cases fs with
  | nil => exact List.Perm.refl _
  | cons first others =>
    obtain ⟨signature, lines, ⟨functions, classes, lambdas, anonymous, objects⟩⟩ := first
    simp only [joinInitializers, AnonymousFunction.itemsOf?, AnonymousFunction.items,
      BodyEntries.items, AnonymousFunction.itemsOf_eq_flatMap, List.flatMap_append,
      List.flatMap_cons, List.cons_append]
    refine List.Perm.cons _ ?_
    rw [← Multiset.coe_eq_coe]
    simp only [← Multiset.coe_add]
    abel

/-- The entry of an initializer shows what the facade has there. -/
theorem initializerEntry?_items (h : t.Orderly) {node : ClassNode} (hnode : node ∈ t.classes) :
    (t.initializerEntry? node).toList.flatMap AnonymousFunction.items
      = node.shape.initializers.flatMap (t.functionItems t.contents) := by
  cases hshape : node.shape with
  | facade init =>
    cases init with
    | none => simp [hshape, initializerEntry?, ClassShape.initializers]
    | some f =>
      have hunnamed : t.isAnonymous f = true := by
        refine h.unnamed node hnode f (List.mem_append_right _ ?_)
        rw [hshape]
        exact List.mem_cons_self
      simp only [hshape, initializerEntry?, ClassShape.initializers, anonymousFunction?_items,
        List.flatMap_singleton, h.functionItems_eq hunnamed]
  | named shape | localClass kind origin | defaultImpls =>
    simp [hshape, initializerEntry?, ClassShape.initializers]

/-- The facades of a file show their functions, properties and initializers in three lists. -/
theorem facades_items (h : t.Orderly) {facades : List ClassNode}
    (hfacades : ∀ node ∈ facades, node ∈ t.classes) :
    (FunctionEntry.itemsOf ((facades.map (t.memberEntries t.contents)).flatMap (·.functions))
      ++ PropertyEntry.itemsOf ((facades.map (t.memberEntries t.contents)).flatMap (·.properties))
      ++ AnonymousFunction.itemsOf? (joinInitializers
        (facades.filterMap t.initializerEntry?))).Perm
    ((facades.flatMap ClassNode.fileFunctions).flatMap (t.functionItems t.contents)) := by
  have hjoin := joinInitializers_items (facades.filterMap t.initializerEntry?)
  rw [Lists.flatMap_filterMap] at hjoin
  refine (hjoin.append_left _).trans ?_
  rw [FunctionEntry.itemsOf_eq_flatMap, PropertyEntry.itemsOf_eq_flatMap, List.flatMap_map,
    List.flatMap_map, List.flatMap_assoc, List.flatMap_assoc, List.flatMap_assoc]
  refine ((List.flatMap_append_perm _ _ _).append_right _).trans
    ((List.flatMap_append_perm _ _ _).trans (List.Perm.flatMap_left _ fun node hnode => ?_))
  have hclass := hfacades node hnode
  have hproperties := h.propertyEntries_items t.contents fun f hf =>
    h.unnamed node hclass f (List.mem_append_left _ hf)
  have hfunctions := functionEntries_items (t := t) t.contents node.functions
  rw [FunctionEntry.itemsOf_eq_flatMap] at hfunctions
  rw [PropertyEntry.itemsOf_eq_flatMap] at hproperties
  rw [h.initializerEntry?_items hclass, ClassNode.fileFunctions, List.flatMap_append,
    List.flatMap_append, ← hproperties]
  exact (hfunctions.append_right _).append_right _

/-- What a class shows of itself and its members, when it has no initializer. -/
theorem listedItems_perm (h : t.Orderly) {c : ClassId}
    (hinit : ∀ node, t.class? c = some node → node.shape.initializers = []) :
    (t.listedItems c).Perm
      (t.classItems c ++ (t.membersOf c).flatMap (t.functionItems t.contents)) := by
  cases hclass : t.class? c with
  | none => simp [listedItems, classItems, membersOf, hclass]
  | some node =>
    have hmembers := h.memberEntries_items t.contents
      (List.mem_of_getElem? hclass)
    simp only [listedItems, classItems, membersOf, hclass, Option.toList_some,
      List.flatMap_singleton, List.map_singleton, List.singleton_append,
      ClassNode.memberFunctions_eq, hinit node hclass, List.append_nil]
    exact hmembers.cons _

/-- Only a facade is shown without its name. -/
theorem nameItems_eq_classItems {c : ClassId}
    (hshape : ∀ node, t.class? c = some node → ¬ node.shape.IsFacade) :
    t.nameItems c = t.classItems c := by
  cases hclass : t.class? c with
  | none => simp [nameItems, classItems, hclass]
  | some node =>
    have hnode := hshape node hclass
    simp only [nameItems, classItems, hclass, Option.toList_some, List.flatMap_singleton,
      List.map_singleton]
    cases hcase : node.shape with
    | facade init => exact absurd ⟨init, hcase⟩ hnode
    | named shape | localClass kind origin | defaultImpls => rfl

/-- All classes that a walk comes to go by their names, but for facades. -/
theorem nameItems_classesWith (h : t.Orderly) (functions : List FunctionId) :
    (t.classesWith functions).flatMap t.nameItems
      = t.namedShown.flatMap t.classItems
        ++ (functions.flatMap t.liveClassesOf).flatMap t.classItems := by
  have hfacades : t.facadesShown.flatMap t.nameItems = [] := by
    rw [List.flatMap_eq_nil_iff]
    intro c hc
    cases hclass : t.class? c with
    | none => simp [nameItems, hclass]
    | some node =>
      obtain ⟨init, hshape⟩ := h.facade c (List.mem_of_mem_filter hc) node hclass
      simp [nameItems, hclass, hshape]
  have hnamed : t.namedShown.flatMap t.nameItems = t.namedShown.flatMap t.classItems := by
    refine List.flatMap_congr fun c hc => nameItems_eq_classItems fun node hnode => ?_
    rintro ⟨init, hfacade⟩
    rcases h.isNamed_or_defaultImpls hc hnode with ⟨shape, hshape⟩ | hshape
    · simp [hshape] at hfacade
    · simp [hshape] at hfacade
  have hlocal : (functions.flatMap t.liveClassesOf).flatMap t.nameItems
      = (functions.flatMap t.liveClassesOf).flatMap t.classItems := by
    refine List.flatMap_congr fun c hc => nameItems_eq_classItems fun node hnode => ?_
    rintro ⟨init, hfacade⟩
    obtain ⟨f, -, hc⟩ := List.mem_flatMap.mp hc
    obtain ⟨kind, origin, hshape⟩ := h.isLocal_of_mem_liveClassesOf hc hnode
    simp [hshape] at hfacade
  rw [classesWith, List.flatMap_append, List.flatMap_append, hfacades, hnamed, hlocal,
    List.nil_append]

/-- The functions that are listed are members of classes that are shown. -/
theorem listed_subperm (t : SourceTree) :
    t.listed.Subperm ((t.facadesShown ++ t.namedShown).flatMap t.membersOf) := by
  rw [listed, List.flatMap_append]
  refine (Lists.Subperm.flatMap_left _ fun c _ => ?_).append (List.Subperm.refl _)
  exact Lists.Subperm.flatMap_left _ fun node _ => node.fileFunctions_sublist.subperm

/-- The report of an orderly tree shows the classes that a walk comes to and what is in the
functions that are listed. -/
theorem fileEntry_items_listed (h : t.Orderly) :
    t.fileEntry.items.Perm (t.namedShown.flatMap t.classItems
      ++ t.listed.flatMap (t.functionItems t.contents)) := by
  have hfacades : (FunctionEntry.itemsOf t.fileEntry.functions
        ++ PropertyEntry.itemsOf t.fileEntry.properties
        ++ AnonymousFunction.itemsOf? t.fileEntry.init).Perm
      ((t.facadesShown.flatMap t.fileMembersOf).flatMap (t.functionItems t.contents)) := by
    have hmembers : t.facadesShown.flatMap t.fileMembersOf
        = (t.live t.facades).flatMap ClassNode.fileFunctions := (live_flatMap t _ _).symm
    rw [hmembers]
    refine h.facades_items fun node hnode => ?_
    obtain ⟨c, -, hnode⟩ := List.mem_filterMap.mp (List.mem_of_mem_filter hnode)
    exact List.mem_of_getElem? hnode
  have hnamed : (nestedItems t.nested t.topLevel).Perm
      (t.namedShown.flatMap t.classItems
        ++ (t.namedShown.flatMap t.membersOf).flatMap (t.functionItems t.contents)) := by
    refine (h.nestedItems_perm t.classes.length fun c hc =>
      PlacesClasses.IsNested.of_topLevel hc).trans ?_
    rw [List.flatMap_assoc (l := t.namedShown)]
    refine (List.Perm.flatMap_left _ fun c hc => h.listedItems_perm fun node hnode => ?_).trans
      (List.flatMap_append_perm _ t.classItems _).symm
    rcases h.isNamed_or_defaultImpls hc hnode with hshape | hshape
    · exact hshape.initializers_eq_nil
    · rw [hshape]
      rfl
  have hsplit : t.fileEntry.items.Perm (nestedItems t.nested t.topLevel
      ++ (FunctionEntry.itemsOf t.fileEntry.functions
        ++ PropertyEntry.itemsOf t.fileEntry.properties
        ++ AnonymousFunction.itemsOf? t.fileEntry.init)) := by
    have hclasses : t.fileEntry.classes = (t.nested t.topLevel).classes := rfl
    have hobjects : t.fileEntry.objects = (t.nested t.topLevel).objects := rfl
    rw [FileEntry.items, nestedItems, hclasses, hobjects, ← Multiset.coe_eq_coe]
    simp only [← Multiset.coe_add]
    abel
  refine hsplit.trans ((hnamed.append hfacades).trans ?_)
  rw [listed, List.flatMap_append, List.append_assoc]
  exact List.perm_append_comm.append_left _

/-- The report of an orderly tree shows exactly the classes and functions that the walk over it
comes to. -/
theorem fileEntry_items_perm (h : t.Orderly) :
    t.fileEntry.items.Perm ((t.classesWith (t.functionsFrom t.listed)).flatMap t.nameItems
      ++ (t.functionsFrom t.listed).flatMap t.methodItems) := by
  have hinit : t.KeepsInitializers := fun f hf c hc node hnode =>
    (h.localClass f hf c hc node hnode).initializers_eq_nil
  have hwalk := contents_items h.toLeavesHelpers hinit
    (h.level_inside_eq_nil (listed_subperm t))
  have hown : ((t.functionsFrom t.listed).flatMap t.ownItems).Perm
      ((t.functionsFrom t.listed).flatMap t.methodItems
        ++ ((t.functionsFrom t.listed).flatMap t.liveClassesOf).flatMap t.classItems) := by
    rw [List.flatMap_assoc (l := t.functionsFrom t.listed)]
    exact (List.flatMap_append_perm _ t.methodItems _).symm
  refine (h.fileEntry_items_listed.trans ((hwalk.trans hown).append_left _)).trans ?_
  rw [h.nameItems_classesWith, List.append_assoc]
  exact List.perm_append_comm.append_left _

end Orderly

namespace Sound

/-- Where nothing at the top level of a file has a constructor, all members of shown classes are
listed. -/
theorem listed_eq (h : t.Sound) :
    t.listed = (t.facadesShown ++ t.namedShown).flatMap t.membersOf := by
  rw [listed, List.flatMap_append]
  congr 1
  refine List.flatMap_congr fun c hc => ?_
  cases hclass : t.class? c with
  | none => simp [fileMembersOf, membersOf, hclass]
  | some node =>
    have hconstructors := h.plainFacade c (List.mem_of_mem_filter hc) node hclass
    simp [fileMembersOf, membersOf, hclass, ClassNode.fileFunctions,
      ClassNode.memberFunctions_eq, ClassNode.listedFunctions, hconstructors]

/-- The report of a sound tree shows exactly the classes that are shown, each with all its
functions. -/
theorem fileEntry_items (h : t.Sound) :
    t.fileEntry.items.Perm (t.shown.flatMap t.itemsOf) := by
  have hfrom : t.functionsFrom t.listed = t.functionsShown := by
    rw [h.listed_eq]
    rfl
  have hitems : (t.shown.flatMap t.itemsOf).Perm
      (t.shown.flatMap t.nameItems ++ (t.shown.flatMap t.forest).flatMap t.methodItems) := by
    rw [List.flatMap_assoc]
    exact (List.flatMap_append_perm _ t.nameItems _).symm
  have hwalk := h.fileEntry_items_perm
  rw [hfrom] at hwalk
  exact (hwalk.trans ((h.functionsShown_perm_forest.flatMap_right _).append_left _)).trans
    hitems.symm

end Sound

end LineAtlas.SourceTree
