import LineAtlas.Proofs.Report.Items
import LineAtlas.Proofs.Tree.Forest
import LineAtlas.Report.OfTree
import Mathlib.Algebra.Order.Group.Multiset
import Mathlib.Tactic.Abel

/-!
# What a walk over functions shows

The entry of a function shows its method, the method of its helper, and what is declared in the
bodies of both. What is declared in a body is local functions, and classes that did not fail
with their members.
-/

namespace LineAtlas

open Report

/-- How the report shows a function. -/
def FunctionNode.item (f : FunctionNode) : Item :=
  .method f.body.signature.display f.body.lines.slots

/-- How the report shows a class. -/
def ClassNode.item (c : ClassNode) : Item := .ofClass c.jvmName

namespace SourceTree

variable {t : SourceTree} {contents : Contents}

/-- Functions that the report shows without a name have no helper. -/
structure LeavesHelpers (t : SourceTree) : Prop where
  /-- Functions without a name have no helper. -/
  anonymous : ∀ f node, t.function? f = some node → node.kind = .anonymous →
    node.defaultValues = none
  /-- Helpers have no name. -/
  helper : ∀ f node helper, t.function? f = some node → node.defaultValues = some helper →
    t.isAnonymous helper = true
  /-- Accessors and initializers have no name. -/
  unnamed : ∀ c ∈ t.classes, ∀ f ∈ c.properties.flatMap PropertyNode.accessors
    ++ c.shape.initializers, t.isAnonymous f = true

/-- The helper of a function. -/
def helperOf (t : SourceTree) (f : FunctionId) : List FunctionId :=
  (t.function? f).toList.flatMap (·.defaultValues.toList)

/-- The local functions of a function. -/
def localsOf (t : SourceTree) (f : FunctionId) : List FunctionId :=
  (t.function? f).toList.flatMap FunctionNode.locals

/-- Right below a function are its helper and its local functions. -/
theorem below_eq (f : FunctionId) : t.below f = t.helperOf f ++ t.localsOf f := by
  cases hnode : t.function? f with
  | none => simp [below, helperOf, localsOf, hnode]
  | some node => simp [below, helperOf, localsOf, hnode, FunctionNode.below]

/-- A function and its helper. -/
def withHelper (t : SourceTree) (f : FunctionId) : List FunctionId := f :: t.helperOf f

/-- What a function shows without its helper. -/
def bodyItems (t : SourceTree) (contents : Contents) (f : FunctionId) : List Item :=
  (t.function? f).toList.flatMap fun node => node.item :: (contents node).items

/-- What a function shows together with its helper. -/
def functionItems (t : SourceTree) (contents : Contents) (f : FunctionId) : List Item :=
  (t.withHelper f).flatMap (t.bodyItems contents)

/-- A function without a name has no helper. -/
theorem LeavesHelpers.helperOf_eq_nil (h : t.LeavesHelpers) {f : FunctionId}
    (hf : t.isAnonymous f = true) : t.helperOf f = [] := by
  cases hnode : t.function? f with
  | none => simp [helperOf, hnode]
  | some node =>
    have hkind : node.kind = .anonymous := by simpa [isAnonymous, hnode] using hf
    simp [helperOf, hnode, h.anonymous f node hnode hkind]

/-- A function without a name shows only itself and its body. -/
theorem LeavesHelpers.functionItems_eq (h : t.LeavesHelpers) {f : FunctionId}
    (hf : t.isAnonymous f = true) : t.functionItems contents f = t.bodyItems contents f := by
  rw [functionItems, withHelper, h.helperOf_eq_nil hf, List.flatMap_singleton]

/-- The entry of a function without a name shows the function and its body. -/
theorem anonymousFunction?_items (f : FunctionId) :
    (t.anonymousFunction? contents f).toList.flatMap AnonymousFunction.items
      = t.bodyItems contents f := by
  cases hnode : t.function? f with
  | none => simp [anonymousFunction?, bodyItems, hnode]
  | some node =>
    simp [anonymousFunction?, bodyItems, hnode, AnonymousFunction.items, FunctionNode.item]

/-- The entry of a function shows the function and its helper, each with its body. -/
theorem functionEntry?_items (f : FunctionId) :
    ((t.functionEntry? contents f).toList.flatMap FunctionEntry.items).Perm
      (t.functionItems contents f) := by
  cases hnode : t.function? f with
  | none => simp [functionItems, functionEntry?, withHelper, helperOf, bodyItems, hnode]
  | some node =>
    have hhelper : (node.defaultValues.bind (t.anonymousFunction? contents)).toList.flatMap
        AnonymousFunction.items = (t.helperOf f).flatMap (t.bodyItems contents) := by
      cases hvalues : node.defaultValues with
      | none => simp [helperOf, hnode, hvalues]
      | some helper =>
        rw [Option.bind_some, anonymousFunction?_items]
        simp [helperOf, hnode, hvalues]
    have hbody : t.bodyItems contents f = node.item :: (contents node).items := by
      simp [bodyItems, hnode]
    unfold functionEntry?
    rw [hnode, Option.map_some, Option.toList_some, List.flatMap_singleton,
      FunctionEntry.items, AnonymousFunction.itemsOf?_eq_flatMap, hhelper, functionItems,
      withHelper, List.flatMap_cons, hbody]
    exact (List.perm_append_comm).cons _

/-- The entries of functions show the functions and their helpers. -/
theorem functionEntries_items (contents : Contents) (fs : List FunctionId) :
    (FunctionEntry.itemsOf (t.functionEntries contents fs)).Perm
      (fs.flatMap (t.functionItems contents)) := by
  rw [FunctionEntry.itemsOf_eq_flatMap, functionEntries, Lists.flatMap_filterMap]
  exact List.Perm.flatMap_left fs fun f _ => functionEntry?_items f

/-- Functions without names show what they would show with them. -/
theorem LeavesHelpers.anonymousFunctions_items (h : t.LeavesHelpers) {fs : List FunctionId}
    (hfs : ∀ f ∈ fs, t.isAnonymous f = true) :
    AnonymousFunction.itemsOf (fs.filterMap (t.anonymousFunction? contents))
      = fs.flatMap (t.functionItems contents) := by
  rw [AnonymousFunction.itemsOf_eq_flatMap, Lists.flatMap_filterMap]
  refine List.flatMap_congr fun f hf => ?_
  rw [anonymousFunction?_items, h.functionItems_eq (hfs f hf)]

/-- A property shows its accessors. -/
theorem LeavesHelpers.propertyEntry_items (h : t.LeavesHelpers) {p : PropertyNode}
    (hp : ∀ f ∈ p.accessors, t.isAnonymous f = true) :
    (t.propertyEntry contents p).items = p.accessors.flatMap (t.functionItems contents) := by
  have haccessor (accessor : Option FunctionId)
      (hall : ∀ f ∈ accessor.toList, t.isAnonymous f = true) :
      AnonymousFunction.itemsOf? (accessor.bind (t.anonymousFunction? contents))
        = accessor.toList.flatMap (t.functionItems contents) := by
    cases accessor with
    | none => rfl
    | some f =>
      rw [Option.bind_some, AnonymousFunction.itemsOf?_eq_flatMap, anonymousFunction?_items,
        Option.toList_some, List.flatMap_singleton,
        h.functionItems_eq (hall f List.mem_cons_self)]
  rw [propertyEntry, PropertyEntry.items, PropertyNode.accessors, List.flatMap_append,
    haccessor p.getter fun f hf => hp f (List.mem_append_left _ hf),
    haccessor p.setter fun f hf => hp f (List.mem_append_right _ hf)]

/-- The entries of properties show their accessors. -/
theorem LeavesHelpers.propertyEntries_items (h : t.LeavesHelpers) (contents : Contents)
    {ps : List PropertyNode}
    (hps : ∀ f ∈ ps.flatMap PropertyNode.accessors, t.isAnonymous f = true) :
    PropertyEntry.itemsOf (ps.map (t.propertyEntry contents))
      = (ps.flatMap PropertyNode.accessors).flatMap (t.functionItems contents) := by
  rw [PropertyEntry.itemsOf_eq_flatMap, List.flatMap_map, List.flatMap_assoc]
  refine List.flatMap_congr fun p hp => h.propertyEntry_items fun f hf => ?_
  exact hps f (List.mem_flatMap.mpr ⟨p, hp, hf⟩)

/-- The members of a class show its functions. The initializer is not among them. -/
theorem LeavesHelpers.memberEntries_items (h : t.LeavesHelpers) (contents : Contents)
    {c : ClassNode} (hc : c ∈ t.classes) :
    (t.memberEntries contents c).items.Perm
      (c.listedFunctions.flatMap (t.functionItems contents)) := by
  rw [memberEntries, MemberEntries.items, ClassNode.listedFunctions, List.flatMap_append,
    List.flatMap_append,
    h.propertyEntries_items contents fun f hf => h.unnamed c hc f (List.mem_append_left _ hf)]
  exact ((functionEntries_items contents c.functions).append
    (functionEntries_items contents c.constructors)).append_right _

/-- Whether a class is in the tree and did not fail. -/
def isLive (t : SourceTree) (c : ClassId) : Bool := (t.class? c).any (!·.failed)

/-- The classes in the body of a function. -/
def classesOf (t : SourceTree) (f : FunctionId) : List ClassId :=
  (t.function? f).toList.flatMap FunctionNode.classes

/-- The classes right below a function that did not fail. -/
def liveClassesOf (t : SourceTree) (f : FunctionId) : List ClassId :=
  ((t.function? f).toList.flatMap FunctionNode.classes).filter t.isLive

/-- What classes show is what those of them show that did not fail. -/
theorem live_flatMap {β : Type} (t : SourceTree) (ids : List ClassId) (g : ClassNode → List β) :
    (t.live ids).flatMap g
      = (ids.filter t.isLive).flatMap fun c => (t.class? c).toList.flatMap g := by
  induction ids with
  | nil => rfl
  | cons c rest ih =>
    have hrest : ((rest.filterMap t.class?).filter (!·.failed)).flatMap g
        = (rest.filter t.isLive).flatMap fun c => (t.class? c).toList.flatMap g := ih
    cases hnode : t.class? c with
    | none =>
      have hdead : t.isLive c = false := by simp [isLive, hnode]
      rw [live, List.filterMap_cons_none hnode, hrest, List.filter_cons_of_neg (by simp [hdead])]
    | some node =>
      rw [live, List.filterMap_cons_some hnode]
      cases hfailed : node.failed with
      | true =>
        have hdead : t.isLive c = false := by simp [isLive, hnode, hfailed]
        rw [List.filter_cons_of_neg (by simp [hfailed]), hrest,
          List.filter_cons_of_neg (by simp [hdead])]
      | false =>
        have hlive : t.isLive c = true := by simp [isLive, hnode, hfailed]
        rw [List.filter_cons_of_pos (by simp [hfailed]), List.filter_cons_of_pos hlive,
          List.flatMap_cons, List.flatMap_cons, hrest, hnode, Option.toList_some,
          List.flatMap_singleton]

/-- Lists of classes below a function body are told apart by how the classes are shown, and
each class is shown with its members. -/
theorem bodyEntries_classes_items (contents : Contents) (classes : List ClassNode) :
    (LocalClassEntry.itemsOf (classes.filterMap fun c =>
        (localName? c).map fun name => ⟨name, c.jvmName, t.memberEntries contents c⟩)
      ++ AnonymousClass.itemsOf (((classes.filter fun c =>
        (localName? c).isNone).filter isLambdaClass).map (t.anonymousClass contents))
      ++ AnonymousClass.itemsOf (((classes.filter fun c =>
        (localName? c).isNone).filter (!isLambdaClass ·)).map (t.anonymousClass contents))).Perm
    (classes.flatMap fun c => c.item :: (t.memberEntries contents c).items) := by
  induction classes with
  | nil => exact List.Perm.refl _
  | cons c rest ih =>
    rw [List.flatMap_cons]
    refine List.Perm.trans ?_ (ih.append_left _)
    cases hname : localName? c with
    | some name =>
      simp only [List.filterMap_cons, hname, Option.map_some, LocalClassEntry.itemsOf,
        LocalClassEntry.items, List.filter_cons, Option.isNone_some, Bool.false_eq_true, if_false,
        ClassNode.item, List.append_assoc, List.cons_append]
      exact List.Perm.refl _
    | none =>
      cases hlambda : isLambdaClass c with
      | true =>
        simp only [List.filterMap_cons, hname, Option.map_none, List.filter_cons, hlambda,
          Option.isNone_none, if_true, Bool.not_true, Bool.false_eq_true, if_false,
          List.map_cons, AnonymousClass.itemsOf, anonymousClass, AnonymousClass.items,
          ClassNode.item]
        rw [← Multiset.coe_eq_coe]
        simp only [← Multiset.coe_add]
        abel
      | false =>
        simp only [List.filterMap_cons, hname, Option.map_none, List.filter_cons, hlambda,
          Option.isNone_none, if_true, Bool.not_false, Bool.false_eq_true, if_false,
          List.map_cons, AnonymousClass.itemsOf, anonymousClass, AnonymousClass.items,
          ClassNode.item]
        rw [← Multiset.coe_eq_coe]
        simp only [← Multiset.coe_add]
        abel

/-- The functions right inside the body of a function: local functions and the members of
local classes. -/
def inside (t : SourceTree) (f : FunctionId) : List FunctionId :=
  t.localsOf f ++ (t.liveClassesOf f).flatMap t.membersOf

/-- The functions right inside the bodies of a function and its helper. -/
def insideBoth (t : SourceTree) (f : FunctionId) : List FunctionId :=
  (t.withHelper f).flatMap t.inside

/-- What is right inside a function, each with its helper. -/
def insideWithHelpers (t : SourceTree) (f : FunctionId) : List FunctionId :=
  (t.inside f).flatMap t.withHelper

/-- How the report shows a method. -/
def methodItems (t : SourceTree) (f : FunctionId) : List Item :=
  (t.function? f).toList.map FunctionNode.item

/-- How the report shows a class, without its members. -/
def classItems (t : SourceTree) (c : ClassId) : List Item :=
  (t.class? c).toList.map ClassNode.item

/-- What the report shows of a function before it goes inside: methods and classes. -/
def ownItems (t : SourceTree) (f : FunctionId) : List Item :=
  t.methodItems f ++ (t.liveClassesOf f).flatMap t.classItems

/-- Classes in function bodies have no initializer of a file's top level. -/
def KeepsInitializers (t : SourceTree) : Prop :=
  ∀ f ∈ t.functions, ∀ c ∈ f.classes, ∀ node, t.class? c = some node →
    node.shape.initializers = []

/-- The entries of a body show its classes, and the functions right inside it. -/
theorem bodyEntries_items (h : t.LeavesHelpers) (hinit : t.KeepsInitializers)
    {f : FunctionId} {node : FunctionNode} (hnode : t.function? f = some node) :
    (t.bodyEntries contents node).items.Perm
      ((t.liveClassesOf f).flatMap t.classItems
        ++ (t.inside f).flatMap (t.functionItems contents)) := by
  have hclasses : ((t.live node.classes).flatMap fun c =>
        c.item :: (t.memberEntries contents c).items).Perm
      ((t.liveClassesOf f).flatMap t.classItems
        ++ ((t.liveClassesOf f).flatMap t.membersOf).flatMap (t.functionItems contents)) := by
    rw [live_flatMap, List.flatMap_assoc]
    have hlive : t.liveClassesOf f = node.classes.filter t.isLive := by
      rw [liveClassesOf, hnode, Option.toList_some, List.flatMap_singleton]
    rw [hlive]
    refine List.Perm.trans (List.Perm.flatMap_left _ fun c hc => ?_)
      (List.flatMap_append_perm _ t.classItems _).symm
    cases hclass : t.class? c with
    | none => simp [classItems, membersOf, hclass]
    | some owner =>
      have howner : owner ∈ t.classes := List.mem_of_getElem? hclass
      have hnone : owner.shape.initializers = [] :=
        hinit node (List.mem_of_getElem? hnode) c (List.mem_of_mem_filter hc) owner hclass
      rw [classItems, membersOf, hclass, Option.toList_some, List.flatMap_singleton,
        List.flatMap_singleton, List.map_singleton, List.singleton_append,
        ClassNode.memberFunctions_eq, hnone, List.append_nil]
      exact (h.memberEntries_items contents howner).cons _
  have hlocals : (FunctionEntry.itemsOf (t.functionEntries contents
        (node.locals.filter (!t.isAnonymous ·)))
      ++ AnonymousFunction.itemsOf ((node.locals.filter t.isAnonymous).filterMap
        (t.anonymousFunction? contents))).Perm
      ((t.localsOf f).flatMap (t.functionItems contents)) := by
    have heq : t.localsOf f = node.locals := by
      rw [localsOf, hnode, Option.toList_some, List.flatMap_singleton]
    rw [heq, h.anonymousFunctions_items fun g hg => List.of_mem_filter hg]
    refine ((functionEntries_items contents _).append_right _).trans ?_
    rw [← List.flatMap_append]
    refine List.Perm.flatMap_right _ (List.perm_append_comm.trans ?_)
    exact List.filter_append_perm t.isAnonymous node.locals
  have hall := hlocals.append
    ((bodyEntries_classes_items contents (t.live node.classes)).trans hclasses)
  rw [inside, List.flatMap_append]
  refine List.Perm.trans ?_ (hall.trans ?_)
  · rw [bodyEntries, BodyEntries.items, List.partition_eq_filter_filter]
    rw [← Multiset.coe_eq_coe]
    simp only [← Multiset.coe_add]
    abel
  · rw [← Multiset.coe_eq_coe]
    simp only [← Multiset.coe_add]
    abel

/-- A walk that may go a level deeper shows what a function shows itself, and then what is inside
it. -/
theorem bodyItems_succ (h : t.LeavesHelpers) (hinit : t.KeepsInitializers) (depth : Nat)
    (f : FunctionId) :
    (t.bodyItems (t.contentsWithin (depth + 1)) f).Perm
      (t.ownItems f ++ (t.inside f).flatMap (t.functionItems (t.contentsWithin depth))) := by
  cases hnode : t.function? f with
  | none =>
    simp [bodyItems, ownItems, methodItems, liveClassesOf, inside, localsOf, hnode]
  | some node =>
    have hbody : t.bodyItems (t.contentsWithin (depth + 1)) f
        = node.item :: (t.bodyEntries (t.contentsWithin depth) node).items := by
      simp [bodyItems, hnode, contentsWithin]
    have hown : t.ownItems f = node.item :: (t.liveClassesOf f).flatMap t.classItems := by
      simp [ownItems, methodItems, hnode]
    rw [hbody, hown, List.cons_append]
    exact (bodyEntries_items h hinit hnode).cons _

/-- A function shows its own items and those of its helper, and what the functions right inside
them show. -/
theorem functionItems_succ (h : t.LeavesHelpers) (hinit : t.KeepsInitializers) (depth : Nat)
    (f : FunctionId) :
    (t.functionItems (t.contentsWithin (depth + 1)) f).Perm
      ((t.withHelper f).flatMap t.ownItems
        ++ (t.insideBoth f).flatMap (t.functionItems (t.contentsWithin depth))) := by
  rw [functionItems, insideBoth, List.flatMap_assoc]
  exact (List.Perm.flatMap_left _ fun g _ => bodyItems_succ h hinit depth g).trans
    (List.flatMap_append_perm _ t.ownItems _).symm

/-- A walk that may not go deeper shows the methods of a function and its helper. -/
theorem functionItems_zero (f : FunctionId) :
    t.functionItems (t.contentsWithin 0) f = (t.withHelper f).flatMap t.methodItems := by
  rw [functionItems]
  refine List.flatMap_congr fun g _ => ?_
  cases hnode : t.function? g with
  | none => simp [bodyItems, methodItems, hnode]
  | some node =>
    simp [bodyItems, methodItems, hnode, contentsWithin, BodyEntries.empty, BodyEntries.items,
      FunctionEntry.itemsOf, LocalClassEntry.itemsOf, AnonymousClass.itemsOf,
      AnonymousFunction.itemsOf]

/-- What the report shows of functions is what the levels below them have of their own, if these
end where the walk does. -/
theorem contents_items (h : t.LeavesHelpers) (hinit : t.KeepsInitializers)
    {roots : List FunctionId}
    (hnil : Levels.level t.insideBoth t.functions.length roots = []) :
    (roots.flatMap (t.functionItems t.contents)).Perm
      (((Levels.levels t.insideBoth t.functions.length roots).flatMap t.withHelper).flatMap
        t.ownItems) := by
  have hwalk := Levels.flatMap_walk_perm t.insideBoth
    (fun depth => t.functionItems (t.contentsWithin depth))
    (fun f => (t.withHelper f).flatMap t.ownItems)
    (fun f => (t.withHelper f).flatMap t.methodItems) (fun _ => True)
    (fun f _ => List.Perm.of_eq (functionItems_zero f))
    (fun depth f _ => functionItems_succ h hinit depth f) (fun _ _ _ _ => trivial)
    t.functions.length (fun f (_ : f ∈ roots) => trivial)
  rw [hnil, List.flatMap_nil, List.append_nil, ← List.flatMap_assoc] at hwalk
  exact hwalk

end SourceTree

end LineAtlas
