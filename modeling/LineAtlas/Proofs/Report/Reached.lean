import LineAtlas.Proofs.Report.FileEntry

/-!
# The walk of a report

A report is written by walking down a tree. The walk goes from classes to functions and from
functions to classes, and leaves out classes that failed. The entry of a file shows exactly the
nodes that the walk comes to, and each of them once.
-/

namespace LineAtlas.SourceTree

open Report

variable {t : SourceTree}

/-- A function or a class of a tree. -/
inductive Node where
  /-- A function. -/
  | function (f : FunctionId)
  /-- A class. -/
  | ofClass (c : ClassId)
  deriving DecidableEq, Repr

/-- The classes in the slots of a class. -/
def slotsOf (t : SourceTree) (c : ClassId) : List ClassId :=
  (t.class? c).toList.flatMap (·.shape.children)

/-- The nodes right below a node, whether or not they failed. -/
def children (t : SourceTree) : Node → List Node
  | .function f => (t.below f).map .function ++ (t.classesOf f).map .ofClass
  | .ofClass c => (t.membersOf c).map .function ++ (t.slotsOf c).map .ofClass

/-- The functions that the entry of a class lists. A facade is listed as the file is. -/
def listedOf (t : SourceTree) (c : ClassId) : List FunctionId :=
  (t.class? c).toList.flatMap fun node =>
    match node.shape with
    | .facade _ => node.fileFunctions
    | _ => node.memberFunctions

/-- The classes that the entry of a class lists. That of an object lists no slots. -/
def entriesOf (t : SourceTree) (c : ClassId) : List ClassId :=
  (t.nestedOf c ++ if t.shownAsObject c then [] else t.companionOf c ++ t.holderOf c).filter
    t.isLive

/-- The nodes that the walk goes to next. -/
def visits (t : SourceTree) : Node → List Node
  | .function f => (t.below f).map .function ++ (t.liveClassesOf f).map .ofClass
  | .ofClass c => (t.listedOf c).map .function ++ (t.entriesOf c).map .ofClass

/-- Whether the walk comes to a node: from a facade or a class at the top level that did not
fail, step by step. -/
inductive IsReached (t : SourceTree) : Node → Prop where
  /-- The walk starts at facades and classes at the top level. -/
  | root {c : ClassId} (hc : c ∈ t.facades ++ t.topLevel) (hlive : t.isLive c = true) :
      IsReached t (.ofClass c)
  /-- From a node the walk goes on to those that it visits next. -/
  | step {node next : Node} (hnode : IsReached t node) (hnext : next ∈ t.visits node) :
      IsReached t next

/-- How the report shows a node by itself. -/
def nodeItems (t : SourceTree) : Node → List Item
  | .function f => t.methodItems f
  | .ofClass c => t.nameItems c

/-- The nodes that the report shows. -/
def nodesShown (t : SourceTree) : List Node :=
  (t.classesWith (t.functionsFrom t.listed)).map .ofClass
    ++ (t.functionsFrom t.listed).map .function

/-- A function is among the nodes of functions and classes when it is among the functions. -/
theorem function_mem_map {fs : List FunctionId} {cs : List ClassId} {f : FunctionId} :
    Node.function f ∈ fs.map .function ++ cs.map .ofClass ↔ f ∈ fs := by
  simp

/-- A class is among the nodes of functions and classes when it is among the classes. -/
theorem ofClass_mem_map {fs : List FunctionId} {cs : List ClassId} {c : ClassId} :
    Node.ofClass c ∈ fs.map .function ++ cs.map .ofClass ↔ c ∈ cs := by
  simp

/-- A function is shown when a walk from the listed functions comes to it. -/
theorem function_mem_nodesShown {f : FunctionId} :
    .function f ∈ t.nodesShown ↔ f ∈ t.functionsFrom t.listed := by
  simp [nodesShown]

/-- A class is shown with the functions that are. -/
theorem ofClass_mem_nodesShown {c : ClassId} :
    .ofClass c ∈ t.nodesShown ↔ c ∈ t.classesWith (t.functionsFrom t.listed) := by
  simp [nodesShown]

/-- The slots of a class are for nested classes, a companion and a holder. -/
theorem slotsOf_eq (c : ClassId) :
    t.slotsOf c = t.nestedOf c ++ t.companionOf c ++ t.holderOf c := by
  cases hnode : t.class? c with
  | none => simp [slotsOf, nestedOf, companionOf, holderOf, hnode]
  | some node =>
    simp [slotsOf, nestedOf, companionOf, holderOf, hnode, ClassShape.children]

/-- Classes that are listed stand in slots. -/
theorem entriesOf_subset (t : SourceTree) (c : ClassId) : t.entriesOf c ⊆ t.slotsOf c := by
  intro d hd
  rw [slotsOf_eq, List.append_assoc]
  rcases List.mem_append.mp (List.mem_of_mem_filter hd) with hnested | hslot
  · exact List.mem_append_left _ hnested
  · split at hslot
    · exact absurd hslot List.not_mem_nil
    · exact List.mem_append_right _ hslot

/-- Functions that are listed are members. -/
theorem listedOf_subset (t : SourceTree) (c : ClassId) : t.listedOf c ⊆ t.membersOf c := by
  intro f hf
  obtain ⟨node, hnode, hf⟩ := List.mem_flatMap.mp hf
  refine List.mem_flatMap.mpr ⟨node, hnode, ?_⟩
  split at hf
  · exact node.fileFunctions_sublist.subset hf
  · exact hf

/-- The walk goes down the tree. -/
theorem visits_subset_children (t : SourceTree) (node : Node) :
    t.visits node ⊆ t.children node := by
  cases node with
  | function f =>
    refine List.append_subset.mpr ⟨List.subset_append_left _ _, ?_⟩
    exact List.subset_append_of_subset_right _
      (List.map_subset _ fun c hc => List.mem_of_mem_filter hc)
  | ofClass c =>
    exact List.append_subset.mpr
      ⟨List.subset_append_of_subset_left _ (List.map_subset _ (t.listedOf_subset c)),
        List.subset_append_of_subset_right _ (List.map_subset _ (t.entriesOf_subset c))⟩

/-- The walk comes to no class that failed. -/
theorem isLive_of_isReached {c : ClassId} (hc : t.IsReached (.ofClass c)) :
    t.isLive c = true := by
  cases hc with
  | root _ hlive => exact hlive
  | @step node _ _ hnext =>
    cases node with
    | function f => exact List.of_mem_filter (ofClass_mem_map.mp hnext)
    | ofClass d => exact List.of_mem_filter (ofClass_mem_map.mp hnext)

namespace IsReached

/-- The walk goes from a function to those right below it. -/
theorem functionBelow {f g : FunctionId} (hf : t.IsReached (.function f)) (hg : g ∈ t.below f) :
    t.IsReached (.function g) :=
  .step hf (function_mem_map.mpr hg)

/-- The walk goes from a function to the classes in it that did not fail. -/
theorem liveClass {f : FunctionId} {c : ClassId} (hf : t.IsReached (.function f))
    (hc : c ∈ t.liveClassesOf f) : t.IsReached (.ofClass c) :=
  .step hf (ofClass_mem_map.mpr hc)

/-- The walk goes from a class to the functions it lists. -/
theorem listed {c : ClassId} {f : FunctionId} (hc : t.IsReached (.ofClass c))
    (hf : f ∈ t.listedOf c) : t.IsReached (.function f) :=
  .step hc (function_mem_map.mpr hf)

/-- The walk goes from a class to the classes it lists. -/
theorem entry {c d : ClassId} (hc : t.IsReached (.ofClass c)) (hd : d ∈ t.entriesOf c) :
    t.IsReached (.ofClass d) :=
  .step hc (ofClass_mem_map.mpr hd)

end IsReached

/-- The entry of a class that is no facade lists all its functions. -/
theorem listedOf_eq_membersOf {c : ClassId}
    (hshape : ∀ node, t.class? c = some node → ¬ node.shape.IsFacade) :
    t.listedOf c = t.membersOf c := by
  cases hclass : t.class? c with
  | none => simp [listedOf, membersOf, hclass]
  | some node =>
    have hnode := hshape node hclass
    cases hcase : node.shape with
    | facade init => exact absurd ⟨init, hcase⟩ hnode
    | named shape | localClass kind origin | defaultImpls =>
      simp [listedOf, membersOf, hclass, hcase]

namespace Orderly

/-- A facade lists the members of the file. -/
theorem listedOf_facade (h : t.Orderly) {c : ClassId} (hc : c ∈ t.facades) :
    t.listedOf c = t.fileMembersOf c := by
  cases hclass : t.class? c with
  | none => simp [listedOf, fileMembersOf, hclass]
  | some node =>
    obtain ⟨init, hshape⟩ := h.facade c hc node hclass
    simp [listedOf, fileMembersOf, hclass, hshape]

/-- A class with a name of its own lists all its members. -/
theorem listedOf_named (h : t.Orderly) {c : ClassId} (hc : c ∈ t.namedShown) :
    t.listedOf c = t.membersOf c := by
  refine listedOf_eq_membersOf fun node hnode => ?_
  rintro ⟨init, hfacade⟩
  rcases h.isNamed_or_defaultImpls hc hnode with ⟨shape, hshape⟩ | hshape
  · simp [hshape] at hfacade
  · simp [hshape] at hfacade

/-- A local class lists all its members. -/
theorem listedOf_local (h : t.Orderly) {c : ClassId} {f : FunctionId}
    (hc : c ∈ t.liveClassesOf f) : t.listedOf c = t.membersOf c := by
  refine listedOf_eq_membersOf fun node hnode => ?_
  rintro ⟨init, hfacade⟩
  obtain ⟨kind, origin, hshape⟩ := h.isLocal_of_mem_liveClassesOf hc hnode
  simp [hshape] at hfacade

/-- The walk comes to each class with a name of its own that is shown. -/
theorem isReached_of_mem_namedShown {c : ClassId} (hc : c ∈ t.namedShown) :
    t.IsReached (.ofClass c) := by
  have hslots {d e : ClassId} (hd : t.IsReached (.ofClass d)) (he : e ∈ t.withSlots d) :
      t.IsReached (.ofClass e) := by
    rw [withSlots] at he
    split at he
    · rwa [List.mem_singleton.mp he]
    · next hobject =>
      rcases List.mem_cons.mp he with rfl | he
      · exact hd
      · refine hd.entry ?_
        rw [entriesOf, if_neg hobject, List.filter_append]
        exact List.mem_append_right _ he
  obtain ⟨leader, hleader, hc⟩ := List.mem_flatMap.mp hc
  refine hslots ?_ hc
  refine Levels.forall_mem_levels t.nestedBoth (P := fun d => t.IsReached (.ofClass d))
    (fun d hd => ?_) (fun d hd e he => ?_) t.classes.length leader hleader
  · obtain ⟨htop, hlive⟩ := List.mem_filter.mp hd
    exact .root (List.mem_append_right _ htop) hlive
  · obtain ⟨slot, hslot, he⟩ := List.mem_flatMap.mp he
    refine (hslots hd hslot).entry ?_
    rw [entriesOf, List.filter_append]
    exact List.mem_append_left _ he

/-- The walk comes to each function below those that are listed. -/
theorem isReached_of_mem_functionsFrom (h : t.Orderly) :
    ∀ f ∈ t.functionsFrom t.listed, t.IsReached (.function f) := by
  refine forall_mem_functionsFrom (fun f hf => ?_) (fun f hf g hg => hf.functionBelow hg)
    fun f hf c hc g hg => ?_
  · rcases List.mem_append.mp hf with hf | hf
    · obtain ⟨c, hc, hf⟩ := List.mem_flatMap.mp hf
      obtain ⟨hfacade, hlive⟩ := List.mem_filter.mp hc
      refine (IsReached.root (List.mem_append_left _ hfacade) hlive).listed ?_
      rwa [h.listedOf_facade hfacade]
    · obtain ⟨c, hc, hf⟩ := List.mem_flatMap.mp hf
      refine (isReached_of_mem_namedShown hc).listed ?_
      rwa [h.listedOf_named hc]
  · refine (hf.liveClass hc).listed ?_
    rwa [h.listedOf_local hc]

/-- The walk comes to each node that is shown. -/
theorem isReached_of_mem_nodesShown (h : t.Orderly) {node : Node} (hnode : node ∈ t.nodesShown) :
    t.IsReached node := by
  cases node with
  | function f => exact h.isReached_of_mem_functionsFrom f (function_mem_nodesShown.mp hnode)
  | ofClass c =>
    rcases List.mem_append.mp (ofClass_mem_nodesShown.mp hnode) with hc | hc
    · rcases List.mem_append.mp hc with hc | hc
      · obtain ⟨hfacade, hlive⟩ := List.mem_filter.mp hc
        exact .root (List.mem_append_left _ hfacade) hlive
      · exact isReached_of_mem_namedShown hc
    · obtain ⟨f, hf, hc⟩ := List.mem_flatMap.mp hc
      exact (h.isReached_of_mem_functionsFrom f hf).liveClass hc

/-- Where the walk goes from a class that is shown. -/
theorem mem_functionsFrom_of_listedOf (h : t.Orderly) {c : ClassId} {f : FunctionId}
    (hc : c ∈ t.classesWith (t.functionsFrom t.listed)) (hf : f ∈ t.listedOf c) :
    f ∈ t.functionsFrom t.listed := by
  rw [(h.functionsFrom_perm (listed_subperm t)).mem_iff]
  refine List.mem_append_left _ ?_
  rcases List.mem_append.mp hc with hc | hc
  · refine List.mem_append_left _ ?_
    rcases List.mem_append.mp hc with hc | hc
    · rw [h.listedOf_facade (List.mem_of_mem_filter hc)] at hf
      exact List.mem_append_left _ (List.mem_flatMap.mpr ⟨c, hc, hf⟩)
    · rw [h.listedOf_named hc] at hf
      exact List.mem_append_right _ (List.mem_flatMap.mpr ⟨c, hc, hf⟩)
  · obtain ⟨g, -, hlocal⟩ := List.mem_flatMap.mp hc
    rw [h.listedOf_local hlocal] at hf
    exact List.mem_append_right _ (List.mem_flatMap.mpr ⟨c, hc, hf⟩)

/-- A class that is listed by one that is shown is shown itself. -/
theorem mem_classesWith_of_entriesOf (h : t.Orderly) {c d : ClassId}
    (hc : c ∈ t.classesWith (t.functionsFrom t.listed)) (hd : d ∈ t.entriesOf c) :
    d ∈ t.classesWith (t.functionsFrom t.listed) := by
  obtain ⟨hslot, hlive⟩ := List.mem_filter.mp hd
  have hsome := t.entriesOf_subset c hd
  rw [slotsOf_eq, List.append_assoc] at hsome
  obtain ⟨node, hnode, hnamed⟩ := exists_named_of_slot hsome
  have howner := h.mem_namedShown_of_isNamed hc hnode hnamed
  refine List.mem_append_left _ (List.mem_append_right _ ?_)
  rcases List.mem_append.mp hslot with hnested | hslot
  · exact h.mem_namedShown_of_nestedOf howner hnested hlive
  · split at hslot
    · exact absurd hslot List.not_mem_nil
    · next hobject =>
      exact h.mem_withSlots_of_mem_namedShown howner hnode hnamed (by simpa using hobject) hslot
        hlive

/-- Each node to which the walk comes is shown. -/
theorem mem_nodesShown_of_isReached (h : t.Orderly) {node : Node} (hnode : t.IsReached node) :
    node ∈ t.nodesShown := by
  induction hnode with
  | root hc hlive =>
    refine ofClass_mem_nodesShown.mpr (List.mem_append_left _ ?_)
    rcases List.mem_append.mp hc with hc | hc
    · exact List.mem_append_left _ (List.mem_filter.mpr ⟨hc, hlive⟩)
    · exact List.mem_append_right _ (h.mem_namedShown_of_topLevel hc hlive)
  | @step node next _ hnext ih =>
    cases node with
    | function f =>
      have hf := function_mem_nodesShown.mp ih
      cases next with
      | function g =>
        refine function_mem_nodesShown.mpr ?_
        rw [(h.functionsFrom_perm (listed_subperm t)).mem_iff]
        exact List.mem_append_right _
          (List.mem_flatMap.mpr ⟨f, hf, function_mem_map.mp hnext⟩)
      | ofClass c =>
        refine ofClass_mem_nodesShown.mpr (List.mem_append_right _ ?_)
        exact List.mem_flatMap.mpr ⟨f, hf, ofClass_mem_map.mp hnext⟩
    | ofClass c =>
      have hc := ofClass_mem_nodesShown.mp ih
      cases next with
      | function f =>
        exact function_mem_nodesShown.mpr
          (h.mem_functionsFrom_of_listedOf hc (function_mem_map.mp hnext))
      | ofClass d =>
        exact ofClass_mem_nodesShown.mpr
          (h.mem_classesWith_of_entriesOf hc (ofClass_mem_map.mp hnext))

/-- The report shows exactly the nodes that the walk comes to. -/
theorem mem_nodesShown_iff (h : t.Orderly) {node : Node} :
    node ∈ t.nodesShown ↔ t.IsReached node :=
  ⟨h.isReached_of_mem_nodesShown, h.mem_nodesShown_of_isReached⟩

/-- The report shows no node twice. -/
theorem nodesShown_nodup (h : t.Orderly) : t.nodesShown.Nodup := by
  refine List.nodup_append.mpr ⟨?_, ?_, ?_⟩
  · exact (h.classesWith_nodup (listed_subperm t)).map fun c d heq => Node.ofClass.inj heq
  · exact (h.functionsFrom_nodup (listed_subperm t)).1.map fun f g heq => Node.function.inj heq
  · simp

/-- The report shows every node it comes to by itself. -/
theorem fileEntry_items_nodes (h : t.Orderly) :
    t.fileEntry.items.Perm (t.nodesShown.flatMap t.nodeItems) := by
  refine h.fileEntry_items_perm.trans (List.Perm.of_eq ?_)
  rw [nodesShown, List.flatMap_append, List.flatMap_map, List.flatMap_map]
  rfl

end Orderly

end LineAtlas.SourceTree
