import LineAtlas.Proofs.Report.Budget
import LineAtlas.Proofs.Report.Reached
import LineAtlas.Proofs.Tree.Composed

/-!
# Finished trees are trees

Functions and classes refer to each other by position, so that nothing in the data keeps them
from running in circles. In a finished tree every node has at most one place and nothing leads
to the classes at the top, so that the way down from there ends. The walk of a report needs no
limit, shows no node twice, and shows nothing that is only below a class that failed.
-/

namespace LineAtlas.SourceTree

open Draft ResolvedUnit

variable {t : SourceTree}

/-- All nodes of a tree. -/
def nodes (t : SourceTree) : List Node :=
  (List.range t.functions.length).map .function ++ (List.range t.classes.length).map .ofClass

/-- The nodes at the top: facades and classes at the top level. -/
def roots (t : SourceTree) : List Node := (t.facades ++ t.topLevel).map .ofClass

/-- A tree whose walk from the top ends, shows what it comes to once, and comes to nothing that
failed. -/
structure IsTree (t : SourceTree) : Prop where
  /-- No class has two places. -/
  classesOnce : t.classPlaces.Nodup
  /-- No function has two places. -/
  functionsOnce : t.functionPlaces.Nodup
  /-- Every place of a class has a class of the tree. -/
  classesBound : ∀ c ∈ t.classPlaces, c < t.classes.length
  /-- Every place of a function has a function of the tree. -/
  functionsBound : ∀ f ∈ t.functionPlaces, f < t.functions.length
  /-- Nothing leads to the nodes at the top. -/
  onTop : ∀ root ∈ t.roots, ∀ node, root ∉ t.children node
  /-- The way down from the top ends. -/
  ends : ∀ root ∈ t.roots, Acc (fun next node => next ∈ t.children node) root
  /-- The walk finds the same in bodies of functions when it may go deeper. -/
  contents : ∀ f, t.IsReached (.function f) → ∀ node, t.function? f = some node → ∀ more,
    t.contentsWithin (t.functions.length + more) node = t.contents node
  /-- The walk finds the same classes when it may go deeper. -/
  nested : ∀ more, t.nestedWithin (t.classes.length + more) t.topLevel = t.nested t.topLevel
  /-- The report shows every node that the walk comes to once, and nothing else. -/
  shows : ∃ shown : List Node, shown.Nodup ∧ (∀ node, node ∈ shown ↔ t.IsReached node) ∧
    t.fileEntry.items.Perm (shown.flatMap t.nodeItems)
  /-- The walk goes down from a class or function that it came to. -/
  goesDown : ∀ node, t.visits node ⊆ t.children node
  /-- The walk comes to no class that failed. -/
  spares : ∀ c node, t.IsReached (.ofClass c) → t.class? c = some node → node.failed = false

/-- The places of nodes at the top and below others are those of functions and classes. -/
theorem children_perm (t : SourceTree) : (t.roots ++ t.nodes.flatMap t.children).Perm
    (t.functionPlaces.map .function ++ t.classPlaces.map .ofClass) := by
  have hfunctions : (((List.range t.functions.length).map Node.function).flatMap t.children).Perm
      ((t.functions.flatMap FunctionNode.below).map .function
        ++ (t.functions.flatMap FunctionNode.classes).map .ofClass) := by
    rw [← range_flatMap_function?, ← range_flatMap_function?, List.map_flatMap, List.map_flatMap,
      List.flatMap_map]
    exact (List.flatMap_append_perm _ _ _).symm
  have hclasses : (((List.range t.classes.length).map Node.ofClass).flatMap t.children).Perm
      ((t.classes.flatMap ClassNode.memberFunctions).map .function
        ++ (t.classes.flatMap (·.shape.children)).map .ofClass) := by
    rw [← range_flatMap_class?, ← range_flatMap_class?, List.map_flatMap, List.map_flatMap,
      List.flatMap_map]
    exact (List.flatMap_append_perm _ _ _).symm
  rw [nodes, List.flatMap_append]
  refine ((hfunctions.append hclasses).append_left _).trans ?_
  rw [roots, functionPlaces, classPlaces]
  simp only [List.map_append]
  rw [← Multiset.coe_eq_coe]
  simp only [← Multiset.coe_add]
  abel

namespace Orderly

/-- No node is a root or a child twice. -/
theorem children_nodup (h : t.Orderly) : (t.roots ++ t.nodes.flatMap t.children).Nodup := by
  refine (children_perm t).nodup_iff.mpr (List.nodup_append.mpr ⟨?_, ?_, ?_⟩)
  · exact h.functionsNodup.map fun f g heq => Node.function.inj heq
  · exact h.classesNodup.map fun c d heq => Node.ofClass.inj heq
  · simp

/-- Roots and children are nodes of the tree. -/
theorem children_subset (h : t.Orderly) : t.roots ++ t.nodes.flatMap t.children ⊆ t.nodes := by
  intro node hnode
  rcases List.mem_append.mp ((children_perm t).mem_iff.mp hnode) with hmem | hmem
  · obtain ⟨f, hf, rfl⟩ := List.mem_map.mp hmem
    exact List.mem_append_left _
      (List.mem_map_of_mem (List.mem_range.mpr (h.functionsBound f hf)))
  · obtain ⟨c, hc, rfl⟩ := List.mem_map.mp hmem
    exact List.mem_append_right _
      (List.mem_map_of_mem (List.mem_range.mpr (h.classesBound c hc)))

/-- Only nodes of the tree have nodes below them. -/
theorem mem_nodes_of_mem_children {node next : Node} (hnext : next ∈ t.children node) :
    node ∈ t.nodes := by
  cases node with
  | function f =>
    refine List.mem_append_left _ (List.mem_map_of_mem (List.mem_range.mpr ?_))
    by_contra hf
    have hnone : t.function? f = none := List.getElem?_eq_none (Nat.le_of_not_lt hf)
    simp [children, below, classesOf, hnone] at hnext
  | ofClass c =>
    refine List.mem_append_right _ (List.mem_map_of_mem (List.mem_range.mpr ?_))
    by_contra hc
    have hnone : t.class? c = none := List.getElem?_eq_none (Nat.le_of_not_lt hc)
    simp [children, membersOf, slotsOf, hnone] at hnext

/-- Going down from a root comes to an end. -/
theorem acc_of_mem_roots (h : t.Orderly) {root : Node} (hroot : root ∈ t.roots) :
    Acc (fun next node => next ∈ t.children node) root := by
  have hsingle : t.roots.flatMap (fun node => [node]) = t.roots := List.flatMap_singleton' _
  have hlevel : Levels.level t.children t.nodes.length t.roots = [] := by
    refine Levels.level_eq_nil_of_places t.children (fun node => [node]) t.children
      (fun node => List.cons_ne_nil _ _) (fun node => ?_) ?_ ?_
    · rw [List.flatMap_singleton', List.flatMap_singleton]
    · rw [hsingle]
      exact h.children_nodup
    · rw [hsingle]
      exact h.children_subset
  exact Levels.acc_of_level_eq_nil t.children (Levels.level_eq_nil_of_mem t.children hroot hlevel)

/-- A tree whose nodes have places that fit them is one. -/
theorem isTree (h : t.Orderly) : t.IsTree where
  classesOnce := h.classesNodup
  functionsOnce := h.functionsNodup
  classesBound := h.classesBound
  functionsBound := h.functionsBound
  onTop := fun root hroot node hnode =>
    (List.nodup_append.mp h.children_nodup).2.2 root hroot root
      (List.mem_flatMap.mpr ⟨node, mem_nodes_of_mem_children hnode, hnode⟩) rfl
  ends := fun _ hroot => h.acc_of_mem_roots hroot
  contents := fun _ hf _ hnode more => h.contentsWithin_eq
    (function_mem_nodesShown.mp (h.mem_nodesShown_iff.mpr hf)) hnode more
  nested := h.nestedWithin_topLevel
  shows := ⟨t.nodesShown, h.nodesShown_nodup, fun _ => h.mem_nodesShown_iff,
    h.fileEntry_items_nodes⟩
  goesDown := t.visits_subset_children
  spares := fun c node hc hnode => by simpa [isLive, hnode] using isLive_of_isReached hc

end Orderly

/-- Whatever is composed, the tree is a tree. -/
theorem compose_isTree (path : String) (policy : AccountingPolicy)
    (added : List (String × ResolvedUnit)) : (compose path policy added).tree.IsTree := by
  obtain ⟨units, h⟩ := compose_reflects path policy added
  exact h.arranged.orderly.isTree

end LineAtlas.SourceTree
