import LineAtlas.Proofs.Levels
import LineAtlas.Tree.SourceTree

/-!
# Forests of functions

Every class has a forest of functions: its members, and below each function its helper and its
local functions. Where every function has at most one place, the forests of classes have no
function in common, and going down a forest comes to an end.
-/

namespace LineAtlas

/-- The functions right below a function: its helper and its local functions. -/
def FunctionNode.below (f : FunctionNode) : List FunctionId :=
  f.defaultValues.toList ++ f.locals

/-- The accessors of a property. -/
def PropertyNode.accessors (p : PropertyNode) : List FunctionId :=
  p.getter.toList ++ p.setter.toList

/-- The initializer of a file's top level. -/
def ClassShape.initializers : ClassShape → List FunctionId
  | .facade (some init) => [init]
  | _ => []

/-- The functions of a class that its entry lists: all but the initializer. -/
def ClassNode.listedFunctions (c : ClassNode) : List FunctionId :=
  c.functions ++ c.constructors ++ c.properties.flatMap PropertyNode.accessors

/-- The functions of a class that the entry of a file lists: all but constructors. -/
def ClassNode.fileFunctions (c : ClassNode) : List FunctionId :=
  c.functions ++ c.properties.flatMap PropertyNode.accessors ++ c.shape.initializers

/-- The functions of a class are those it lists and its initializers. -/
theorem ClassNode.memberFunctions_eq (c : ClassNode) :
    c.memberFunctions = c.listedFunctions ++ c.shape.initializers := rfl

/-- What a file lists of a facade is among the functions of the facade. -/
theorem ClassNode.fileFunctions_sublist (c : ClassNode) :
    c.fileFunctions.Sublist c.memberFunctions :=
  ((List.sublist_append_left _ _).append (List.Sublist.refl _)).append (List.Sublist.refl _)

namespace SourceTree

variable {t : SourceTree}

/-- The functions right below a function. -/
def below (t : SourceTree) (f : FunctionId) : List FunctionId :=
  (t.function? f).toList.flatMap FunctionNode.below

/-- The members of a class. -/
def membersOf (t : SourceTree) (c : ClassId) : List FunctionId :=
  (t.class? c).toList.flatMap ClassNode.memberFunctions

/-- All functions of a class: its members and what is below them. -/
def forest (t : SourceTree) (c : ClassId) : List FunctionId :=
  (t.membersOf c).flatMap t.functionTree

/-- All places of functions: members of classes, helpers and local functions. -/
def functionPlaces (t : SourceTree) : List FunctionId :=
  t.classes.flatMap ClassNode.memberFunctions ++ t.functions.flatMap FunctionNode.below

/-- The functions of a tree have at most one place each, as a member of a class or below
another function. -/
structure PlacesFunctions (t : SourceTree) : Prop where
  /-- No function has two places. -/
  functionsNodup : t.functionPlaces.Nodup
  /-- Every place has a function of the tree. -/
  functionsBound : ∀ f ∈ t.functionPlaces, f < t.functions.length

/-- Going over the positions of functions goes over the functions. -/
theorem range_flatMap_function? {β : Type} (t : SourceTree) (g : FunctionNode → List β) :
    (List.range t.functions.length).flatMap (fun f => (t.function? f).toList.flatMap g)
      = t.functions.flatMap g :=
  Lists.range_flatMap_getElem? t.functions g

/-- Going over the positions of classes goes over the classes. -/
theorem range_flatMap_class? {β : Type} (t : SourceTree) (g : ClassNode → List β) :
    (List.range t.classes.length).flatMap (fun c => (t.class? c).toList.flatMap g)
      = t.classes.flatMap g :=
  Lists.range_flatMap_getElem? t.classes g

/-- The members at all positions are those of all classes. -/
theorem membersOf_range (t : SourceTree) :
    (List.range t.classes.length).flatMap t.membersOf
      = t.classes.flatMap ClassNode.memberFunctions :=
  range_flatMap_class? t ClassNode.memberFunctions

/-- The functions of a function tree, with as much of the tree as the walk may go down. -/
theorem functionsWithin_succ (depth : Nat) {f : FunctionId} (hf : f < t.functions.length) :
    t.functionsWithin (depth + 1) f
      = f :: (t.below f).flatMap (t.functionsWithin depth) := by
  have hnode : t.function? f = some t.functions[f] := List.getElem?_eq_getElem hf
  rw [functionsWithin, below, hnode, Option.toList_some, List.flatMap_singleton]
  rfl

namespace PlacesFunctions

/-- A member is a function of the tree. -/
theorem bound_member (h : t.PlacesFunctions) {c : ClassId} {f : FunctionId}
    (hf : f ∈ t.membersOf c) : f < t.functions.length := by
  refine h.functionsBound f (List.mem_append_left _ ?_)
  rw [← range_flatMap_class?]
  have hc : c < t.classes.length := by
    by_contra hc
    have hnone : t.class? c = none := List.getElem?_eq_none (Nat.le_of_not_lt hc)
    simp [membersOf, hnone] at hf
  exact List.mem_flatMap.mpr ⟨c, List.mem_range.mpr hc, hf⟩

/-- What is below a function is a function of the tree. -/
theorem bound_below (h : t.PlacesFunctions) {f g : FunctionId} (hg : g ∈ t.below f) :
    g < t.functions.length := by
  refine h.functionsBound g (List.mem_append_right _ ?_)
  rw [← range_flatMap_function?]
  have hf : f < t.functions.length := by
    by_contra hf
    have hnone : t.function? f = none := List.getElem?_eq_none (Nat.le_of_not_lt hf)
    simp [below, hnone] at hg
  exact List.mem_flatMap.mpr ⟨f, List.mem_range.mpr hf, hg⟩

/-- The levels below the members of all classes come to an end. -/
theorem level_members_eq_nil (h : t.PlacesFunctions) :
    Levels.level t.below t.functions.length (t.classes.flatMap ClassNode.memberFunctions)
      = [] := by
  have hplaces : (t.classes.flatMap ClassNode.memberFunctions).flatMap (fun f => [f])
      ++ (List.range t.functions.length).flatMap t.below = t.functionPlaces := by
    rw [List.flatMap_singleton', functionPlaces, ← range_flatMap_function?]
    rfl
  refine Levels.level_eq_nil t.below (fun f => [f]) t.below (by simp) (fun f => ?_) ?_ ?_
  · rw [List.flatMap_singleton', List.flatMap_singleton]
  · rw [hplaces]
    exact h.functionsNodup
  · rw [hplaces]
    exact h.functionsBound

/-- Nothing is as deep below a member as there are functions. -/
theorem level_member_eq_nil (h : t.PlacesFunctions) {c : ClassId} {f : FunctionId}
    (hf : f ∈ t.membersOf c) : Levels.level t.below t.functions.length [f] = [] := by
  refine Levels.level_eq_nil_of_mem t.below ?_ h.level_members_eq_nil
  obtain ⟨node, hnode, hf⟩ := List.mem_flatMap.mp hf
  exact List.mem_flatMap.mpr ⟨node, List.mem_of_getElem? (Option.mem_toList.mp hnode), hf⟩

/-- Function trees are what the walk down the forest comes by. -/
theorem functionTree_perm (h : t.PlacesFunctions) {roots : List FunctionId}
    (hroots : ∀ f ∈ roots, f < t.functions.length) :
    (roots.flatMap t.functionTree).Perm (Levels.levels t.below t.functions.length roots) := by
  have hwalk := Levels.flatMap_walk_perm t.below t.functionsWithin (fun f => [f]) (fun _ => [])
    (fun f => f < t.functions.length) (fun f _ => List.Perm.refl _)
    (fun depth f hf => List.Perm.of_eq (functionsWithin_succ depth hf))
    (fun f _ g hg => h.bound_below hg) t.functions.length hroots
  rw [List.flatMap_singleton', List.flatMap_eq_nil_iff.mpr fun _ _ => rfl,
    List.append_nil] at hwalk
  exact hwalk

/-- The forest of a class has its members and what is below its functions. -/
theorem forest_perm (h : t.PlacesFunctions) (c : ClassId) :
    (t.forest c).Perm (t.membersOf c ++ (t.forest c).flatMap t.below) := by
  have hlevels := h.functionTree_perm fun f hf => h.bound_member (c := c) hf
  have hnil : Levels.level t.below t.functions.length (t.membersOf c) = [] :=
    Levels.level_eq_nil_of_forall t.below fun f hf => h.level_member_eq_nil hf
  have heq := Levels.levels_eq t.below hnil
  refine hlevels.trans ?_
  rw [heq]
  exact (hlevels.flatMap_right t.below).symm.append_left _

/-- The functions of all classes are met once. -/
theorem forests_nodup (h : t.PlacesFunctions) :
    ((List.range t.classes.length).flatMap t.forest).Nodup := by
  have hroots : (List.range t.classes.length).flatMap t.forest
      = (t.classes.flatMap ClassNode.memberFunctions).flatMap t.functionTree := by
    rw [← membersOf_range, List.flatMap_assoc]
    rfl
  have hplaces : ((t.classes.flatMap ClassNode.memberFunctions).flatMap (fun f => [f])
      ++ (List.range t.functions.length).flatMap t.below) = t.functionPlaces := by
    rw [List.flatMap_singleton', functionPlaces, ← range_flatMap_function?]
    rfl
  have hlevels := (Levels.nodup_levels t.below (fun f => [f]) t.below
    (fun _ => by simp [List.Subperm.refl]) (hplaces ▸ h.functionsNodup)
    (hplaces ▸ h.functionsBound) t.functions.length).1
  rw [List.flatMap_singleton'] at hlevels
  rw [hroots]
  exact (h.functionTree_perm fun f hf =>
    h.functionsBound f (List.mem_append_left _ hf)).nodup_iff.mpr hlevels

/-- Only a class of the tree has a forest. -/
theorem lt_of_mem_forest {c : ClassId} {f : FunctionId} (hf : f ∈ t.forest c) :
    c < t.classes.length := by
  by_contra hc
  have hnone : t.class? c = none := List.getElem?_eq_none (Nat.le_of_not_lt hc)
  simp [forest, membersOf, hnone] at hf

/-- No function is twice in the forest of a class. -/
theorem forest_nodup (h : t.PlacesFunctions) (c : ClassId) : (t.forest c).Nodup := by
  by_cases hc : c < t.classes.length
  · exact (List.nodup_flatMap.mp h.forests_nodup).1 c (List.mem_range.mpr hc)
  · have hnil : t.forest c = [] := List.eq_nil_iff_forall_not_mem.mpr fun f hf =>
      hc (lt_of_mem_forest hf)
    rw [hnil]
    exact List.nodup_nil

/-- A function belongs to one class. -/
theorem eq_of_mem_forest (h : t.PlacesFunctions) {c o : ClassId} {f : FunctionId}
    (hc : f ∈ t.forest c) (ho : f ∈ t.forest o) : c = o :=
  Lists.eq_of_nodup_flatMap_range h.forests_nodup (lt_of_mem_forest hc) (lt_of_mem_forest ho) hc ho

end PlacesFunctions

end SourceTree

end LineAtlas
