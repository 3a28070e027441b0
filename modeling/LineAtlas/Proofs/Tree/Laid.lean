import LineAtlas.Proofs.Report.Walk
import LineAtlas.Proofs.Tree.DefaultBodies

/-!
# Classes laid out one after the other

The classes of a draft stand for units, in order, and each has its block of functions. Hence
functions have one place each, and the forest of a class is its block.
-/

namespace LineAtlas

/-- How a class with a name of its own starts. -/
def ClassUnit.shape (u : ClassUnit) : NamedShape :=
  ⟨u.declaredName, u.isObject, u.isData, u.companion, [], none, none⟩

/-- The methods that the block of a unit's class stands for. -/
def ResolvedUnit.placed : ResolvedUnit → List Body
  | .classUnit u => Draft.placedBodies u.members (.named u.shape)
  | .localClass u => Draft.placedBodies u.members (.localClass u.kind u.origin)
  | .facade u => Draft.placedBodies u.members (.facade none)
  | .defaultImpls u => u.methods
  | .opaqueUnit | .foreign => []

/-- A class without those in its slots, whether it failed or not. -/
def ClassNode.bare (c : ClassNode) : ClassNode := { c with shape := c.shape.bare, failed := false }

/-- A class stands for a unit: it has its name and its shape, whatever is in the slots. -/
def ClassNode.StandsFor (node : ClassNode) : ResolvedUnit → Prop
  | .classUnit u => node.jvmName = u.jvmName ∧ node.shape.bare = .named u.shape
  | .localClass u => node.jvmName = u.jvmName ∧ node.shape = .localClass u.kind u.origin
  | .facade u => node.jvmName = u.jvmName ∧ node.shape.IsFacade ∧
      (u.members.constructors = [] → node.constructors = [])
  | .defaultImpls u => node.jvmName = u.jvmName ∧ node.shape = .defaultImpls
  | .opaqueUnit | .foreign => False

/-- A class goes by the name of the unit that it stands for. -/
theorem ClassNode.StandsFor.jvmName {node : ClassNode} {u : ResolvedUnit}
    (h : node.StandsFor u) : u.jvmName? = some node.jvmName := by
  cases u with
  | classUnit u => exact congrArg some h.1.symm
  | localClass u => exact congrArg some h.1.symm
  | facade u => exact congrArg some h.1.symm
  | defaultImpls u => exact congrArg some h.1.symm
  | opaqueUnit => exact h.elim
  | foreign => exact h.elim

/-- What a class stands for does not depend on its slots, nor on whether it failed. -/
theorem ClassNode.StandsFor.of_bare {node node' : ClassNode} {u : ResolvedUnit}
    (h : node.StandsFor u) (hbare : node'.bare = node.bare) : node'.StandsFor u := by
  have hname : node'.bare.jvmName = node.bare.jvmName := by rw [hbare]
  have hconstructors : node'.bare.constructors = node.bare.constructors := by rw [hbare]
  have hshape : node'.bare.shape = node.bare.shape := by rw [hbare]
  change node'.jvmName = node.jvmName at hname
  change node'.constructors = node.constructors at hconstructors
  change node'.shape.bare = node.shape.bare at hshape
  cases u with
  | classUnit u => exact ⟨hname.trans h.1, hshape.trans h.2⟩
  | localClass u =>
    refine ⟨hname.trans h.1, ?_⟩
    rw [h.2] at hshape
    cases hnode : node'.shape <;> simp_all [ClassShape.bare]
  | facade u =>
    obtain ⟨hjvm, ⟨init, hinit⟩, hempty⟩ := h
    refine ⟨hname.trans hjvm, ?_, fun hnil => hconstructors.trans (hempty hnil)⟩
    rw [hinit] at hshape
    cases hnode : node'.shape with
    | facade init' => exact ⟨init', rfl⟩
    | named shape => simp [hnode, ClassShape.bare] at hshape
    | localClass kind origin => simp [hnode, ClassShape.bare] at hshape
    | defaultImpls => simp [hnode, ClassShape.bare] at hshape
  | defaultImpls u =>
    refine ⟨hname.trans h.1, ?_⟩
    rw [h.2] at hshape
    cases hnode : node'.shape <;> simp_all [ClassShape.bare]
  | opaqueUnit => exact h.elim
  | foreign => exact h.elim

namespace Draft

/-- Classes that stand for units in order, each with the next block of functions. -/
inductive Laid : List ClassNode → List FunctionNode → List ResolvedUnit → Prop
  /-- No classes stand for no units. -/
  | nil : Laid [] [] []
  /-- A class with its block is laid out behind the others. -/
  | snoc {nodes : List ClassNode} {functions : List FunctionNode} {units : List ResolvedUnit}
      {node : ClassNode} {block : List FunctionNode} {u : ResolvedUnit}
      (hlaid : Laid nodes functions units) (hstands : node.StandsFor u)
      (hfills : Fills functions.length node block u.placed) :
      Laid (nodes ++ [node]) (functions ++ block) (units ++ [u])

variable {nodes : List ClassNode} {functions : List FunctionNode} {units : List ResolvedUnit}

/-- There are as many classes as units. -/
theorem Laid.length_eq (h : Laid nodes functions units) : nodes.length = units.length := by
  induction h with
  | nil => rfl
  | snoc hlaid hstands hfills ih => rw [List.length_append, List.length_append, ih]; rfl

/-- Every class has its unit and its block. -/
theorem Laid.exists_block (h : Laid nodes functions units) {c : Nat} {node : ClassNode}
    (hnode : nodes[c]? = some node) : ∃ u before block after, units[c]? = some u ∧
      node.StandsFor u ∧ functions = before ++ block ++ after ∧
      Fills before.length node block u.placed := by
  induction h with
  | nil => simp at hnode
  | @snoc nodes functions units last block u hlaid hstands hfills ih =>
    rw [List.getElem?_append] at hnode
    split at hnode
    · obtain ⟨v, before, own, after, hv, hnodev, rfl, hown⟩ := ih hnode
      refine ⟨v, before, own, after ++ block, ?_, hnodev, ?_, hown⟩
      · rw [List.getElem?_append_left (List.getElem?_eq_some_iff.mp hv).1, hv]
      · rw [List.append_assoc (before ++ own)]
    · next hlast =>
      obtain ⟨hc, rfl⟩ : c - nodes.length = 0 ∧ last = node := by
        rw [List.getElem?_singleton] at hnode
        split at hnode <;> simp_all
      have hlength : c = units.length := by
        rw [← hlaid.length_eq]
        omega
      refine ⟨u, functions, block, [], ?_, hstands, (List.append_nil _).symm, hfills⟩
      rw [hlength, List.getElem?_append_right le_rfl, Nat.sub_self]
      rfl

/-- Every function is in the block of a class. -/
theorem Laid.exists_rooted (h : Laid nodes functions units) {f : Nat} {node : FunctionNode}
    (hnode : functions[f]? = some node) : ∃ before block after roots bodies i,
      functions = before ++ block ++ after ∧ Rooted before.length roots block bodies ∧
      f = before.length + i ∧ block[i]? = some node := by
  induction h with
  | nil => simp at hnode
  | @snoc nodes functions units last block u hlaid hstands hfills ih =>
    rw [List.getElem?_append] at hnode
    split at hnode
    · obtain ⟨before, own, after, roots, bodies, i, rfl, hown, rfl, hi⟩ := ih hnode
      refine ⟨before, own, after ++ block, roots, bodies, i, ?_, hown, rfl, hi⟩
      rw [List.append_assoc (before ++ own)]
    · obtain ⟨bodies, hrooted, -⟩ := hfills.rooted
      refine ⟨functions, block, [], _, bodies, f - functions.length, (List.append_nil _).symm,
        hrooted, by omega, hnode⟩

/-- All functions have one place each. -/
theorem Laid.places_perm (h : Laid nodes functions units) :
    (nodes.flatMap ClassNode.memberFunctions ++ functions.flatMap FunctionNode.below).Perm
      (List.range functions.length) := by
  induction h with
  | nil => exact List.Perm.refl _
  | @snoc nodes functions units last block u hlaid hstands hfills ih =>
    obtain ⟨bodies, hrooted, -⟩ := hfills.rooted
    have hrange : List.range (functions ++ block).length
        = List.range functions.length ++ List.range' functions.length block.length := by
      rw [List.length_append, List.range_eq_range', List.range_eq_range', ← List.range'_append_1,
        Nat.zero_add]
    rw [hrange, List.flatMap_append, List.flatMap_append, List.flatMap_singleton]
    refine List.Perm.trans ?_ (ih.append hrooted.places)
    rw [← Multiset.coe_eq_coe]
    simp only [← Multiset.coe_add]
    abel

/-- A change to one class that keeps what it stands for and its functions. -/
theorem Laid.modify (h : Laid nodes functions units) (i : Nat) (change : ClassNode → ClassNode)
    (hstands : ∀ node u, ClassNode.StandsFor node u → (change node).StandsFor u)
    (hmembers : ∀ node, (change node).memberFunctions = node.memberFunctions)
    (hproperties : ∀ node, (change node).properties = node.properties)
    (hinit : ∀ node, (change node).shape.initializers = node.shape.initializers)
    (hfailed : ∀ node, (change node).failed = node.failed) :
    Laid (nodes.modify i change) functions units := by
  induction h with
  | nil => simpa using Laid.nil
  | @snoc nodes functions units last block u hlaid hlast hfills ih =>
    rcases Nat.lt_trichotomy i nodes.length with hlt | rfl | hgt
    · rw [Lists.modify_append_left hlt]
      exact ih.snoc hlast hfills
    · rw [Lists.modify_append_last]
      refine hlaid.snoc (hstands last u hlast) ⟨?_, ?_⟩
      · rw [hmembers, hfailed]
        exact hfills.rooted
      · rw [hproperties, hinit]
        exact hfills.unnamed
    · rw [List.modify_eq_self]
      · exact hlaid.snoc hlast hfills
      · rw [List.length_append, List.length_singleton]
        exact hgt

end Draft

namespace SourceTree

open Draft

variable {t : SourceTree} {units : List ResolvedUnit}

/-- Functions that are laid out in blocks have one place each. -/
theorem placesFunctions_of_laid (h : Laid t.classes t.functions units) : t.PlacesFunctions where
  functionsNodup := h.places_perm.nodup_iff.mpr List.nodup_range
  functionsBound := fun _ hf => List.mem_range.mp (h.places_perm.mem_iff.mp hf)

/-- A function of a block in the list of all functions. -/
theorem function?_eq_of_block {before block after : List FunctionNode}
    (hfunctions : t.functions = before ++ block ++ after) {i : Nat} (hi : i < block.length) :
    t.function? (before.length + i) = block[i]? := by
  rw [function?, hfunctions, List.getElem?_append_left (by rw [List.length_append]; omega),
    List.getElem?_append_right (Nat.le_add_right _ _), Nat.add_sub_cancel_left]

/-- A function that has no name in its block has none in the tree. -/
theorem isAnonymous_of_unnamed {before block after : List FunctionNode} {f : FunctionId}
    (hfunctions : t.functions = before ++ block ++ after)
    (hf : Unnamed before.length block f) : t.isAnonymous f = true := by
  obtain ⟨i, node, rfl, hnode, hkind⟩ := hf
  have hi := (List.getElem?_eq_some_iff.mp hnode).1
  simp [isAnonymous, function?_eq_of_block hfunctions hi, hnode, hkind]

/-- Functions without names have no helpers where blocks are laid out. -/
theorem leavesHelpers_of_laid (h : Laid t.classes t.functions units) : t.LeavesHelpers where
  anonymous := by
    intro f node hnode hkind
    obtain ⟨before, block, after, roots, bodies, i, -, hrooted, -, hi⟩ := h.exists_rooted hnode
    exact hrooted.anonymous i node hi hkind
  helper := by
    intro f node helper hnode hhelper
    obtain ⟨before, block, after, roots, bodies, i, hfunctions, hrooted, -, hi⟩ :=
      h.exists_rooted hnode
    exact isAnonymous_of_unnamed hfunctions (hrooted.helper i node hi helper hhelper)
  unnamed := by
    intro node hnode f hf
    obtain ⟨c, hc⟩ := List.getElem?_of_mem hnode
    obtain ⟨u, before, block, after, -, -, hfunctions, hfills⟩ := h.exists_block hc
    exact isAnonymous_of_unnamed hfunctions (hfills.unnamed f hf)

/-- The methods that the functions of a class stand for. -/
def bodiesOf (t : SourceTree) (c : ClassId) : List Body :=
  (t.forest c).flatMap fun f => (t.function? f).toList.map FunctionNode.body

/-- The forest of a class is its block. -/
theorem forest_perm_block (h : t.PlacesFunctions) {c : ClassId} {node : ClassNode}
    (hnode : t.class? c = some node) {before block after : List FunctionNode}
    {bodies : List Body} (hfunctions : t.functions = before ++ block ++ after)
    (hrooted : Rooted before.length node.memberFunctions block bodies) :
    (t.forest c).Perm (List.range' before.length block.length) := by
  have hmembers : t.membersOf c = node.memberFunctions := by simp [membersOf, hnode]
  have hbelow (i : Nat) (n : FunctionNode) (hn : block[i]? = some n) :
      t.below (before.length + i) = n.below := by
    have hi := (List.getElem?_eq_some_iff.mp hn).1
    simp [below, function?_eq_of_block hfunctions hi, hn]
  have hforest := h.forest_perm c
  refine (List.perm_ext_iff_of_nodup (h.forest_nodup c) List.nodup_range').mpr fun f => ⟨?_, ?_⟩
  · intro hf
    have hlevels := h.functionTree_perm fun _ hf => h.bound_member (c := c) hf
    refine Levels.forall_mem_levels t.below (fun g hg => ?_) (fun g hg k hk => ?_) _ f
      (hlevels.mem_iff.mp hf)
    · rw [hmembers] at hg
      exact hrooted.mem_range_of_mem_roots hg
    · obtain ⟨i, hi, rfl⟩ : ∃ i, i < block.length ∧ g = before.length + i := by
        have hg := List.mem_range'_1.mp hg
        exact ⟨g - before.length, by omega, (Nat.add_sub_of_le hg.1).symm⟩
      rw [hbelow i block[i] (List.getElem?_eq_getElem hi)] at hk
      exact hrooted.places.mem_iff.mp (List.mem_append_right _
        (List.mem_flatMap.mpr ⟨block[i], List.getElem_mem hi, hk⟩))
  · intro hf
    -- What is below a function that is no root comes later, so earlier functions are known.
    induction f using Nat.strongRecOn with
    | ind f ih =>
      rcases List.mem_append.mp (hrooted.places.mem_iff.mpr hf) with hroot | hplace
      · exact hforest.mem_iff.mpr (List.mem_append_left _ (hmembers ▸ hroot))
      · obtain ⟨n, hn, hfn⟩ := List.mem_flatMap.mp hplace
        obtain ⟨j, hj⟩ := List.getElem?_of_mem hn
        have hlt := (List.getElem?_eq_some_iff.mp hj).1
        have howner : before.length + j ∈ t.forest c := by
          rcases hrooted.order j n hj f hfn with hlater | hroot
          · exact ih _ hlater (List.mem_range'_1.mpr ⟨Nat.le_add_right _ _, by omega⟩)
          · exact hforest.mem_iff.mpr (List.mem_append_left _ (hmembers ▸ hroot))
        refine hforest.mem_iff.mpr (List.mem_append_right _ (List.mem_flatMap.mpr
          ⟨before.length + j, howner, ?_⟩))
        rw [hbelow j n hj]
        exact hfn

/-- The functions of a class stand for the methods in its block. -/
theorem bodiesOf_perm_block (h : t.PlacesFunctions) {c : ClassId} {node : ClassNode}
    (hnode : t.class? c = some node) {before block after : List FunctionNode}
    {bodies : List Body} (hfunctions : t.functions = before ++ block ++ after)
    (hrooted : Rooted before.length node.memberFunctions block bodies) :
    (t.bodiesOf c).Perm bodies := by
  refine ((forest_perm_block h hnode hfunctions hrooted).flatMap_right _).trans ?_
  refine List.Perm.trans (List.Perm.of_eq ?_) hrooted.bodies
  rw [List.range'_eq_map_range, List.flatMap_map, List.map_eq_flatMap,
    ← Lists.range_flatMap_getElem? block]
  refine List.flatMap_congr fun i hi => ?_
  rw [function?_eq_of_block hfunctions (List.mem_range.mp hi)]
  cases block[i]? <;> rfl

/-- A class stands for its unit. Unless it failed, its functions stand for the methods of the
unit. -/
theorem exists_standsFor_of_laid (h : Laid t.classes t.functions units) {c : ClassId}
    {node : ClassNode} (hnode : t.class? c = some node) : ∃ u, units[c]? = some u ∧
      node.StandsFor u ∧ (node.failed = false → (t.bodiesOf c).Perm u.placed) := by
  obtain ⟨u, before, block, after, hunit, hstands, hfunctions, hfills⟩ := h.exists_block hnode
  obtain ⟨bodies, hrooted, hbodies⟩ := hfills.rooted
  refine ⟨u, hunit, hstands, fun hfailed => ?_⟩
  exact (bodiesOf_perm_block (placesFunctions_of_laid h) hnode hfunctions hrooted).trans
    (hbodies hfailed)

end SourceTree

end LineAtlas
