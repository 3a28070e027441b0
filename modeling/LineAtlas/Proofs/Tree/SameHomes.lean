import LineAtlas.Proofs.Tree.Arranged
import LineAtlas.Proofs.Tree.HolderOrder

/-!
# The same homes at other positions

What placing looks up comes to the same in drafts that correspond to each other: the class with a
name, the function with a signature, the class around a nested one. Hence a class has the same
home in both, or none for the same reason.
-/

namespace LineAtlas

/-- The place of a class tells where the class is. -/
theorem Slot.rename_inj (ρ : Equiv.Perm FunctionId) (κ : Equiv.Perm ClassId) :
    Function.Injective (Slot.rename ρ κ) := by
  intro s s' h
  cases s <;> cases s' <;> simp_all [Slot.rename]

section Rename

variable (ρ : FunctionId → FunctionId) (node : ClassNode)

/-- Where a local class is declared does not depend on positions. -/
theorem ClassNode.rename_origin? : (node.rename ρ).origin? = node.origin? := by
  cases hshape : node.shape <;> simp [origin?, rename, ClassShape.rename, hshape]

/-- The declared name does not depend on positions. -/
theorem ClassNode.rename_declaredName? : (node.rename ρ).declaredName? = node.declaredName? := by
  cases hshape : node.shape <;> simp [declaredName?, rename, ClassShape.rename, hshape]

/-- The companion that is expected does not depend on positions. -/
theorem ClassNode.rename_expected? : (node.rename ρ).expected? = node.expected? := by
  cases hshape : node.shape <;> simp [expected?, rename, ClassShape.rename, hshape]

end Rename

namespace SourceTree.Corresponds

variable {t t' : SourceTree} {ρ : Equiv.Perm FunctionId} {κ : Equiv.Perm ClassId}

/-- Where one tree has no class, the other has none at the corresponding position. -/
theorem class?_eq_none (h : Corresponds ρ κ t t') {c : ClassId} (hnode : t.class? c = none) :
    t'.class? (κ c) = none := by
  rw [← Option.map_eq_none_iff, h.classes c, hnode, Option.map_none]

/-- At the corresponding position stands the same class, up to its slots. -/
theorem exists_class (h : Corresponds ρ κ t t') {c : ClassId} {node : ClassNode}
    (hnode : t.class? c = some node) :
    ∃ node', t'.class? (κ c) = some node' ∧ node'.bare = (node.rename ρ).bare := by
  have hclass := h.classes c
  rw [hnode, Option.map_some] at hclass
  exact Option.map_eq_some_iff.mp hclass

/-- What a class has besides positions and slots is the same. -/
theorem class?_bind {β : Type} (h : Corresponds ρ κ t t') (g : ClassNode → Option β)
    (hbare : ∀ node, g node.bare = g node) (hrename : ∀ node, g (node.rename ρ) = g node)
    (c : ClassId) : (t'.class? (κ c)).bind g = (t.class? c).bind g := by
  have hclass := congrArg (Option.bind · g) (h.classes c)
  simpa only [Option.bind_map, Function.comp_def, hbare, hrename] using hclass

/-- What is below a function, down to some depth, is below the corresponding one. -/
theorem functionsWithin (h : Corresponds ρ κ t t') (depth : Nat) (f : FunctionId) :
    t'.functionsWithin depth (ρ f) = (t.functionsWithin depth f).map ρ := by
  induction depth generalizing f with
  | zero => rfl
  | succ depth ih =>
    have hfunction := h.functions f
    cases hnode : t.function? f with
    | none =>
      rw [hnode] at hfunction
      rw [SourceTree.functionsWithin, SourceTree.functionsWithin, hnode,
        Option.map_eq_none_iff.mp hfunction]
      rfl
    | some node =>
      rw [hnode, Option.map_some] at hfunction
      obtain ⟨node', hnode', hbare⟩ := Option.map_eq_some_iff.mp hfunction
      have hbelow : node'.below = node.below.map ρ := by
        have hsame : node'.bare.below = (node.rename ρ).bare.below := by rw [hbare]
        exact hsame.trans (FunctionNode.rename_below ρ node)
      rw [SourceTree.functionsWithin, SourceTree.functionsWithin, hnode, hnode']
      change ρ f :: node'.below.flatMap _ = ρ f :: (node.below.flatMap _).map ρ
      rw [hbelow, List.flatMap_map, List.map_flatMap]
      exact congrArg _ (List.flatMap_congr fun g _ => ih g)

end SourceTree.Corresponds

namespace Draft

/-- No two classes have the same declared name. -/
def DeclaredOnce (d : Draft) : Prop :=
  ∀ c ∈ d.named, ∀ o ∈ d.named, ∀ name, d.declaredName? c = some name →
    d.declaredName? o = some name → c = o

namespace Corresponds

variable {d d' : Draft} {ρ : Equiv.Perm FunctionId} {κ : Equiv.Perm ClassId}

/-- All that is below a function is below the corresponding one. -/
theorem functionTree (h : Corresponds ρ κ d d') (f : FunctionId) :
    d'.tree.functionTree (ρ f) = (d.tree.functionTree f).map ρ := by
  rw [SourceTree.functionTree, SourceTree.functionTree, h.functionsLength, h.tree.functionsWithin]

/-- Classes at corresponding positions are declared in the same place. -/
theorem originOf? (h : Corresponds ρ κ d d') (c : ClassId) :
    d'.originOf? (κ c) = d.originOf? c := by
  rw [originOf?_eq, originOf?_eq]
  exact h.tree.class?_bind ClassNode.origin? ClassNode.bare_origin?
    (ClassNode.rename_origin? ρ) c

/-- Classes at corresponding positions have the same declared name. -/
theorem declaredName? (h : Corresponds ρ κ d d') (c : ClassId) :
    d'.declaredName? (κ c) = d.declaredName? c :=
  h.tree.class?_bind ClassNode.declaredName? ClassNode.bare_declaredName?
    (ClassNode.rename_declaredName? ρ) c

/-- The class with a declared name is at the corresponding position. -/
theorem withDeclaredName? (h : Corresponds ρ κ d d') (honce : DeclaredOnce d) (name : ClassName) :
    d'.withDeclaredName? name = (d.withDeclaredName? name).map κ := by
  have hreverse : d'.named.reverse.Perm (d.named.reverse.map κ) := by
    rw [List.map_reverse]
    exact ((List.reverse_perm _).trans h.named).trans (List.reverse_perm _).symm
  refine Lists.find?_perm_map hreverse (fun c _ => by rw [h.declaredName?])
    fun c hc o ho hcname honame => ?_
  exact honce c (List.mem_reverse.mp hc) o (List.mem_reverse.mp ho) name (eq_of_beq hcname)
    (eq_of_beq honame)

/-- The class with an internal name is the same. -/
theorem ownerNamed? (h : Corresponds ρ κ d d')
    (hnames : (d'.tree.classes.map ClassNode.jvmName).Nodup) (name : String) :
    (d'.ownerNamed? name).map ClassNode.bare
      = (d.ownerNamed? name).map fun node => (node.rename ρ).bare := by
  have hjvm {node node' : ClassNode} (hbare : node'.bare = (node.rename ρ).bare) :
      node'.jvmName = node.jvmName := by
    have hsame : node'.bare.jvmName = (node.rename ρ).bare.jvmName := by rw [hbare]
    exact hsame
  cases hfind : d.ownerNamed? name with
  | none =>
    rw [Option.map_none, Option.map_eq_none_iff]
    refine List.find?_eq_none.mpr fun owner' howner' hname => ?_
    obtain ⟨i, hi⟩ := List.getElem?_of_mem howner'
    obtain ⟨o, rfl⟩ := κ.surjective i
    have hclass : d'.tree.class? (κ o) = some owner' := hi
    cases howner : d.tree.class? o with
    | none => simp [h.tree.class?_eq_none howner] at hclass
    | some owner =>
      obtain ⟨same, hsame, hbare⟩ := h.tree.exists_class howner
      obtain rfl := Option.some.inj (hclass.symm.trans hsame)
      rw [hjvm hbare] at hname
      exact List.find?_eq_none.mp hfind owner (List.mem_of_getElem? howner) hname
  | some owner =>
    obtain ⟨o, ho⟩ := List.getElem?_of_mem (List.mem_of_find?_eq_some hfind)
    obtain ⟨owner', howner', hbare⟩ := h.tree.exists_class ho
    have hname : owner.jvmName = name := by simpa using List.find?_some hfind
    rw [← hname, ← hjvm hbare, ownerNamed?_eq_some hnames (List.mem_of_getElem? howner'),
      Option.map_some, Option.map_some, hbare]

/-- The function that a local class names is the same. -/
theorem bodyIn? (h : Corresponds ρ κ d d') {owner owner' : ClassNode}
    (hbare : owner'.bare = (owner.rename ρ).bare) (origin : Origin) :
    bodyIn? d'.tree owner' origin = (bodyIn? d.tree owner origin).map ρ := by
  have hmembers : owner'.memberFunctions = owner.memberFunctions.map ρ := by
    rw [← bare_memberFunctions, hbare, bare_memberFunctions, ClassNode.rename_memberFunctions]
  have hinitializer : owner'.initializer? = owner.initializer?.map ρ := by
    have hbare? (node : ClassNode) : node.bare.initializer? = node.initializer? := by
      cases hshape : node.shape <;>
        simp [ClassNode.initializer?, ClassNode.bare, ClassShape.bare, hshape]
    rw [← hbare?, hbare, hbare?, ClassNode.rename_initializer?]
  unfold Draft.bodyIn?
  cases origin.outerMethod with
  | none => exact hinitializer
  | some signature =>
    have hsignature (f : FunctionId) : (d'.tree.function? (ρ f)).any (·.body.signature == signature)
        = (d.tree.function? f).any (·.body.signature == signature) := by
      have hmap := h.embeds.function?_map (·.body.signature == signature) (fun _ => rfl) f
      have hany := congrArg (Option.any id) hmap
      rw [Option.any_map, Option.any_map] at hany
      exact hany
    dsimp only
    rw [functionIn?, functionIn?, hmembers, List.flatMap_map]
    simp only [h.functionTree]
    rw [← List.map_flatMap, List.find?_map]
    exact congrArg (Option.map ρ) (congrArg (List.find? · _) (funext hsignature))

/-- A class goes to the same place. -/
theorem home? (h : Corresponds ρ κ d d') (honce : DeclaredOnce d)
    (hnames : (d'.tree.classes.map ClassNode.jvmName).Nodup) (c : ClassId) :
    d'.home? (κ c) = (d.home? c).map (Slot.rename ρ κ) := by
  rw [home?_eq, home?_eq, h.originOf?, h.declaredName?]
  cases d.originOf? c with
  | some origin =>
    dsimp only
    have howner := h.ownerNamed? hnames origin.outerClass
    cases hold : d.ownerNamed? origin.outerClass with
    | none =>
      rw [hold] at howner
      rw [Option.map_eq_none_iff.mp howner]
      rfl
    | some owner =>
      rw [hold] at howner
      obtain ⟨owner', hnew, hbare⟩ := Option.map_eq_some_iff.mp howner
      rw [hnew, Option.bind_some, Option.bind_some, h.bodyIn? hbare, Option.map_map,
        Option.map_map]
      rfl
  | none =>
    cases d.declaredName? c with
    | none => rfl
    | some name =>
      dsimp only
      cases name.parent? with
      | none => rfl
      | some parent =>
        dsimp only
        rw [h.withDeclaredName? honce, Option.map_map, Option.map_map]
        rfl

/-- A class without a place lacks it for the same reason. -/
theorem fault? (h : Corresponds ρ κ d d') (honce : DeclaredOnce d)
    (hnames : (d'.tree.classes.map ClassNode.jvmName).Nodup) (c : ClassId) :
    d'.fault? (κ c) = d.fault? c := by
  rw [fault?_eq, fault?_eq, h.originOf?, h.declaredName?]
  cases d.originOf? c with
  | some origin =>
    dsimp only
    have howner := h.ownerNamed? hnames origin.outerClass
    cases hold : d.ownerNamed? origin.outerClass with
    | none =>
      rw [hold] at howner
      rw [Option.map_eq_none_iff.mp howner]
    | some owner =>
      rw [hold] at howner
      obtain ⟨owner', hnew, hbare⟩ := Option.map_eq_some_iff.mp howner
      have hname : owner'.bare.jvmName = (owner.rename ρ).bare.jvmName := by rw [hbare]
      have hfault : bodyFault owner' origin = bodyFault owner origin := by
        rw [bodyFault, bodyFault, show owner'.jvmName = owner.jvmName from hname]
      rw [hnew]
      dsimp only
      rw [h.bodyIn? hbare, hfault, Option.isSome_map]
  | none =>
    cases d.declaredName? c with
    | none => rfl
    | some name =>
      dsimp only
      cases name.parent? with
      | none => rfl
      | some parent =>
        simp only [Option.bind_some, h.withDeclaredName? honce, Option.isSome_map]

/-- A fault of a class is reported in the same way in both drafts. -/
theorem failureOf (h : Corresponds ρ κ d d') {c : ClassId} {node node' : ClassNode}
    (hbare : node'.bare = (node.rename ρ).bare) (fault : PlacementFault) :
    d'.failureOf (κ c) node' fault = d.failureOf c node fault := by
  have hname : node'.bare.jvmName = (node.rename ρ).bare.jvmName := by rw [hbare]
  rw [Draft.failureOf, Draft.failureOf, h.sources, show node'.jvmName = node.jvmName from hname]

/-- The same is reported of it. -/
theorem blame? (h : Corresponds ρ κ d d') (honce : DeclaredOnce d)
    (hnames : (d'.tree.classes.map ClassNode.jvmName).Nodup) (c : ClassId) :
    d'.blame? (κ c) = d.blame? c := by
  rw [Draft.blame?, Draft.blame?, h.fault? honce hnames]
  cases hnode : d.tree.class? c with
  | none =>
    rw [h.tree.class?_eq_none hnode]
    rfl
  | some node =>
    obtain ⟨node', hnode', hbare⟩ := h.tree.exists_class hnode
    rw [hnode', Option.bind_some, Option.bind_some]
    exact Option.map_congr fun fault _ => h.failureOf hbare fault

/-- The declared name of a companion object is the same. -/
theorem expected? (h : Corresponds ρ κ d d') (o : ClassId) :
    d'.expected? (κ o) = d.expected? o :=
  h.tree.class?_bind ClassNode.expected? ClassNode.bare_expected? (ClassNode.rename_expected? ρ) o

/-- The same static methods forward to no member of a companion object. -/
theorem strayForwarders (h : Corresponds ρ κ d d') (o : ClassId) {node node' : ClassNode}
    (hbare : node'.bare = (node.rename ρ).bare) :
    d'.strayForwarders (κ o) node' = d.strayForwarders o node := by
  have hmembers : node'.memberFunctions = node.memberFunctions.map ρ := by
    rw [← bare_memberFunctions, hbare, bare_memberFunctions, ClassNode.rename_memberFunctions]
  have hsignatures : ((node.memberFunctions.map ρ).filterMap d'.tree.function?).map
      (·.body.signature) = (node.memberFunctions.filterMap d.tree.function?).map
        (·.body.signature) := by
    rw [List.filterMap_map, List.map_filterMap, List.map_filterMap]
    exact List.filterMap_congr fun f _ =>
      h.embeds.function?_map (·.body.signature) (fun _ => rfl) f
  rw [Draft.strayForwarders, Draft.strayForwarders, hmembers, hsignatures, h.sources]

/-- The forwarders at corresponding positions have the same fault. -/
theorem forwarderFault? (h : Corresponds ρ κ d d') (policy : AccountingPolicy) (o c : ClassId) :
    d'.forwarderFault? policy (κ o) (κ c) = d.forwarderFault? policy o c := by
  have hstray : (d'.tree.class? (κ c)).map (d'.strayForwarders (κ o))
      = (d.tree.class? c).map (d.strayForwarders o) := by
    cases hnode : d.tree.class? c with
    | none =>
      rw [h.tree.class?_eq_none hnode]
      rfl
    | some node =>
      obtain ⟨node', hnode', hbare⟩ := h.tree.exists_class hnode
      rw [hnode', Option.map_some, Option.map_some, h.strayForwarders o hbare]
  unfold Draft.forwarderFault?
  rw [hstray]

end Corresponds

end Draft

end LineAtlas
