import LineAtlas.Proofs.Report.Slots
import LineAtlas.Proofs.Tree.Holders

/-!
# What placing classes keeps

Placing a class changes the slot that it goes into, and may fail a class. It changes nothing
else: not the functions of a class, nor what classes stand for.
-/

namespace LineAtlas

/-- A function without the classes in it. -/
def FunctionNode.bare (f : FunctionNode) : FunctionNode := { f with classes := [] }

/-- A place for classes. -/
inductive Slot where
  /-- The top level. -/
  | topLevel
  /-- Nested in a class. -/
  | nested (owner : ClassId)
  /-- In the body of a function. -/
  | body (f : FunctionId)
  deriving DecidableEq

namespace SourceTree

/-- The classes in a place. -/
def slot (t : SourceTree) : Slot → List ClassId
  | .topLevel => t.topLevel
  | .nested owner => t.nestedOf owner
  | .body f => t.classesOf f

/-- Whether a tree has a place. -/
def HasSlot (t : SourceTree) : Slot → Prop
  | .topLevel => True
  | .nested owner => ∃ node, t.class? owner = some node ∧ node.shape.IsNamed
  | .body f => ∃ node, t.function? f = some node

/-- Whether a class failed. -/
def isFailed (t : SourceTree) (c : ClassId) : Bool := (t.class? c).any ClassNode.failed

end SourceTree

namespace Draft

/-- A draft follows from another one by steps that only place and fail classes. -/
structure Keeps (d d' : Draft) : Prop where
  /-- Functions are the same but for the classes in them. -/
  functions : d'.tree.functions.map FunctionNode.bare = d.tree.functions.map FunctionNode.bare
  /-- Classes are the same but for those in their slots. -/
  classes : d'.tree.classes.map ClassNode.bare = d.tree.classes.map ClassNode.bare
  /-- The classes with names of their own are the same. -/
  named : d'.named = d.named
  /-- The local classes are the same. -/
  localClasses : d'.localClasses = d.localClasses
  /-- The source file is the same. -/
  path : d'.tree.path = d.tree.path
  /-- The top levels of the file are the same. -/
  facades : d'.tree.facades = d.tree.facades
  /-- Classes come from the same files. -/
  sources : d'.sources = d.sources
  /-- Failed classes stay so. -/
  failed : ∀ c, d.tree.isFailed c = true → d'.tree.isFailed c = true
  /-- Failures are about classes that failed. -/
  reports : ∀ others, Reports d others → Reports d' others

/-- Doing nothing keeps everything. -/
theorem Keeps.refl (d : Draft) : Keeps d d :=
  ⟨rfl, rfl, rfl, rfl, rfl, rfl, rfl, fun _ h => h, fun _ h => h⟩

/-- Steps that follow one another keep what both keep. -/
theorem Keeps.trans {d d' d'' : Draft} (h : Keeps d d') (h' : Keeps d' d'') : Keeps d d'' :=
  ⟨h'.functions.trans h.functions, h'.classes.trans h.classes, h'.named.trans h.named,
    h'.localClasses.trans h.localClasses, h'.path.trans h.path, h'.facades.trans h.facades,
    h'.sources.trans h.sources, fun c hc => h'.failed c (h.failed c hc), fun others hothers =>
      h'.reports others (h.reports others hothers)⟩

/-- Puts a class into a place. -/
def put : Slot → ClassId → Drafting Unit
  | .topLevel, c =>
    modify fun d => { d with tree := { d.tree with topLevel := d.tree.topLevel ++ [c] } }
  | .nested owner, c => modifyNamed owner fun shape => { shape with nested := shape.nested ++ [c] }
  | .body f, c => modifyFunction f fun node => { node with classes := node.classes ++ [c] }

/-- A change to the slots of one class keeps everything else. -/
theorem modifyNamed_keeps (owner : ClassId) (change : NamedShape → NamedShape)
    (hchange : NamedShape.ChangesSlots change) (d : Draft) :
    Keeps d (modifyNamed owner change d).2 := by
  rw [modifyNamed_apply]
  refine ⟨rfl, Lists.map_modify (ClassNode.onNamed_bare hchange), rfl, rfl, rfl, rfl, rfl,
    fun c hc => ?_, fun others hothers n => ?_⟩
  · rw [SourceTree.isFailed, Option.any_eq_true] at hc ⊢
    obtain ⟨node, hnode, hfailed⟩ := hc
    refine ⟨if owner = c then node.onNamed change else node, ?_, ?_⟩
    · change (d.tree.classes.modify owner _)[c]? = _
      rw [List.getElem?_modify]
      change _ <$> d.tree.class? c = _
      rw [hnode]
      split <;> rfl
    · split
      · rw [ClassNode.onNamed_failed]
        exact hfailed
      · exact hfailed
  · rw [hothers n]
    refine or_congr Iff.rfl (Lists.exists_mem_modify ?_).symm
    intro node
    rw [ClassNode.onNamed_failed, ClassNode.onNamed_jvmName]

/-- Putting a class into a slot keeps everything else. -/
theorem put_keeps (s : Slot) (c : ClassId) (d : Draft) : Keeps d (put s c d).2 := by
  cases s with
  | topLevel => exact ⟨rfl, rfl, rfl, rfl, rfl, rfl, rfl, fun _ h => h, fun _ h => h⟩
  | nested owner => exact modifyNamed_keeps owner _ (fun shape => ⟨_, _, _, rfl⟩) d
  | body f =>
    exact ⟨Lists.map_modify fun _ => rfl, rfl, rfl, rfl, rfl, rfl, rfl, fun _ h => h, fun _ h => h⟩

/-- Noting a failure marks its class and leaves every other one. -/
theorem withFailed_class? (d : Draft) (id : ClassId) (e : ClassFailure) (c : ClassId) :
    (d.withFailed id e).tree.class? c = (d.tree.class? c).map fun node =>
      if id = c then { node with failed := true } else node := by
  change (d.tree.classes.modify id _)[c]? = _
  rw [List.getElem?_modify]
  change _ <$> d.tree.class? c = _
  cases d.tree.class? c with
  | none => rfl
  | some node => split <;> rfl

/-- Failing a class that is not in the draft changes nothing. -/
theorem fail_eq_self {d : Draft} {c : ClassId} (hnode : d.tree.class? c = none)
    (fault : PlacementFault) : fail c fault d = ((), d) := by
  have hmodify : d.tree.classes.modify c (fun node => { node with failed := true })
      = d.tree.classes := List.modify_eq_self (List.getElem?_eq_none_iff.mp hnode)
  rw [fail, bind_apply, modifyClass_apply]
  dsimp only
  rw [hmodify, bind_apply, get_apply]
  dsimp only
  rw [hnode]
  rfl

/-- Failing a class keeps everything else. -/
theorem fail_keeps (c : ClassId) (fault : PlacementFault) (d : Draft) :
    Keeps d (fail c fault d).2 := by
  cases hnode : d.tree.class? c with
  | none =>
    rw [fail_eq_self hnode]
    exact Keeps.refl d
  | some node =>
    obtain ⟨e, hrun, hname⟩ := fail_withFailed hnode fault
    rw [hrun]
    refine ⟨rfl, Lists.map_modify fun _ => rfl, rfl, rfl, rfl, rfl, rfl, fun i hi => ?_,
      fun others hothers n => ?_⟩
    · rw [SourceTree.isFailed, Option.any_eq_true] at hi ⊢
      obtain ⟨old, hold, hfailed⟩ := hi
      refine ⟨_, by rw [withFailed_class?, hold]; rfl, ?_⟩
      split
      · rfl
      · exact hfailed
    · have hnames : n ∈ namesOf (d.failures ++ [e]) ↔
          n ∈ namesOf d.failures ∨ node.jvmName = n := by
        rw [namesOf_append, List.mem_append]
        simp [namesOf, hname, eq_comm]
      have hclasses : (∃ x ∈ d.tree.classes.modify c fun x => { x with failed := true },
          x.failed = true ∧ x.jvmName = n) ↔
          (∃ x ∈ d.tree.classes, x.failed = true ∧ x.jvmName = n) ∨ node.jvmName = n := by
        constructor
        · rintro ⟨x, hx, hfailed, hjvm⟩
          obtain ⟨i, hi⟩ := List.getElem?_of_mem hx
          obtain ⟨old, hold, rfl⟩ := Lists.getElem?_modify_eq_some hi
          by_cases hci : c = i
          · subst hci
            obtain rfl := Option.some.inj (hold.symm.trans hnode)
            rw [if_pos rfl] at hjvm
            exact Or.inr hjvm
          · rw [if_neg hci] at hfailed hjvm
            exact Or.inl ⟨old, List.mem_of_getElem? hold, hfailed, hjvm⟩
        · rintro (⟨x, hx, hfailed, hjvm⟩ | hjvm)
          · obtain ⟨i, hi⟩ := List.getElem?_of_mem hx
            refine ⟨if c = i then { x with failed := true } else x,
              List.mem_of_getElem? (i := i) ?_, ?_, ?_⟩
            · rw [List.getElem?_modify, hi]
              split <;> rfl
            · split
              · rfl
              · exact hfailed
            · split <;> exact hjvm
          · refine ⟨{ node with failed := true }, List.mem_of_getElem? (i := c) ?_, rfl, hjvm⟩
            rw [List.getElem?_modify_eq]
            exact congrArg _ hnode
      change n ∈ namesOf (d.failures ++ [e]) ↔ n ∈ others ∨
        ∃ x ∈ d.tree.classes.modify c fun x => { x with failed := true }, _
      rw [hnames, hclasses, hothers n, or_assoc]

namespace Keeps

variable {d d' : Draft}

/-- A function stays the same but for the classes in it. -/
theorem function?_bare (h : Keeps d d') (f : FunctionId) :
    (d'.tree.function? f).map FunctionNode.bare = (d.tree.function? f).map FunctionNode.bare := by
  have hget := congrArg (·[f]?) h.functions
  simpa [SourceTree.function?] using hget

/-- A class stays the same but for its slots and for failing. -/
theorem class?_bare (h : Keeps d d') (c : ClassId) :
    (d'.tree.class? c).map ClassNode.bare = (d.tree.class? c).map ClassNode.bare := by
  have hget := congrArg (·[c]?) h.classes
  simpa [SourceTree.class?] using hget

/-- Placing classes adds no function. -/
theorem functions_length (h : Keeps d d') :
    d'.tree.functions.length = d.tree.functions.length := by
  simpa using congrArg List.length h.functions

/-- Placing classes adds no class. -/
theorem classes_length (h : Keeps d d') : d'.tree.classes.length = d.tree.classes.length := by
  simpa using congrArg List.length h.classes

/-- What does not depend on the classes in a function is kept. -/
theorem function?_map {β : Type} (h : Keeps d d') (g : FunctionNode → β)
    (hg : ∀ node, g node.bare = g node) (f : FunctionId) :
    (d'.tree.function? f).map g = (d.tree.function? f).map g := by
  have hbare := congrArg (Option.map g) (h.function?_bare f)
  simpa [Option.map_map, Function.comp_def, hg] using hbare

/-- What does not depend on the slots of a class, nor on whether it failed, is kept. -/
theorem class?_map {β : Type} (h : Keeps d d') (g : ClassNode → β)
    (hg : ∀ node, g node.bare = g node) (c : ClassId) :
    (d'.tree.class? c).map g = (d.tree.class? c).map g := by
  have hbare := congrArg (Option.map g) (h.class?_bare c)
  simpa [Option.map_map, Function.comp_def, hg] using hbare

/-- What may be read off a class, whatever is in its slots, stays the same. -/
theorem class?_bind {β : Type} (h : Keeps d d') (g : ClassNode → Option β)
    (hg : ∀ node, g node.bare = g node) (c : ClassId) :
    (d'.tree.class? c).bind g = (d.tree.class? c).bind g := by
  have hmap := congrArg (Option.bind · id) (h.class?_map g hg c)
  simpa [Option.bind_map, Function.comp_def] using hmap

/-- What is read off a function, whatever classes are in it, stays the same. -/
theorem function?_flatMap {β : Type} (h : Keeps d d') (g : FunctionNode → List β)
    (hg : ∀ node, g node.bare = g node) (f : FunctionId) :
    (d'.tree.function? f).toList.flatMap g = (d.tree.function? f).toList.flatMap g := by
  have hmap := congrArg (·.toList.flatten) (h.function?_map g hg f)
  simpa [Option.toList_map, ← List.flatMap_def] using hmap

/-- What is read off a class, whatever is in its slots, stays the same. -/
theorem class?_flatMap {β : Type} (h : Keeps d d') (g : ClassNode → List β)
    (hg : ∀ node, g node.bare = g node) (c : ClassId) :
    (d'.tree.class? c).toList.flatMap g = (d.tree.class? c).toList.flatMap g := by
  have hmap := congrArg (·.toList.flatten) (h.class?_map g hg c)
  simpa [Option.toList_map, ← List.flatMap_def] using hmap

/-- What is read off all functions, whatever classes are in them, stays the same. -/
theorem functions_flatMap {β : Type} (h : Keeps d d') (g : FunctionNode → List β)
    (hg : ∀ node, g node.bare = g node) :
    d'.tree.functions.flatMap g = d.tree.functions.flatMap g := by
  have hbare := congrArg (·.flatMap g) h.functions
  simpa [List.flatMap_map, hg] using hbare

/-- What is read off all classes, whatever is in their slots, stays the same. -/
theorem classes_flatMap {β : Type} (h : Keeps d d') (g : ClassNode → List β)
    (hg : ∀ node, g node.bare = g node) :
    d'.tree.classes.flatMap g = d.tree.classes.flatMap g := by
  have hbare := congrArg (·.flatMap g) h.classes
  simpa [List.flatMap_map, hg] using hbare

end Keeps

/-- The functions of a class do not depend on its slots. -/
theorem bare_memberFunctions (node : ClassNode) :
    node.bare.memberFunctions = node.memberFunctions := by
  cases hshape : node.shape <;>
    simp [ClassNode.memberFunctions_eq, ClassNode.listedFunctions, ClassNode.bare,
      ClassShape.bare, ClassShape.initializers, hshape]

/-- The initializers of a class do not depend on its slots. -/
theorem bare_initializers (node : ClassNode) :
    node.bare.shape.initializers = node.shape.initializers := by
  cases hshape : node.shape <;>
    simp [ClassNode.bare, ClassShape.bare, ClassShape.initializers, hshape]

namespace Keeps

variable {d d' : Draft}

/-- A class was there before. -/
theorem exists_old (h : Keeps d d') {c : ClassId} {node : ClassNode}
    (hnode : d'.tree.class? c = some node) : ∃ old, d.tree.class? c = some old ∧
      old.bare = node.bare := by
  have hbare := h.class?_bare c
  rw [hnode, Option.map_some] at hbare
  exact Option.map_eq_some_iff.mp hbare.symm

/-- A class is still there. -/
theorem exists_class (h : Keeps d d') {c : ClassId} {node : ClassNode}
    (hnode : d.tree.class? c = some node) : ∃ new, d'.tree.class? c = some new ∧
      new.bare = node.bare := by
  have hbare := h.class?_bare c
  rw [hnode, Option.map_some] at hbare
  exact Option.map_eq_some_iff.mp hbare

/-- What is right below a function stays there. -/
theorem below (h : Keeps d d') (f : FunctionId) : d'.tree.below f = d.tree.below f :=
  h.function?_flatMap FunctionNode.below (fun _ => rfl) f

/-- The functions of a class stay the same. -/
theorem membersOf (h : Keeps d d') (c : ClassId) : d'.tree.membersOf c = d.tree.membersOf c :=
  h.class?_flatMap ClassNode.memberFunctions bare_memberFunctions c

/-- What is below a function, down to some depth, stays the same. -/
theorem functionsWithin (h : Keeps d d') (depth : Nat) (f : FunctionId) :
    d'.tree.functionsWithin depth f = d.tree.functionsWithin depth f := by
  induction depth generalizing f with
  | zero => rfl
  | succ depth ih =>
    by_cases hf : f < d.tree.functions.length
    · rw [SourceTree.functionsWithin_succ depth hf,
        SourceTree.functionsWithin_succ depth (h.functions_length.symm ▸ hf), h.below,
        funext ih]
    · have hnone : d.tree.function? f = none := List.getElem?_eq_none (Nat.le_of_not_lt hf)
      have hnone' : d'.tree.function? f = none := by
        refine List.getElem?_eq_none ?_
        rw [h.functions_length]
        exact Nat.le_of_not_lt hf
      rw [SourceTree.functionsWithin, SourceTree.functionsWithin, hnone, hnone']

/-- All that is below a function stays the same. -/
theorem functionTree (h : Keeps d d') (f : FunctionId) :
    d'.tree.functionTree f = d.tree.functionTree f := by
  rw [SourceTree.functionTree, SourceTree.functionTree, h.functions_length, h.functionsWithin]

/-- The forest of a class stays the same. -/
theorem forest (h : Keeps d d') (c : ClassId) : d'.tree.forest c = d.tree.forest c := by
  rw [SourceTree.forest, SourceTree.forest, h.membersOf]
  exact List.flatMap_congr fun f _ => h.functionTree f

/-- The methods of a class stay the same. -/
theorem bodiesOf (h : Keeps d d') (c : ClassId) : d'.tree.bodiesOf c = d.tree.bodiesOf c := by
  rw [SourceTree.bodiesOf, SourceTree.bodiesOf, h.forest]
  refine List.flatMap_congr fun f _ => ?_
  rw [← Option.toList_map, ← Option.toList_map,
    h.function?_map FunctionNode.body (fun _ => rfl) f]

/-- A function without a name stays without one. -/
theorem isAnonymous (h : Keeps d d') (f : FunctionId) :
    d'.tree.isAnonymous f = d.tree.isAnonymous f := by
  have hmap := h.function?_map (fun node => node.kind == .anonymous) (fun _ => rfl) f
  simpa [SourceTree.isAnonymous, Option.any_map, Function.comp_def]
    using congrArg (Option.any id) hmap

/-- Functions keep their places. -/
theorem placesFunctions (h : Keeps d d') (hplaces : d.tree.PlacesFunctions) :
    d'.tree.PlacesFunctions := by
  have heq : d'.tree.functionPlaces = d.tree.functionPlaces := by
    rw [SourceTree.functionPlaces, SourceTree.functionPlaces,
      h.classes_flatMap ClassNode.memberFunctions bare_memberFunctions,
      h.functions_flatMap FunctionNode.below fun _ => rfl]
  constructor
  · rw [heq]
    exact hplaces.functionsNodup
  · rw [heq, h.functions_length]
    exact hplaces.functionsBound

/-- Helpers stay as they are. -/
theorem leavesHelpers (h : Keeps d d') (hleaves : d.tree.LeavesHelpers) :
    d'.tree.LeavesHelpers := by
  have hnode {f : FunctionId} {node : FunctionNode} (hf : d'.tree.function? f = some node) :
      ∃ old, d.tree.function? f = some old ∧ old.bare = node.bare := by
    have hbare := h.function?_bare f
    rw [hf, Option.map_some] at hbare
    exact Option.map_eq_some_iff.mp hbare.symm
  constructor
  · intro f node hf hkind
    obtain ⟨old, hold, hbare⟩ := hnode hf
    have hkind' : old.kind = .anonymous := (congrArg FunctionNode.kind hbare).trans hkind
    exact (congrArg FunctionNode.defaultValues hbare).symm.trans
      (hleaves.anonymous f old hold hkind')
  · intro f node helper hf hhelper
    obtain ⟨old, hold, hbare⟩ := hnode hf
    rw [h.isAnonymous]
    exact hleaves.helper f old helper hold
      ((congrArg FunctionNode.defaultValues hbare).trans hhelper)
  · intro c hc f hf
    obtain ⟨i, hi⟩ := List.getElem?_of_mem hc
    have hbare := h.class?_bare i
    have hclass : d'.tree.class? i = some c := hi
    rw [hclass, Option.map_some] at hbare
    obtain ⟨old, hold, hsame⟩ := Option.map_eq_some_iff.mp hbare.symm
    rw [h.isAnonymous]
    refine hleaves.unnamed old (List.mem_of_getElem? hold) f ?_
    have hproperties : old.bare.properties = c.bare.properties := by rw [hsame]
    have hinit : old.shape.initializers = c.shape.initializers := by
      rw [← bare_initializers, hsame, bare_initializers]
    rw [show old.properties = c.properties from hproperties, hinit]
    exact hf

end Keeps

namespace Holds

variable {d : Draft} {units : List ResolvedUnit} {others : List String}

/-- Before classes are placed, all places are empty. -/
theorem slot_eq_nil (h : Holds d units others) (s : Slot) : d.tree.slot s = [] := by
  cases s with
  | topLevel => exact h.topLevel
  | nested o =>
    change (d.tree.class? o).toList.flatMap _ = []
    cases hnode : d.tree.class? o with
    | none => rfl
    | some node => simpa using (h.slots node (List.mem_of_getElem? hnode)).1
  | body f =>
    change (d.tree.function? f).toList.flatMap _ = []
    cases hnode : d.tree.function? f with
    | none => rfl
    | some node =>
      obtain ⟨before, block, after, roots, bodies, i, -, hrooted, -, hi⟩ :=
        h.laid.exists_rooted hnode
      simpa using hrooted.blank i node hi

/-- In a draft that holds units no companion is in its slot yet. -/
theorem companionOf_eq_nil (h : Holds d units others) (o : ClassId) :
    d.tree.companionOf o = [] := by
  rw [SourceTree.companionOf]
  cases hnode : d.tree.class? o with
  | none => rfl
  | some node => simpa using (h.slots node (List.mem_of_getElem? hnode)).2

end Holds

end Draft

end LineAtlas
