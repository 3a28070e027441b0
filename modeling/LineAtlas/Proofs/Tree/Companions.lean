import LineAtlas.Proofs.Tree.Placing

/-!
# Companion objects in their slots

The companion object of a class is one of the classes nested in it. It moves from there into a
slot of its own, and nothing else moves.
-/

namespace LineAtlas

/-- The declared name of the companion object that a class names. -/
def ClassNode.expected? (node : ClassNode) : Option ClassName :=
  match node.shape with
  | .named shape => shape.companionName.map shape.declaredName.nested
  | _ => none

/-- The companion that is expected does not depend on what stands in slots. -/
theorem ClassNode.bare_expected? (node : ClassNode) : node.bare.expected? = node.expected? := by
  cases hshape : node.shape <;> simp [expected?, bare, ClassShape.bare, hshape]

namespace Draft

variable {d d' d'' : Draft}

/-- The class that goes into the slot for the companion object of a class. -/
def chosen? (d : Draft) (o : ClassId) : Option ClassId :=
  match (d.tree.class? o).map ClassNode.shape with
  | some (.named shape) => shape.companionName.bind fun name =>
    shape.nested.find? fun child => d.declaredName? child == some (shape.declaredName.nested name)
  | _ => none

/-- The declared name of the companion object of a class. -/
def expected? (d : Draft) (o : ClassId) : Option ClassName :=
  (d.tree.class? o).bind ClassNode.expected?

/-- What the policy finds wrong with the static methods of a class. -/
def forwarderFault? (policy : AccountingPolicy) (d : Draft) (o c : ClassId) :
    Option PlacementFault :=
  match policy, (d.tree.class? c).map (d.strayForwarders o) with
  | .strict, some (first :: others) => some (.strayForwarders (first :: others))
  | _, _ => none

/-- What is wrong with the companion object of a class. -/
def companionFault? (policy : AccountingPolicy) (d : Draft) (o : ClassId) :
    Option PlacementFault :=
  (d.expected? o).bind fun name =>
    match d.chosen? o with
    | some c => d.forwarderFault? policy o c
    | none => some (.companionNotFound name)

/-- What is reported of a class because of its companion object. -/
def companionBlame? (policy : AccountingPolicy) (d : Draft) (o : ClassId) :
    Option ClassFailure :=
  (d.tree.class? o).bind fun node => (d.companionFault? policy o).map (d.failureOf o node)

/-- The classes that stay nested in a class. -/
def remaining (d : Draft) (o : ClassId) : List ClassId :=
  match d.chosen? o with
  | some c => (d.tree.nestedOf o).erase c
  | none => d.tree.nestedOf o

/-- The classes in all slots of a class. -/
def allSlotsOf (t : SourceTree) (o : ClassId) : List ClassId × List ClassId × List ClassId :=
  (t.nestedOf o, t.companionOf o, t.holderOf o)

/-- A draft follows from another one without any class being moved. -/
structure Stays (d d' : Draft) : Prop where
  /-- Nothing but failures changes. -/
  keeps : Keeps d d'
  /-- Classes stay at the top level. -/
  topLevel : d'.tree.topLevel = d.tree.topLevel
  /-- Classes stay in their functions. -/
  bodies : d'.tree.functions = d.tree.functions
  /-- Classes stay in slots. -/
  slots : ∀ o, allSlotsOf d'.tree o = allSlotsOf d.tree o

/-- A draft stays as it is. -/
theorem Stays.refl (d : Draft) : Stays d d := ⟨Keeps.refl d, rfl, rfl, fun _ => rfl⟩

/-- Noting a failure moves no class. -/
theorem fail_stays (c : ClassId) (fault : PlacementFault) (d : Draft) :
    Stays d (fail c fault d).2 := by
  have hslots (o : ClassId) : allSlotsOf (fail c fault d).2.tree o = allSlotsOf d.tree o := by
    simp only [allSlotsOf, SourceTree.nestedOf, SourceTree.companionOf, SourceTree.holderOf,
      fail_class?]
    cases d.tree.class? o with
    | none => rfl
    | some node => by_cases ho : c = o <;> simp [ho]
  cases hnode : d.tree.class? c with
  | none =>
    rw [fail_eq_self hnode]
    exact Stays.refl d
  | some node =>
    obtain ⟨e, hrun, -⟩ := fail_withFailed hnode fault
    exact ⟨fail_keeps c fault d, by rw [hrun]; rfl, by rw [hrun]; rfl, hslots⟩

/-- Checking forwarders fails the class if something is wrong with them. -/
theorem checkForwarders_apply (policy : AccountingPolicy) (o c : ClassId) (d : Draft) :
    checkForwarders policy o c d = match d.forwarderFault? policy o c with
      | some fault => fail o fault d
      | none => ((), d) := by
  rw [checkForwarders, bind_apply, get_apply]
  unfold forwarderFault?
  dsimp only
  cases policy with
  | lenient => rfl
  | strict =>
    match (d.tree.class? c).map (d.strayForwarders o) with
    | none => rfl
    | some [] => rfl
    | some (first :: others) => rfl

/-- Checking forwarders moves no class. -/
theorem checkForwarders_stays (policy : AccountingPolicy) (o c : ClassId) (d : Draft) :
    Stays d (checkForwarders policy o c d).2 := by
  rw [checkForwarders_apply]
  cases d.forwarderFault? policy o c with
  | none => exact Stays.refl d
  | some fault => exact fail_stays o fault d

/-- Checking forwarders notes the fault that there is, and nothing else. -/
theorem checkForwarders_failures (policy : AccountingPolicy) {o c : ClassId} {node : ClassNode}
    (hnode : d.tree.class? o = some node) : (checkForwarders policy o c d).2.failures
      = d.failures ++ ((d.forwarderFault? policy o c).map (d.failureOf o node)).toList := by
  rw [checkForwarders_apply]
  cases d.forwarderFault? policy o c with
  | none => exact (List.append_nil _).symm
  | some fault =>
    dsimp only
    rw [fail_apply hnode]
    rfl

/-- A draft follows from another one by moving the companion objects of some classes into their
slots. -/
structure Moves (policy : AccountingPolicy) (d d' : Draft) (owners : List ClassId) : Prop where
  /-- Nothing but places changes. -/
  keeps : Keeps d d'
  /-- Classes stay at the top level. -/
  topLevel : d'.tree.topLevel = d.tree.topLevel
  /-- Classes stay in their functions. -/
  bodies : d'.tree.functions = d.tree.functions
  /-- The companion objects of these classes moved. -/
  moved : ∀ o ∈ owners, allSlotsOf d'.tree o
    = (d.remaining o, (d.chosen? o).toList, d.tree.holderOf o)
  /-- Those of other classes did not. -/
  stayed : ∀ o ∉ owners, allSlotsOf d'.tree o = allSlotsOf d.tree o
  /-- What is wrong with them is reported. -/
  blamed : d'.failures = d.failures ++ owners.filterMap (d.companionBlame? policy)

/-- No classes move no companions. -/
theorem Moves.refl (policy : AccountingPolicy) (d : Draft) : Moves policy d d [] :=
  ⟨Keeps.refl d, rfl, rfl, by simp, fun _ _ => rfl, by simp⟩

/-- The companion that is expected stays the same while classes are placed. -/
theorem Keeps.expected? (h : Keeps d d') (o : ClassId) : d'.expected? o = d.expected? o :=
  h.class?_bind ClassNode.expected? ClassNode.bare_expected? o

/-- The companion object of a class is the nested class with the expected name. -/
theorem chosen?_eq_find? (d : Draft) (o : ClassId) : d.chosen? o = (d.expected? o).bind fun name =>
    (d.tree.nestedOf o).find? fun child => d.declaredName? child == some name := by
  unfold chosen? expected? SourceTree.nestedOf
  cases d.tree.class? o with
  | none => rfl
  | some node =>
    cases hshape : node.shape <;>
      simp [hshape, ClassNode.expected?, ClassShape.nested, Option.bind_map]

/-- What goes into the slot of a class depends on what is nested in it. -/
theorem chosen?_congr (h : Keeps d d') {o : ClassId}
    (hnested : d'.tree.nestedOf o = d.tree.nestedOf o) : d'.chosen? o = d.chosen? o := by
  rw [chosen?_eq_find?, chosen?_eq_find?, h.expected?, hnested]
  simp only [h.declaredName?]

/-- The forwarders without a member stay the same while classes are placed. -/
theorem Keeps.strayForwarders (h : Keeps d d') (o : ClassId) {node new : ClassNode}
    (hbare : new.bare = node.bare) : d'.strayForwarders o new = d.strayForwarders o node := by
  have hmembers : new.memberFunctions = node.memberFunctions := by
    rw [← bare_memberFunctions new, hbare, bare_memberFunctions]
  have hsignatures : (node.memberFunctions.filterMap d'.tree.function?).map (·.body.signature)
      = (node.memberFunctions.filterMap d.tree.function?).map (·.body.signature) := by
    rw [List.map_filterMap, List.map_filterMap]
    exact List.filterMap_congr fun f _ => h.function?_map (·.body.signature) (fun _ => rfl) f
  rw [Draft.strayForwarders, Draft.strayForwarders, hmembers, hsignatures, h.sources]

/-- The fault of forwarders stays the same while classes are placed. -/
theorem Keeps.forwarderFault? (h : Keeps d d') (policy : AccountingPolicy) (o c : ClassId) :
    d'.forwarderFault? policy o c = d.forwarderFault? policy o c := by
  have hstray : (d'.tree.class? c).map (d'.strayForwarders o)
      = (d.tree.class? c).map (d.strayForwarders o) := by
    cases hclass : d.tree.class? c with
    | none =>
      have hbare := h.class?_bare c
      rw [hclass] at hbare
      rw [Option.map_eq_none_iff.mp hbare, Option.map_none, Option.map_none]
    | some node =>
      obtain ⟨new, hnew, hbare⟩ := h.exists_class hclass
      rw [hnew, Option.map_some, Option.map_some, h.strayForwarders o hbare]
  unfold Draft.forwarderFault?
  rw [hstray]

/-- What is reported of a class depends on what is nested in it. -/
theorem companionBlame?_congr (h : Keeps d d') (policy : AccountingPolicy) {o : ClassId}
    (hnested : d'.tree.nestedOf o = d.tree.nestedOf o) :
    d'.companionBlame? policy o = d.companionBlame? policy o := by
  have hfault : d'.companionFault? policy o = d.companionFault? policy o := by
    simp only [companionFault?, h.expected?, chosen?_congr h hnested, h.forwarderFault?]
  rw [companionBlame?, companionBlame?, hfault]
  cases hclass : d.tree.class? o with
  | none =>
    have hbare := h.class?_bare o
    rw [hclass] at hbare
    rw [Option.map_eq_none_iff.mp hbare]
    rfl
  | some node =>
    obtain ⟨new, hnew, -⟩ := h.exists_class hclass
    rw [hnew, Option.bind_some, Option.bind_some]
    exact Option.map_congr fun fault _ => h.failureOf hclass hnew fault

variable {policy : AccountingPolicy}

/-- A class without a companion object among its nested classes has nothing to move. -/
theorem Stays.moves_of_chosen?_eq_none (h : Stays d d') {o : ClassId}
    (hchosen : d.chosen? o = none) (hempty : d.tree.companionOf o = [])
    (hblamed : d'.failures = d.failures ++ (d.companionBlame? policy o).toList) :
    Moves policy d d' [o] where
  keeps := h.keeps
  topLevel := h.topLevel
  bodies := h.bodies
  moved := fun o' ho' => by
    rw [List.mem_singleton.mp ho', h.slots, allSlotsOf, remaining, hchosen, hempty]
    rfl
  stayed := fun o' _ => h.slots o'
  blamed := by rw [hblamed, List.filterMap_eq_flatMap_toList, List.flatMap_singleton]

/-- Placing the companion object of a class moves it into its slot. -/
theorem placeCompanion_moves (policy : AccountingPolicy) {o : ClassId} {node : ClassNode}
    {shape : NamedShape} (hnode : d.tree.class? o = some node) (hshape : node.shape = .named shape)
    (hempty : d.tree.companionOf o = []) : Moves policy d (placeCompanion policy o d).2 [o] := by
  have hblame : d.companionBlame? policy o
      = ((shape.companionName.map shape.declaredName.nested).bind fun name =>
        match d.chosen? o with
        | some c => d.forwarderFault? policy o c
        | none => some (.companionNotFound name)).map (d.failureOf o node) := by
    simp [companionBlame?, companionFault?, expected?, ClassNode.expected?, hnode, hshape]
  have hchosen : d.chosen? o = shape.companionName.bind fun name => shape.nested.find? fun child =>
      d.declaredName? child == some (shape.declaredName.nested name) := by
    simp [chosen?, hnode, hshape]
  rw [placeCompanion, bind_apply, get_apply]
  dsimp only
  rw [hnode, Option.map_some, hshape]
  dsimp only
  cases hname : shape.companionName with
  | none =>
    rw [hname, Option.bind_none] at hchosen
    refine (Stays.refl d).moves_of_chosen?_eq_none hchosen hempty ?_
    rw [hblame, hname]
    exact (List.append_nil _).symm
  | some name =>
    rw [hname, Option.bind_some] at hchosen
    dsimp only
    cases hfind : shape.nested.find? fun child =>
        d.declaredName? child == some (shape.declaredName.nested name) with
    | none =>
      refine (fail_stays o _ d).moves_of_chosen?_eq_none (hchosen.trans hfind) hempty ?_
      rw [hblame, hname, hchosen.trans hfind, fail_apply hnode]
      rfl
    | some c =>
      rw [hfind] at hchosen
      dsimp only
      rw [bind_apply]
      have hkeeps := modifyNamed_keeps o (fun shape =>
        { shape with nested := shape.nested.erase c, companion := some c })
        (fun shape => ⟨_, _, _, rfl⟩) d
      have hcheck := checkForwarders_stays policy o c (modifyNamed o (fun shape =>
        { shape with nested := shape.nested.erase c, companion := some c }) d).2
      refine ⟨hkeeps.trans hcheck.keeps, hcheck.topLevel, hcheck.bodies, fun o' ho' => ?_,
        fun o' ho' => ?_, ?_⟩
      · rw [List.mem_singleton.mp ho', hcheck.slots, remaining, hchosen]
        simp [allSlotsOf, SourceTree.nestedOf, SourceTree.companionOf, SourceTree.holderOf,
          modifyNamed_class?, hnode, ClassNode.onNamed, hshape, ClassShape.nested,
          ClassShape.companion, ClassShape.holder]
      · have hne : ¬ o = o' := fun heq => ho' (heq ▸ List.mem_cons_self)
        rw [hcheck.slots]
        simp [allSlotsOf, SourceTree.nestedOf, SourceTree.companionOf, SourceTree.holderOf,
          modifyNamed_class?, hne]
      · obtain ⟨new, hnew, -⟩ := hkeeps.exists_class hnode
        rw [checkForwarders_failures policy hnew, hkeeps.forwarderFault?,
          List.filterMap_eq_flatMap_toList, List.flatMap_singleton, hblame, hname, hchosen,
          Option.map_congr fun fault _ => hkeeps.failureOf hnode hnew fault]
        rfl

/-- Companions of different classes are moved one after the other. -/
theorem Moves.trans {one two : List ClassId} (h : Moves policy d d' one)
    (h' : Moves policy d' d'' two) (hdisjoint : ∀ o ∈ two, o ∉ one) :
    Moves policy d d'' (one ++ two) where
  keeps := h.keeps.trans h'.keeps
  topLevel := h'.topLevel.trans h.topLevel
  bodies := h'.bodies.trans h.bodies
  moved := fun o ho => by
    by_cases htwo : o ∈ two
    · have hstayed := h.stayed o (hdisjoint o htwo)
      have hnested : d'.tree.nestedOf o = d.tree.nestedOf o := congrArg Prod.fst hstayed
      have hholder : d'.tree.holderOf o = d.tree.holderOf o := congrArg (·.2.2) hstayed
      rw [h'.moved o htwo, remaining, chosen?_congr h.keeps hnested, hnested, hholder, remaining]
    · rw [h'.stayed o htwo]
      exact h.moved o ((List.mem_append.mp ho).resolve_right htwo)
  stayed := fun o ho => by
    rw [h'.stayed o fun htwo => ho (List.mem_append_right _ htwo)]
    exact h.stayed o fun hone => ho (List.mem_append_left _ hone)
  blamed := by
    have htwo : two.filterMap (d'.companionBlame? policy)
        = two.filterMap (d.companionBlame? policy) := List.filterMap_congr fun o ho =>
      companionBlame?_congr h.keeps policy (congrArg Prod.fst (h.stayed o (hdisjoint o ho)))
    rw [h'.blamed, h.blamed, htwo, List.filterMap_append, List.append_assoc]

/-- All companion objects move into their slots. -/
theorem placeCompanions_moves (policy : AccountingPolicy) (hnodup : d.named.Nodup)
    (hnamed : ∀ o ∈ d.named, d.tree.HasSlot (.nested o))
    (hempty : ∀ o ∈ d.named, d.tree.companionOf o = []) :
    Moves policy d (placeCompanions policy d).2 d.named := by
  have hloop (owners : List ClassId) (hnodup : owners.Nodup) (d : Draft)
      (hnamed : ∀ o ∈ owners, d.tree.HasSlot (.nested o))
      (hempty : ∀ o ∈ owners, d.tree.companionOf o = []) :
      Moves policy d (owners.forM (placeCompanion policy) d).2 owners := by
    induction owners generalizing d with
    | nil => exact Moves.refl policy d
    | cons o rest ih =>
      obtain ⟨hnot, hrest⟩ := List.nodup_cons.mp hnodup
      obtain ⟨node, hnode, shape, hshape⟩ := hnamed o List.mem_cons_self
      have hfirst := placeCompanion_moves policy hnode hshape (hempty o List.mem_cons_self)
      have hne {o' : ClassId} (ho' : o' ∈ rest) : o' ∉ [o] := fun hmem =>
        hnot (List.mem_singleton.mp hmem ▸ ho')
      refine hfirst.trans (ih hrest _ (fun o' ho' => ?_) fun o' ho' => ?_) fun o' ho' => hne ho'
      · exact hfirst.keeps.hasSlot (hnamed o' (List.mem_cons_of_mem o ho'))
      · have hcompanion := congrArg (·.2.1) (hfirst.stayed o' (hne ho'))
        exact hcompanion.trans (hempty o' (List.mem_cons_of_mem o ho'))
  exact hloop d.named hnodup d hnamed hempty

end Draft

end LineAtlas
