import LineAtlas.Proofs.Report.Shown
import LineAtlas.Proofs.Tree.Composition

/-!
# Finished trees

In a finished tree every class is in the place that its unit says. Hence no class has two
places, and every place fits its class.
-/

namespace LineAtlas

open ResolvedUnit

variable {units kept : List ResolvedUnit}

/-- A tree whose classes stand for units and are where the units say. -/
structure SourceTree.Arranged (t : SourceTree) (units kept : List ResolvedUnit) : Prop where
  /-- Functions have one place each. -/
  functions : t.PlacesFunctions
  /-- Helpers are left where they are. -/
  helpers : t.LeavesHelpers
  /-- Units have different names. -/
  names : (kept.filterMap jvmName?).Nodup
  /-- The units are kept ones. -/
  subset : units ⊆ kept
  /-- Only holders are left out. -/
  left : ∀ u ∈ kept, u ∉ units → u.isHolder = true
  /-- A unit has one class. -/
  unique : units.Nodup
  /-- There is a class for every unit. -/
  length : t.classes.length = units.length
  /-- A class stands for its unit, with all its methods unless it failed. -/
  stands : ∀ c node, t.class? c = some node → ∃ u, units[c]? = some u ∧ node.StandsFor u ∧
    (node.failed = false → (t.bodiesOf c).Perm u.placed)
  /-- Facades are where they belong. -/
  facades : t.facades = Lists.positions isFacade units
  /-- Classes at the top level. -/
  topLevel : ∀ c, c ∈ t.topLevel ↔ ∃ u, units[c]? = some u ∧ u.isClass = true ∧ u.IsRoot
  /-- Nested classes. -/
  nested : ∀ c o, c ∈ t.nestedOf o ↔ ∃ u v, units[c]? = some u ∧ units[o]? = some v ∧
    u.isClass = true ∧ Encloses kept v u ∧ ¬ IsCompanion kept v u
  /-- Companion objects. -/
  companion : ∀ c o, c ∈ t.companionOf o ↔ ∃ u v, units[c]? = some u ∧ units[o]? = some v ∧
    IsCompanion kept v u
  /-- Holders. -/
  holder : ∀ c o, c ∈ t.holderOf o → ∃ u v, units[c]? = some u ∧ units[o]? = some v ∧
    u.isHolder = true ∧ Encloses kept v u
  /-- Local classes. -/
  localClass : ∀ c f, c ∈ t.classesOf f → ∃ u v o, units[c]? = some u ∧ units[o]? = some v ∧
    u.isLocal = true ∧ Encloses kept v u ∧ f ∈ t.forest o
  /-- Every list of classes has a class once. -/
  once : t.topLevel.Nodup ∧ (∀ o, (t.nestedOf o).Nodup) ∧ ∀ f, (t.classesOf f).Nodup
  /-- No class is in two functions. -/
  body : ∀ c f g, c ∈ t.classesOf f → c ∈ t.classesOf g → f = g
  /-- Classes that did not fail have a place. -/
  settled : ∀ (c : Nat) u, units[c]? = some u → t.isFailed c = false →
    u.IsRoot ∨ (∃ v ∈ units, Encloses kept v u) ∧ (u.isLocal = true → ∃ f, c ∈ t.classesOf f)
  /-- When all interfaces are different, holders have a place. -/
  holders : (units.filterMap interfaceName?).Nodup → ∀ (c o : Nat) u v, units[c]? = some u →
    units[o]? = some v → u.isHolder = true → Encloses kept v u → c ∈ t.holderOf o

namespace Draft

variable {d d' d'' : Draft} {rejected : List String} {c o : Nat} {policy : AccountingPolicy}

/-- The companion of a class stands in the slot for it. -/
theorem companionOf_eq_getD (t : SourceTree) (o : ClassId) :
    t.companionOf o = ((slotsOf t o).map Prod.fst).getD [] := by
  rw [SourceTree.companionOf, slotsOf]
  cases t.class? o <;> simp

/-- The holder of a class stands in the slot for it. -/
theorem holderOf_eq_getD (t : SourceTree) (o : ClassId) :
    t.holderOf o = ((slotsOf t o).map Prod.snd).getD [] := by
  rw [SourceTree.holderOf, slotsOf]
  cases t.class? o <;> simp

/-- Taking the companion out leaves the other nested classes. -/
theorem mem_remaining (hnodup : (d.tree.nestedOf o).Nodup) :
    c ∈ d.remaining o ↔ c ∈ d.tree.nestedOf o ∧ d.chosen? o ≠ some c := by
  rw [remaining]
  cases d.chosen? o with
  | none => simp
  | some chosen =>
    rw [hnodup.mem_erase_iff, and_comm]
    simp [eq_comm]

namespace Prepared

/-- The classes with names of their own are those of class units. -/
theorem mem_named (h : Prepared d units kept rejected) :
    o ∈ d.named ↔ ∃ w, units[o]? = some (.classUnit w) := by
  rw [h.named, Lists.mem_positions]
  constructor
  · rintro ⟨v, hv, hclass⟩
    obtain ⟨w, rfl⟩ := isClass_iff.mp hclass
    exact ⟨w, hv⟩
  · rintro ⟨w, hw⟩
    exact ⟨_, hw, rfl⟩

/-- Then all companion objects move into their slots. -/
theorem moves (h : Prepared d units kept rejected)
    (hsettles : Settles d.home? d.blame? d d' (waiting d)) (policy : AccountingPolicy) :
    Moves policy d' (placeCompanions policy d').2 d.named := by
  have hnamed := hsettles.keeps.named
  rw [← hnamed]
  refine placeCompanions_moves policy ?_ (fun o ho => ?_) fun o _ => ?_
  · rw [hnamed, h.named]
    exact Lists.nodup_positions _ _
  · exact hsettles.keeps.hasSlot (h.hasSlot_named o (hnamed ▸ ho))
  · rw [companionOf_eq_getD, hsettles.others, ← companionOf_eq_getD, h.companionOf_eq_nil]

/-- Moving companions leaves the classes in functions where they are. -/
theorem classesOf_moved (hmoves : Moves policy d' d'' d.named) (f : FunctionId) :
    d''.tree.classesOf f = d'.tree.classesOf f := by
  have hfunction : d''.tree.function? f = d'.tree.function? f :=
    congrArg (·[f]?) hmoves.bodies
  rw [SourceTree.classesOf, hfunction, SourceTree.classesOf]

/-- Settling classes and moving companions leaves the holders where they are. -/
theorem holderOf_moved (hsettles : Settles d.home? d.blame? d d' (waiting d))
    (hmoves : Moves policy d' d'' d.named) (o : ClassId) :
    d''.tree.holderOf o = d.tree.holderOf o := by
  have hmoved : d''.tree.holderOf o = d'.tree.holderOf o := by
    by_cases ho : o ∈ d.named
    · exact congrArg (·.2.2) (hmoves.moved o ho)
    · exact congrArg (·.2.2) (hmoves.stayed o ho)
  rw [hmoved, holderOf_eq_getD, hsettles.others, ← holderOf_eq_getD]

/-- No class is settled twice. -/
theorem nodup_slot (h : Prepared d units kept rejected)
    (hsettles : Settles d.home? d.blame? d d' (waiting d)) (s : Slot) : (d'.tree.slot s).Nodup := by
  rw [h.slot_settled hsettles]
  exact h.waiting_nodup.filter _

/-- Nothing is nested in a class without a name of its own. -/
theorem nestedOf_eq_nil (h : Prepared d units kept rejected)
    (hsettles : Settles d.home? d.blame? d d' (waiting d)) (ho : o ∉ d.named) :
    d'.tree.nestedOf o = [] := by
  rw [List.eq_nil_iff_forall_not_mem]
  intro c hc
  have hhome := (h.mem_slot hsettles (s := .nested o)).mp hc
  obtain ⟨u, v, -, hv, parent, -, hfind⟩ := h.mem_slot_nested.mp hhome
  have hdeclared := List.find?_some hfind
  obtain ⟨w, rfl, -⟩ := declaredName?_eq_some_iff.mp (by simpa using hdeclared)
  exact ho (h.mem_named.mpr ⟨w, hv⟩)

/-- Of the classes nested in a class, all but its companion object stay there. -/
theorem nestedOf_moved (h : Prepared d units kept rejected)
    (hsettles : Settles d.home? d.blame? d d' (waiting d)) (hmoves : Moves policy d' d'' d.named)
    (o : ClassId) : d''.tree.nestedOf o = d'.remaining o := by
  by_cases ho : o ∈ d.named
  · exact congrArg Prod.fst (hmoves.moved o ho)
  · have hstayed : d''.tree.nestedOf o = d'.tree.nestedOf o :=
      congrArg Prod.fst (hmoves.stayed o ho)
    rw [hstayed, remaining, h.nestedOf_eq_nil hsettles ho]
    split <;> rfl

/-- The slot for the companion object has what was chosen for it. -/
theorem companionOf_moved (h : Prepared d units kept rejected)
    (hsettles : Settles d.home? d.blame? d d' (waiting d)) (hmoves : Moves policy d' d'' d.named)
    (o : ClassId) : d''.tree.companionOf o = (d'.chosen? o).toList := by
  by_cases ho : o ∈ d.named
  · exact congrArg (·.2.1) (hmoves.moved o ho)
  · have hstayed : d''.tree.companionOf o = d'.tree.companionOf o :=
      congrArg (·.2.1) (hmoves.stayed o ho)
    rw [hstayed, companionOf_eq_getD, hsettles.others, ← companionOf_eq_getD,
      h.companionOf_eq_nil, chosen?_eq_find?, h.nestedOf_eq_nil hsettles ho]
    cases d'.expected? o <;> rfl

/-- A class is nested in the one around it, unless it is its companion object. -/
theorem mem_nestedOf (h : Prepared d units kept rejected)
    (hsettles : Settles d.home? d.blame? d d' (waiting d)) (hmoves : Moves policy d' d'' d.named) :
    c ∈ d''.tree.nestedOf o ↔ ∃ u v, units[c]? = some u ∧ units[o]? = some v ∧
      u.isClass = true ∧ Encloses kept v u ∧ ¬ IsCompanion kept v u := by
  have hslot : c ∈ d'.tree.nestedOf o ↔ d.home? c = some (.nested o) :=
    h.mem_slot hsettles (s := .nested o)
  rw [h.nestedOf_moved hsettles hmoves, mem_remaining (h.nodup_slot hsettles (.nested o)), hslot,
    h.mem_slot_nested]
  constructor
  · rintro ⟨⟨u, v, hu, hv, hencloses⟩, hchosen⟩
    refine ⟨_, v, hu, hv, rfl, hencloses, fun hcompanion => hchosen ?_⟩
    exact (h.chosen?_eq_some hsettles hv).mpr ⟨_, hu, hcompanion⟩
  · rintro ⟨u, v, hu, hv, hclass, hencloses, hcompanion⟩
    obtain ⟨w, rfl⟩ := isClass_iff.mp hclass
    refine ⟨⟨w, v, hu, hv, hencloses⟩, fun hchosen => hcompanion ?_⟩
    obtain ⟨u', hu', hcompanion'⟩ := (h.chosen?_eq_some hsettles hv).mp hchosen
    exact Option.some.inj (hu'.symm.trans hu) ▸ hcompanion'

/-- The companion object of a class is in its slot. -/
theorem mem_companionOf (h : Prepared d units kept rejected)
    (hsettles : Settles d.home? d.blame? d d' (waiting d)) (hmoves : Moves policy d' d'' d.named) :
    c ∈ d''.tree.companionOf o ↔ ∃ u v, units[c]? = some u ∧ units[o]? = some v ∧
      IsCompanion kept v u := by
  rw [h.companionOf_moved hsettles hmoves, Option.mem_toList]
  constructor
  · intro hchosen
    by_cases ho : o ∈ d.named
    · obtain ⟨w, hw⟩ := h.mem_named.mp ho
      obtain ⟨u, hu, hcompanion⟩ := (h.chosen?_eq_some hsettles hw).mp hchosen
      exact ⟨u, _, hu, hw, hcompanion⟩
    · rw [chosen?_eq_find?, h.nestedOf_eq_nil hsettles ho] at hchosen
      simp at hchosen
  · rintro ⟨u, v, hu, hv, hcompanion⟩
    exact (h.chosen?_eq_some hsettles hv).mpr ⟨u, hu, hcompanion⟩

/-- The holder in the slot of a class is for it. -/
theorem encloses_of_mem_holderOf (h : Prepared d units kept rejected)
    (hc : c ∈ d.tree.holderOf o) : ∃ u v, units[c]? = some u ∧ units[o]? = some v ∧
      u.isHolder = true ∧ Encloses kept v u := by
  obtain ⟨node, hnode, hslot⟩ := List.mem_flatMap.mp hc
  have hclass : d.tree.class? o = some node := Option.mem_toList.mp hnode
  obtain ⟨u, hu, hname⟩ := h.fit.sound node (List.mem_of_getElem? hclass) c hslot
  obtain ⟨v, hv, hstands⟩ := h.laid.exists_unit hclass
  obtain ⟨w, rfl⟩ := hstands.exists_classUnit (by
    cases hshape : node.shape with
    | named shape => exact ⟨shape, rfl⟩
    | localClass kind origin => simp [hshape, ClassShape.holder] at hslot
    | facade init => simp [hshape, ClassShape.holder] at hslot
    | defaultImpls => simp [hshape, ClassShape.holder] at hslot)
  refine ⟨_, _, hu, hv, rfl, h.mem_kept hv, ?_⟩
  exact isClassNamed_iff.mpr ⟨w, rfl, hstands.1.symm.trans hname.symm⟩

/-- With different interfaces every holder is in the slot of its own. -/
theorem mem_holderOf (h : Prepared d units kept rejected)
    (hinterfaces : (units.filterMap interfaceName?).Nodup) {u v : ResolvedUnit}
    (hu : units[c]? = some u) (hv : units[o]? = some v) (hholder : u.isHolder = true)
    (hencloses : Encloses kept v u) : c ∈ d.tree.holderOf o := by
  obtain ⟨w, rfl⟩ := isHolder_iff.mp hholder
  obtain ⟨node, hnode, hslot⟩ := h.fit.complete hinterfaces c w hu
  obtain ⟨i, hi⟩ := List.getElem?_of_mem hnode
  have hclass : d.tree.class? i = some node := hi
  have hmem : c ∈ d.tree.holderOf i :=
    List.mem_flatMap.mpr ⟨node, Option.mem_toList.mpr hclass, hslot⟩
  obtain ⟨u', v', hu', hv', -, hencloses'⟩ := h.encloses_of_mem_holderOf hmem
  obtain rfl := Option.some.inj (hu.symm.trans hu')
  obtain rfl := encloses_unique h.names hencloses hencloses'
  rwa [h.eq_of_unit hv hv']

/-- A class in a function of a class is local to that class. -/
theorem encloses_of_home? (h : Prepared d units kept rejected) {f : FunctionId}
    (hhome : d.home? c = some (.body f)) : ∃ u v o, units[c]? = some u ∧ units[o]? = some v ∧
      u.isLocal = true ∧ Encloses kept v u ∧ f ∈ d.tree.forest o := by
  obtain ⟨u, hu, hkind⟩ := h.exists_unit_of_home? hhome
  rcases hkind with hlocal | hclass
  · obtain ⟨w, rfl⟩ := isLocal_iff.mp hlocal
    rw [h.home?_localClass hu] at hhome
    obtain ⟨owner, howner, hbody⟩ := Option.bind_eq_some_iff.mp hhome
    obtain ⟨g, hg, hslot⟩ := Option.map_eq_some_iff.mp hbody
    obtain rfl := Slot.body.inj hslot
    obtain ⟨o, v, ho, hv, hname⟩ := h.ownerNamed?_eq_some howner
    exact ⟨_, v, o, hu, hv, rfl, ⟨h.mem_kept hv, hname⟩,
      bodyIn?_mem_forest (SourceTree.placesFunctions_of_laid h.laid) ho hg⟩
  · obtain ⟨w, rfl⟩ := isClass_iff.mp hclass
    rw [h.home?_classUnit hu] at hhome
    split at hhome
    · simp at hhome
    · obtain ⟨i, -, hslot⟩ := Option.map_eq_some_iff.mp hhome
      simp at hslot

/-- The classes at the top level are those around which there is nothing. -/
theorem mem_topLevel (h : Prepared d units kept rejected)
    (hsettles : Settles d.home? d.blame? d d' (waiting d)) :
    c ∈ d'.tree.topLevel ↔ ∃ u, units[c]? = some u ∧ u.isClass = true ∧ u.IsRoot := by
  have hslot : c ∈ d'.tree.topLevel ↔ d.home? c = some .topLevel :=
    h.mem_slot hsettles (s := .topLevel)
  rw [hslot]
  constructor
  · intro hhome
    obtain ⟨u, hu, hkind⟩ := h.exists_unit_of_home? hhome
    rcases hkind with hlocal | hclass
    · obtain ⟨w, rfl⟩ := isLocal_iff.mp hlocal
      rw [h.home?_localClass hu] at hhome
      obtain ⟨owner, -, hbody⟩ := Option.bind_eq_some_iff.mp hhome
      obtain ⟨f, -, hsame⟩ := Option.map_eq_some_iff.mp hbody
      simp at hsame
    · obtain ⟨w, rfl⟩ := isClass_iff.mp hclass
      rw [h.home?_classUnit hu] at hhome
      refine ⟨_, hu, rfl, ?_⟩
      cases hparent : w.declaredName.parent? with
      | none => exact hparent
      | some parent =>
        rw [hparent] at hhome
        obtain ⟨i, -, hsame⟩ := Option.map_eq_some_iff.mp hhome
        simp at hsame
  · rintro ⟨u, hu, hclass, hroot⟩
    obtain ⟨w, rfl⟩ := isClass_iff.mp hclass
    have hnone : w.declaredName.parent? = none := hroot
    rw [h.home?_classUnit hu, hnone]

/-- A class that is neither at the top nor in another one failed. -/
theorem settled (h : Prepared d units kept rejected)
    (hsettles : Settles d.home? d.blame? d d' (waiting d))
    {u : ResolvedUnit} (hu : units[c]? = some u)
    (hlive : d'.tree.isFailed c = false) : u.IsRoot ∨ (∃ v ∈ units, Encloses kept v u) ∧
      (u.isLocal = true → ∃ f, c ∈ d'.tree.classesOf f) := by
  have hhome (hwaits : u.isLocal = true ∨ u.isClass = true) : ∃ s, d.home? c = some s := by
    rw [← Option.ne_none_iff_exists']
    intro hnone
    have hfailed := hsettles.failed c (h.mem_waiting.mpr ⟨u, hu, hwaits⟩) hnone
    simp [hlive] at hfailed
  cases u with
  | classUnit w =>
    obtain ⟨s, hs⟩ := hhome (Or.inr rfl)
    have hslot := h.home?_classUnit hu
    cases hparent : w.declaredName.parent? with
    | none => exact Or.inl hparent
    | some parent =>
      rw [hparent, hs] at hslot
      obtain ⟨o, -, rfl⟩ := Option.map_eq_some_iff.mp hslot.symm
      obtain ⟨w', v, hw', hv, hencloses⟩ := h.mem_slot_nested.mp hs
      obtain rfl := ResolvedUnit.classUnit.inj (Option.some.inj (hu.symm.trans hw'))
      exact Or.inr ⟨⟨v, List.mem_of_getElem? hv, hencloses⟩, fun hlocal => by
        simp [isLocal] at hlocal⟩
  | localClass w =>
    obtain ⟨s, hs⟩ := hhome (Or.inl rfl)
    have hslot := h.home?_localClass hu
    rw [hs] at hslot
    obtain ⟨owner, -, hbody⟩ := Option.bind_eq_some_iff.mp hslot.symm
    obtain ⟨f, -, rfl⟩ := Option.map_eq_some_iff.mp hbody
    obtain ⟨u', v, o, hu', hv, -, hencloses, -⟩ := h.encloses_of_home? hs
    obtain rfl := Option.some.inj (hu.symm.trans hu')
    exact Or.inr ⟨⟨v, List.mem_of_getElem? hv, hencloses⟩, fun _ =>
      ⟨f, (h.mem_slot hsettles (s := .body f)).mpr hs⟩⟩
  | facade w => exact Or.inl trivial
  | defaultImpls w =>
    obtain ⟨v, hv, hnamed⟩ := List.any_eq_true.mp (h.interfaces w (List.mem_of_getElem? hu))
    obtain ⟨x, rfl, -⟩ := isClassNamed_iff.mp hnamed
    have hunit : ResolvedUnit.classUnit x ∈ units.filter isClass := by
      rw [h.classes]
      exact List.mem_filter.mpr ⟨hv, rfl⟩
    exact Or.inr ⟨⟨_, List.mem_of_mem_filter hunit, hv, hnamed⟩, fun hlocal => by
      simp [isLocal] at hlocal⟩
  | opaqueUnit =>
    obtain ⟨node, -, hstands⟩ := h.laid.exists_class hu
    exact hstands.elim
  | foreign =>
    obtain ⟨node, -, hstands⟩ := h.laid.exists_class hu
    exact hstands.elim

/-- The facades are those of facade units. -/
theorem facades (h : Prepared d units kept rejected) :
    d.tree.facades = Lists.positions isFacade units := by
  obtain ⟨others, hholds, -⟩ := h.holds
  exact hholds.facades

/-- After all moves the tree is arranged. -/
theorem arranged (h : Prepared d units kept rejected)
    (hsettles : Settles d.home? d.blame? d d' (waiting d)) (hmoves : Moves policy d' d'' d.named) :
    d''.tree.Arranged units kept where
  functions := (hsettles.keeps.trans hmoves.keeps).placesFunctions
    (SourceTree.placesFunctions_of_laid h.laid)
  helpers := (hsettles.keeps.trans hmoves.keeps).leavesHelpers
    (SourceTree.leavesHelpers_of_laid h.laid)
  names := h.names
  subset := h.subperm.subset
  left := fun u hu hnot => by
    obtain ⟨w, rfl, -⟩ := h.left u hu hnot
    rfl
  unique := h.units_nodup
  length := (hsettles.keeps.trans hmoves.keeps).classes_length.trans h.laid.length_eq
  stands := fun c node hnode => by
    have hkeeps := hsettles.keeps.trans hmoves.keeps
    obtain ⟨old, hold, hbare⟩ := hkeeps.exists_old hnode
    obtain ⟨u, hu, hstands, hbodies⟩ := SourceTree.exists_standsFor_of_laid h.laid hold
    refine ⟨u, hu, hstands.of_bare hbare.symm, fun hlive => ?_⟩
    rw [hkeeps.bodiesOf]
    refine hbodies ?_
    cases hfailed : old.failed with
    | false => rfl
    | true =>
      have hboth := hkeeps.failed c (by simp [SourceTree.isFailed, hold, hfailed])
      simp [SourceTree.isFailed, hnode, hlive] at hboth
  facades := (hsettles.keeps.trans hmoves.keeps).facades.trans h.facades
  topLevel := fun c => hmoves.topLevel ▸ h.mem_topLevel hsettles
  nested := fun c o => h.mem_nestedOf hsettles hmoves
  companion := fun c o => h.mem_companionOf hsettles hmoves
  holder := fun c o hc => h.encloses_of_mem_holderOf (holderOf_moved hsettles hmoves o ▸ hc)
  localClass := fun c f hc => by
    rw [classesOf_moved hmoves] at hc
    obtain ⟨u, v, o, hu, hv, hlocal, hencloses, hf⟩ :=
      h.encloses_of_home? ((h.mem_slot hsettles (s := .body f)).mp hc)
    refine ⟨u, v, o, hu, hv, hlocal, hencloses, ?_⟩
    rwa [(hsettles.keeps.trans hmoves.keeps).forest]
  once := by
    refine ⟨hmoves.topLevel ▸ h.nodup_slot hsettles .topLevel, fun o => ?_, fun f => ?_⟩
    · rw [h.nestedOf_moved hsettles hmoves, remaining]
      split
      · exact (h.nodup_slot hsettles (.nested o)).erase _
      · exact h.nodup_slot hsettles (.nested o)
    · rw [classesOf_moved hmoves]
      exact h.nodup_slot hsettles (.body f)
  body := fun c f g hf hg => by
    rw [classesOf_moved hmoves] at hf hg
    have hhome := (h.mem_slot hsettles (s := .body f)).mp hf
    have hhome' := (h.mem_slot hsettles (s := .body g)).mp hg
    exact Slot.body.inj (Option.some.inj (hhome.symm.trans hhome'))
  settled := fun c u hu hlive => by
    have hbefore : d'.tree.isFailed c = false := by
      cases hfailed : d'.tree.isFailed c with
      | false => rfl
      | true =>
        rw [hmoves.keeps.failed c hfailed] at hlive
        simp at hlive
    refine (h.settled hsettles hu hbefore).imp id fun hin => ⟨hin.1, fun hlocal => ?_⟩
    obtain ⟨f, hf⟩ := hin.2 hlocal
    exact ⟨f, (classesOf_moved hmoves f).symm ▸ hf⟩
  holders := fun hinterfaces c o u v hu hv hholder hencloses => by
    rw [holderOf_moved hsettles hmoves]
    exact h.mem_holderOf hinterfaces hu hv hholder hencloses

end Prepared

end Draft

end LineAtlas
