import LineAtlas.Proofs.Report.FileEntry
import LineAtlas.Proofs.Tree.Arranged

/-!
# What a finished tree shows

A report of a finished tree comes to a class exactly when it comes to its unit: when the unit is
at the top of its file or in another one to which the report comes, and no class on the way
failed.
-/

namespace LineAtlas

open ResolvedUnit

variable {units kept : List ResolvedUnit} {t : SourceTree}

/-- A companion is a class. -/
theorem ResolvedUnit.IsCompanion.isClass {u v : ResolvedUnit} (h : IsCompanion kept v u) :
    u.isClass = true := by
  obtain ⟨-, w, name, -, -, hfind⟩ := h
  have hdeclared := List.find?_some hfind
  obtain ⟨x, rfl, -⟩ := declaredName?_eq_some_iff.mp (by simpa using hdeclared)
  rfl

namespace SourceTree

/-- A class has at most one companion in its slot. -/
theorem nodup_companionOf (t : SourceTree) (o : ClassId) : (t.companionOf o).Nodup := by
  rw [companionOf]
  cases t.class? o with
  | none => exact List.nodup_nil
  | some node =>
    rw [Option.toList_some, List.flatMap_singleton]
    cases node.shape with
    | named shape => exact Option.toList_nodup _
    | localClass kind origin => exact List.nodup_nil
    | facade init => exact List.nodup_nil
    | defaultImpls => exact List.nodup_nil

/-- A class has at most one holder in its slot. -/
theorem nodup_holderOf (t : SourceTree) (o : ClassId) : (t.holderOf o).Nodup := by
  rw [holderOf]
  cases t.class? o with
  | none => exact List.nodup_nil
  | some node =>
    rw [Option.toList_some, List.flatMap_singleton]
    cases node.shape with
    | named shape => exact Option.toList_nodup _
    | localClass kind origin => exact List.nodup_nil
    | facade init => exact List.nodup_nil
    | defaultImpls => exact List.nodup_nil

namespace Arranged

/-- A unit has one class only. -/
theorem eq_of_unit (h : t.Arranged units kept) {c o : Nat} {u : ResolvedUnit}
    (hc : units[c]? = some u) (ho : units[o]? = some u) : c = o := by
  obtain ⟨hlt, hu⟩ := List.getElem?_eq_some_iff.mp hc
  obtain ⟨hlt', hu'⟩ := List.getElem?_eq_some_iff.mp ho
  exact (h.unique.getElem_inj_iff).mp (hu.trans hu'.symm)

/-- The class around another one. -/
theorem eq_of_encloses (h : t.Arranged units kept) {o o' : Nat} {u v v' : ResolvedUnit}
    (hv : units[o]? = some v) (hv' : units[o']? = some v') (hencloses : Encloses kept v u)
    (hencloses' : Encloses kept v' u) : o = o' := by
  obtain rfl := encloses_unique h.names hencloses hencloses'
  exact h.eq_of_unit hv hv'

/-- What is in the slots of a class is a companion object or a holder. -/
theorem exists_slot (h : t.Arranged units kept) {c o : Nat}
    (hc : c ∈ t.companionOf o ++ t.holderOf o) : ∃ u v, units[c]? = some u ∧
      units[o]? = some v ∧ Encloses kept v u ∧ (u.isHolder = true ∨ IsCompanion kept v u) := by
  rcases List.mem_append.mp hc with hc | hc
  · obtain ⟨u, v, hu, hv, hcompanion⟩ := (h.companion c o).mp hc
    exact ⟨u, v, hu, hv, hcompanion.1, Or.inr hcompanion⟩
  · obtain ⟨u, v, hu, hv, hholder, hencloses⟩ := h.holder c o hc
    exact ⟨u, v, hu, hv, hencloses, Or.inl hholder⟩

/-- The slots for companion and holder have different classes. -/
theorem nodup_slots (h : t.Arranged units kept) (o : ClassId) :
    (t.companionOf o ++ t.holderOf o).Nodup := by
  refine List.nodup_append.mpr ⟨t.nodup_companionOf o, t.nodup_holderOf o, ?_⟩
  rintro c hc _ hc' rfl
  obtain ⟨u, v, hu, -, hcompanion⟩ := (h.companion c o).mp hc
  obtain ⟨u', v', hu', -, hholder, -⟩ := h.holder c o hc'
  obtain rfl := Option.some.inj (hu.symm.trans hu')
  have hclass := hcompanion.isClass
  cases u <;> simp [isClass, isHolder] at hclass hholder

/-- What stands among the facades is the class of a facade. -/
theorem exists_facade (h : t.Arranged units kept) {c : Nat} (hc : c ∈ t.facades) :
    ∃ u, units[c]? = some u ∧ u.isFacade = true := Lists.mem_positions.mp (h.facades ▸ hc)

/-- What is nested in a class is a class that the other one encloses, and not its companion. -/
theorem exists_nested (h : t.Arranged units kept) {c : Nat}
    (hc : c ∈ (List.range t.classes.length).flatMap t.nestedOf) :
    ∃ u v, units[c]? = some u ∧ u.isClass = true ∧ Encloses kept v u ∧
      ¬ IsCompanion kept v u := by
  obtain ⟨o, -, hc⟩ := List.mem_flatMap.mp hc
  obtain ⟨u, v, hu, -, hrest⟩ := (h.nested c o).mp hc
  exact ⟨u, v, hu, hrest⟩

/-- What stands in a slot is a holder or the companion of what encloses it. -/
theorem exists_inSlot (h : t.Arranged units kept) {c : Nat}
    (hc : c ∈ (List.range t.classes.length).flatMap fun o => t.companionOf o ++ t.holderOf o) :
    ∃ u v, units[c]? = some u ∧ Encloses kept v u ∧
      (u.isHolder = true ∨ IsCompanion kept v u) := by
  obtain ⟨o, -, hc⟩ := List.mem_flatMap.mp hc
  obtain ⟨u, v, hu, -, hrest⟩ := h.exists_slot hc
  exact ⟨u, v, hu, hrest⟩

/-- What stands in the body of a function is a local class. -/
theorem exists_inBody (h : t.Arranged units kept) {c : Nat}
    (hc : c ∈ t.functions.flatMap FunctionNode.classes) :
    ∃ u, units[c]? = some u ∧ u.isLocal = true := by
  rw [← range_flatMap_function? t FunctionNode.classes] at hc
  obtain ⟨f, -, hc⟩ := List.mem_flatMap.mp hc
  obtain ⟨u, -, -, hu, -, hlocal, -⟩ := h.localClass c f hc
  exact ⟨u, hu, hlocal⟩

/-- What is at the top level or in a class is a class or a holder. -/
theorem exists_inNamedPlace (h : t.Arranged units kept) {c : Nat}
    (hc : c ∈ t.topLevel ++ (List.range t.classes.length).flatMap t.nestedOf
      ++ (List.range t.classes.length).flatMap fun o => t.companionOf o ++ t.holderOf o) :
    ∃ u, units[c]? = some u ∧ (u.isClass = true ∨ u.isHolder = true) := by
  rcases List.mem_append.mp hc with hc | hc
  · rcases List.mem_append.mp hc with hc | hc
    · obtain ⟨u, hu, hclass, -⟩ := (h.topLevel c).mp hc
      exact ⟨u, hu, Or.inl hclass⟩
    · obtain ⟨u, v, hu, hclass, -⟩ := h.exists_nested hc
      exact ⟨u, hu, Or.inl hclass⟩
  · obtain ⟨u, v, hu, -, hholder | hcompanion⟩ := h.exists_inSlot hc
    · exact ⟨u, hu, Or.inr hholder⟩
    · exact ⟨u, hu, Or.inl hcompanion.isClass⟩

/-- Nothing encloses what stands at the top level. -/
theorem not_encloses_of_topLevel (h : t.Arranged units kept) {c : Nat} (hc : c ∈ t.topLevel)
    {u v : ResolvedUnit} (hu : units[c]? = some u) : ¬ Encloses kept v u := by
  obtain ⟨u', hu', -, hroot⟩ := (h.topLevel c).mp hc
  obtain rfl := Option.some.inj (hu.symm.trans hu')
  exact not_encloses_of_isRoot hroot

/-- No class is at the top level or in a class twice. -/
theorem named_nodup (h : t.Arranged units kept) :
    (t.topLevel ++ (List.range t.classes.length).flatMap t.nestedOf
      ++ (List.range t.classes.length).flatMap fun o =>
        t.companionOf o ++ t.holderOf o).Nodup := by
  refine List.nodup_append.mpr ⟨List.nodup_append.mpr ⟨h.once.1, ?_, ?_⟩, ?_, ?_⟩
  · refine Lists.nodup_flatMap_range h.once.2.1 (fun o o' c hc hc' => ?_) _
    obtain ⟨u, v, hu, hv, -, hencloses, -⟩ := (h.nested c o).mp hc
    obtain ⟨u', v', hu', hv', -, hencloses', -⟩ := (h.nested c o').mp hc'
    obtain rfl := Option.some.inj (hu.symm.trans hu')
    exact h.eq_of_encloses hv hv' hencloses hencloses'
  · rintro c hc _ hc' rfl
    obtain ⟨u, v, hu, -, hencloses, -⟩ := h.exists_nested hc'
    exact h.not_encloses_of_topLevel hc hu hencloses
  · refine Lists.nodup_flatMap_range h.nodup_slots (fun o o' c hc hc' => ?_) _
    obtain ⟨u, v, hu, hv, hencloses, -⟩ := h.exists_slot hc
    obtain ⟨u', v', hu', hv', hencloses', -⟩ := h.exists_slot hc'
    obtain rfl := Option.some.inj (hu.symm.trans hu')
    exact h.eq_of_encloses hv hv' hencloses hencloses'
  · rintro c hc _ hc' rfl
    obtain ⟨u, v, hu, hencloses, hkind⟩ := h.exists_inSlot hc'
    rcases List.mem_append.mp hc with hc | hc
    · exact h.not_encloses_of_topLevel hc hu hencloses
    · obtain ⟨u', v', hu', hclass, hencloses', hcompanion⟩ := h.exists_nested hc
      obtain rfl := Option.some.inj (hu.symm.trans hu')
      obtain rfl := encloses_unique h.names hencloses hencloses'
      refine hkind.elim (fun hholder => ?_) hcompanion
      cases u <;> simp [isClass, isHolder] at hclass hholder

/-- No class has two places. -/
theorem classPlaces_nodup (h : t.Arranged units kept) : t.classPlaces.Nodup := by
  rw [(PlacesClasses.classPlaces_perm t).nodup_iff]
  refine List.nodup_append.mpr
    ⟨List.nodup_append.mpr ⟨?_, h.named_nodup, ?_⟩, ?_, ?_⟩
  · rw [h.facades]
    exact Lists.nodup_positions _ _
  · rintro c hc _ hc' rfl
    obtain ⟨u, hu, hfacade⟩ := h.exists_facade hc
    obtain ⟨u', hu', hkind⟩ := h.exists_inNamedPlace hc'
    obtain rfl := Option.some.inj (hu.symm.trans hu')
    cases u <;> simp [isFacade, isClass, isHolder] at hfacade hkind
  · rw [← range_flatMap_function? t FunctionNode.classes]
    exact Lists.nodup_flatMap_range h.once.2.2 (fun f g c hf hg => h.body c f g hf hg) _
  · rintro c hc _ hc' rfl
    obtain ⟨u, hu, hislocal⟩ := h.exists_inBody hc'
    rcases List.mem_append.mp hc with hc | hc
    · obtain ⟨u', hu', hfacade⟩ := h.exists_facade hc
      obtain rfl := Option.some.inj (hu.symm.trans hu')
      cases u <;> simp [isFacade, isLocal] at hislocal hfacade
    · obtain ⟨u', hu', hkind⟩ := h.exists_inNamedPlace hc
      obtain rfl := Option.some.inj (hu.symm.trans hu')
      cases u <;> simp [isClass, isHolder, isLocal] at hislocal hkind

/-- The class of a unit. -/
theorem exists_class (h : t.Arranged units kept) {c : Nat} {u : ResolvedUnit}
    (hu : units[c]? = some u) : ∃ node, t.class? c = some node ∧ node.StandsFor u := by
  have hlt : c < t.classes.length := by
    rw [h.length]
    exact (List.getElem?_eq_some_iff.mp hu).1
  have hnode : t.class? c = some t.classes[c] := List.getElem?_eq_getElem hlt
  obtain ⟨u', hu', hstands, -⟩ := h.stands c _ hnode
  exact ⟨_, hnode, Option.some.inj (hu'.symm.trans hu) ▸ hstands⟩

/-- Every place has a class that stands for a unit. -/
theorem exists_unit_of_place (h : t.Arranged units kept) {c : ClassId}
    (hc : c ∈ t.classPlaces) : ∃ u, units[c]? = some u := by
  rw [(PlacesClasses.classPlaces_perm t).mem_iff] at hc
  rcases List.mem_append.mp hc with hc | hc
  · rcases List.mem_append.mp hc with hc | hc
    · exact (h.exists_facade hc).imp fun _ hu => hu.1
    · exact (h.exists_inNamedPlace hc).imp fun _ hu => hu.1
  · exact (h.exists_inBody hc).imp fun _ hu => hu.1

/-- The class of a class unit has the shape of one. -/
theorem isNamed_of_isClass (h : t.Arranged units kept) {c : Nat} {u : ResolvedUnit}
    (hu : units[c]? = some u) (hclass : u.isClass = true) {node : ClassNode}
    (hnode : t.class? c = some node) : node.shape.IsNamed := by
  obtain ⟨w, rfl⟩ := isClass_iff.mp hclass
  obtain ⟨u', hu', hstands, -⟩ := h.stands c node hnode
  obtain rfl := Option.some.inj (hu.symm.trans hu')
  obtain ⟨own, hown, -⟩ := ClassShape.exists_named_of_bare hstands.2
  exact ⟨own, hown⟩

/-- A finished tree is orderly. -/
theorem orderly (h : t.Arranged units kept) : t.Orderly where
  toPlacesFunctions := h.functions
  toLeavesHelpers := h.helpers
  classesNodup := h.classPlaces_nodup
  classesBound := fun c hc => by
    obtain ⟨u, hu⟩ := h.exists_unit_of_place hc
    rw [h.length]
    exact (List.getElem?_eq_some_iff.mp hu).1
  facade := fun c hc node hnode => by
    obtain ⟨u, hu, hfacade⟩ := Lists.mem_positions.mp (h.facades ▸ hc)
    obtain ⟨w, rfl⟩ := isFacade_iff.mp hfacade
    obtain ⟨u', hu', hstands, -⟩ := h.stands c node hnode
    obtain rfl := Option.some.inj (hu.symm.trans hu')
    exact hstands.2.1
  topLevel := fun c hc node hnode => by
    obtain ⟨u, hu, hclass, -⟩ := (h.topLevel c).mp hc
    exact h.isNamed_of_isClass hu hclass hnode
  nested := fun owner howner c hc node hnode => by
    obtain ⟨o, ho⟩ := List.getElem?_of_mem howner
    have hclass : t.class? o = some owner := ho
    rcases List.mem_append.mp hc with hc | hc
    · have hnested : c ∈ t.nestedOf o := by simpa [nestedOf, hclass] using hc
      obtain ⟨u, v, hu, -, hkind, -⟩ := (h.nested c o).mp hnested
      exact h.isNamed_of_isClass hu hkind hnode
    · have hslot : c ∈ t.companionOf o := by simpa [companionOf, hclass] using hc
      obtain ⟨u, v, hu, -, hcompanion⟩ := (h.companion c o).mp hslot
      exact h.isNamed_of_isClass hu hcompanion.isClass hnode
  holder := fun owner howner c hc node hnode => by
    obtain ⟨o, ho⟩ := List.getElem?_of_mem howner
    have hclass : t.class? o = some owner := ho
    have hslot : c ∈ t.holderOf o := by simpa [holderOf, hclass] using hc
    obtain ⟨u, v, hu, -, hholder, -⟩ := h.holder c o hslot
    obtain ⟨w, rfl⟩ := isHolder_iff.mp hholder
    obtain ⟨u', hu', hstands, -⟩ := h.stands c node hnode
    obtain rfl := Option.some.inj (hu.symm.trans hu')
    exact hstands.2
  localClass := fun f hf c hc node hnode => by
    obtain ⟨i, hi⟩ := List.getElem?_of_mem hf
    have hfunction : t.function? i = some f := hi
    have hbody : c ∈ t.classesOf i := by simpa [classesOf, hfunction] using hc
    obtain ⟨u, v, o, hu, -, hlocal, -⟩ := h.localClass c i hbody
    obtain ⟨w, rfl⟩ := isLocal_iff.mp hlocal
    obtain ⟨u', hu', hstands, -⟩ := h.stands c node hnode
    obtain rfl := Option.some.inj (hu.symm.trans hu')
    exact ⟨_, _, hstands.2⟩

/-- A finished tree is sound, when nothing at the top level of a file has a constructor. -/
theorem sound (h : t.Arranged units kept)
    (hfacades : ∀ w, .facade w ∈ units → w.members.constructors = []) : t.Sound where
  toOrderly := h.orderly
  plainFacade := fun c hc node hnode => by
    obtain ⟨u, hu, hfacade⟩ := Lists.mem_positions.mp (h.facades ▸ hc)
    obtain ⟨w, rfl⟩ := isFacade_iff.mp hfacade
    obtain ⟨u', hu', hstands, -⟩ := h.stands c node hnode
    obtain rfl := Option.some.inj (hu.symm.trans hu')
    exact hstands.2.2 (hfacades w (List.mem_of_getElem? hu))

/-- A class is shown as an object when its unit is. -/
theorem shownAsObject_iff (h : t.Arranged units kept) {c : Nat} {u : ResolvedUnit}
    (hu : units[c]? = some u) : t.shownAsObject c = true ↔ ShownAsObject kept u := by
  obtain ⟨node, hnode, hstands⟩ := h.exists_class hu
  have hobject : node.isObject = u.isObject := by
    cases u with
    | classUnit w =>
      obtain ⟨own, hown, -, hsame, -⟩ := ClassShape.exists_named_of_bare hstands.2
      rw [ClassNode.isObject, hown]
      exact hsame
    | localClass w =>
      rw [ClassNode.isObject, hstands.2]
      rfl
    | facade w =>
      obtain ⟨init, hinit⟩ := hstands.2.1
      rw [ClassNode.isObject, hinit]
      rfl
    | defaultImpls w =>
      rw [ClassNode.isObject, hstands.2]
      rfl
    | opaqueUnit => exact hstands.elim
    | foreign => exact hstands.elim
  have hslots : (t.classes.any fun owner => owner.shape.companion.contains c) = true ↔
      ∃ w, IsCompanion kept w u := by
    rw [List.any_eq_true]
    constructor
    · rintro ⟨owner, howner, hc⟩
      obtain ⟨o, ho⟩ := List.getElem?_of_mem howner
      have hclass : t.class? o = some owner := ho
      have hslot : c ∈ t.companionOf o := by simpa [companionOf, hclass] using hc
      obtain ⟨u', v, hu', -, hcompanion⟩ := (h.companion c o).mp hslot
      exact ⟨v, Option.some.inj (hu.symm.trans hu') ▸ hcompanion⟩
    · rintro ⟨w, hcompanion⟩
      have hmem : w ∈ units := by
        by_contra hnot
        have hholder := h.left _ (mem_of_encloses hcompanion.1) hnot
        obtain ⟨-, x, name, rfl, -⟩ := hcompanion
        simp [isHolder] at hholder
      obtain ⟨o, ho⟩ := List.getElem?_of_mem hmem
      have hslot : c ∈ t.companionOf o := (h.companion c o).mpr ⟨u, w, hu, ho, hcompanion⟩
      obtain ⟨owner, howner, hc⟩ := List.mem_flatMap.mp hslot
      exact ⟨owner, List.mem_of_getElem? (Option.mem_toList.mp howner), by simpa using hc⟩
  rw [shownAsObject, Bool.or_eq_true, hslots, hnode, ShownAsObject]
  simp [hobject]

end Arranged

/-- Whether there is a class for a unit that did not fail. -/
def HasLive (t : SourceTree) (units : List ResolvedUnit) (u : ResolvedUnit) : Prop :=
  ∃ c : Nat, units[c]? = some u ∧ t.isLive c = true

namespace Arranged

/-- There is a class for a unit that did not fail exactly if its own class did not. -/
theorem hasLive_iff (h : t.Arranged units kept) {c : Nat} {u : ResolvedUnit}
    (hu : units[c]? = some u) : t.HasLive units u ↔ t.isLive c = true := by
  constructor
  · rintro ⟨o, ho, hlive⟩
    rwa [h.eq_of_unit hu ho]
  · exact fun hlive => ⟨c, hu, hlive⟩

/-- A class that is live has not failed. -/
theorem isFailed_of_isLive {c : ClassId} (hlive : t.isLive c = true) : t.isFailed c = false := by
  rw [isLive, Option.any_eq_true] at hlive
  obtain ⟨node, hnode, hlive⟩ := hlive
  simpa [isFailed, hnode] using hlive

/-- What encloses the units on the way out of a unit. -/
theorem chain_of_encloses (hnames : (kept.filterMap jvmName?).Nodup) {u v : ResolvedUnit}
    {P : ResolvedUnit → Prop} (hencloses : Encloses kept v u) (hu : P u)
    (hv : ∀ w, Relation.ReflTransGen (Encloses kept) w v → P w) :
    ∀ w, Relation.ReflTransGen (Encloses kept) w u → P w := by
  intro w hw
  rcases hw.cases_tail with rfl | ⟨x, hx, hlast⟩
  · exact hu
  · exact hv w (encloses_unique hnames hlast hencloses ▸ hx)

/-- Nothing is around a unit at the top. -/
theorem chain_of_isRoot {u : ResolvedUnit} {P : ResolvedUnit → Prop} (hroot : u.IsRoot)
    (hu : P u) : ∀ w, Relation.ReflTransGen (Encloses kept) w u → P w := by
  intro w hw
  rcases hw.cases_tail with rfl | ⟨x, -, hlast⟩
  · exact hu
  · exact absurd hlast (not_encloses_of_isRoot hroot)

/-- A class is shown only if its unit can be seen, and no class on the way failed. -/
theorem visible_of_isShown (h : t.Arranged units kept) {c : ClassId} (hshown : t.IsShown c) :
    ∃ u, units[c]? = some u ∧ Visible kept u ∧
      ∀ w, Relation.ReflTransGen (Encloses kept) w u → t.HasLive units w := by
  induction hshown with
  | facade hc hlive =>
    obtain ⟨u, hu, hfacade⟩ := Lists.mem_positions.mp (h.facades ▸ hc)
    obtain ⟨w, rfl⟩ := isFacade_iff.mp hfacade
    have hroot : (ResolvedUnit.facade w).IsRoot := trivial
    exact ⟨_, hu, .root hroot, chain_of_isRoot hroot ⟨_, hu, hlive⟩⟩
  | topLevel hc hlive =>
    obtain ⟨u, hu, -, hroot⟩ := (h.topLevel _).mp hc
    exact ⟨u, hu, .root hroot, chain_of_isRoot hroot ⟨_, hu, hlive⟩⟩
  | nested howner hc hlive ih =>
    obtain ⟨v, hv, hvisible, hchain⟩ := ih
    obtain ⟨u, v', hu, hv', hclass, hencloses, hcompanion⟩ := (h.nested _ _).mp hc
    obtain rfl := Option.some.inj (hv.symm.trans hv')
    refine ⟨u, hu, .inside hencloses hvisible ?_,
      chain_of_encloses h.names hencloses ⟨_, hu, hlive⟩ hchain⟩
    rintro ⟨hholder | hslot, -⟩
    · cases u <;> simp [isClass, isHolder] at hclass hholder
    · exact hcompanion hslot
  | slot howner hobject hc hlive ih =>
    obtain ⟨v, hv, hvisible, hchain⟩ := ih
    obtain ⟨u, v', hu, hv', hencloses, -⟩ := h.exists_slot hc
    obtain rfl := Option.some.inj (hv.symm.trans hv')
    refine ⟨u, hu, .inside hencloses hvisible fun hhidden => ?_,
      chain_of_encloses h.names hencloses ⟨_, hu, hlive⟩ hchain⟩
    rw [(h.shownAsObject_iff hv).mpr hhidden.2] at hobject
    simp at hobject
  | localClass howner hf hc ih =>
    obtain ⟨v, hv, hvisible, hchain⟩ := ih
    obtain ⟨hbody, hlive⟩ := List.mem_filter.mp hc
    obtain ⟨u, v', o, hu, hv', hlocal, hencloses, hforest⟩ := h.localClass _ _ hbody
    obtain rfl := h.functions.eq_of_mem_forest hf hforest
    obtain rfl := Option.some.inj (hv.symm.trans hv')
    refine ⟨u, hu, .inside hencloses hvisible ?_,
      chain_of_encloses h.names hencloses ⟨_, hu, hlive⟩ hchain⟩
    rintro ⟨hholder | hslot, -⟩
    · cases u <;> simp [isLocal, isHolder] at hlocal hholder
    · have hclass := hslot.isClass
      cases u <;> simp [isLocal, isClass] at hlocal hclass

/-- A unit that can be seen is shown, when no class on the way failed. -/
theorem isShown_of_visible (h : t.Arranged units kept)
    (hinterfaces : (units.filterMap interfaceName?).Nodup) {u : ResolvedUnit}
    (hvisible : Visible kept u)
    (hchain : ∀ w, Relation.ReflTransGen (Encloses kept) w u → t.HasLive units w) :
    ∃ c : Nat, units[c]? = some u ∧ t.IsShown c := by
  induction hvisible with
  | @root u hroot =>
    obtain ⟨c, hu, hlive⟩ := hchain u .refl
    refine ⟨c, hu, ?_⟩
    cases u with
    | classUnit w => exact .topLevel ((h.topLevel c).mpr ⟨_, hu, rfl, hroot⟩) hlive
    | facade w =>
      refine .facade ?_ hlive
      rw [h.facades]
      exact Lists.mem_positions.mpr ⟨_, hu, rfl⟩
    | localClass w | defaultImpls w | opaqueUnit | foreign => exact hroot.elim
  | @inside u v hencloses hvisible hshown ih =>
    obtain ⟨o, hv, howner⟩ := ih fun w hw => hchain w (hw.tail hencloses)
    obtain ⟨c, hu, hlive⟩ := hchain u .refl
    refine ⟨c, hu, ?_⟩
    have hslot (hkind : u.isHolder = true ∨ IsCompanion kept v u) :
        t.shownAsObject o = false := by
      rw [← Bool.not_eq_true, h.shownAsObject_iff hv]
      exact fun hobject => hshown ⟨hkind, hobject⟩
    cases u with
    | classUnit w =>
      by_cases hcompanion : IsCompanion kept v (.classUnit w)
      · exact .slot howner (hslot (Or.inr hcompanion)) (List.mem_append_left _
          ((h.companion c o).mpr ⟨_, v, hu, hv, hcompanion⟩)) hlive
      · exact .nested howner ((h.nested c o).mpr ⟨_, v, hu, hv, rfl, hencloses, hcompanion⟩) hlive
    | localClass w =>
      have hsettled := h.settled c _ hu (isFailed_of_isLive hlive)
      obtain ⟨f, hf⟩ := (hsettled.resolve_left id).2 rfl
      obtain ⟨u', v', o', hu', hv', -, hencloses', hforest⟩ := h.localClass c f hf
      obtain rfl := Option.some.inj (hu.symm.trans hu')
      obtain rfl := h.eq_of_encloses hv hv' hencloses hencloses'
      exact .localClass howner hforest (List.mem_filter.mpr ⟨hf, hlive⟩)
    | defaultImpls w =>
      exact .slot howner (hslot (Or.inl rfl)) (List.mem_append_right _
        (h.holders hinterfaces c o _ v hu hv rfl hencloses)) hlive
    | facade w | opaqueUnit | foreign => exact hencloses.elim

end Arranged

end SourceTree

end LineAtlas
