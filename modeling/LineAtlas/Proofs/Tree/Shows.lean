import LineAtlas.Proofs.Resolution.Units
import LineAtlas.Proofs.Tree.Chains
import LineAtlas.Proofs.Tree.Composed

/-!
# What a report shows of units

A class of a finished tree that is shown brings the methods of its unit into the report, and its
name, unless it is the top level of a file. It is missing only where a failure names it or a
class around it, where the way out of it runs in a circle, or where it passes a hidden slot.
-/

namespace LineAtlas

open Draft Report ResolvedUnit
open Relation (ReflTransGen TransGen)

variable {units kept : List ResolvedUnit} {t : SourceTree} {u : ResolvedUnit}

/-- How a report shows a method. -/
def Body.slot (b : Body) : String × LineMap := (b.signature.display, b.lines.slots)

/-- The methods that the class of a unit has are those that the unit carries. -/
theorem ResolvedUnit.FitsKind.placed_perm (h : u.FitsKind) : u.placed.Perm u.bodies := by
  cases u with
  | classUnit w =>
    have hinit : w.members.init = none := h
    simp [placed, placedBodies, initOf, bodies, Members.bodies, hinit]
  | localClass w =>
    have hinit : w.members.init = none := h
    simp [placed, placedBodies, initOf, bodies, Members.bodies, hinit]
  | facade w =>
    rw [placed, placedBodies, bodies, Members.bodies, List.append_assoc, List.append_assoc _ _
      w.members.init.toList]
    exact List.perm_append_comm.append_left _
  | defaultImpls w => exact List.Perm.refl _
  | opaqueUnit => exact List.Perm.refl _
  | foreign => exact List.Perm.refl _

/-- Holders with different names are for different interfaces. -/
theorem ResolvedUnit.interfaces_nodup (hnames : (units.filterMap jvmName?).Nodup)
    (hfits : ∀ u ∈ units, u.FitsKind) : (units.filterMap interfaceName?).Nodup := by
  have hsublist (l : List ResolvedUnit) (hfits : ∀ u ∈ l, u.FitsKind) :
      ((l.filterMap interfaceName?).map (· ++ ClassFile.defaultImplsSuffix)).Sublist
        (l.filterMap jvmName?) := by
    induction l with
    | nil => exact List.Sublist.refl _
    | cons u rest ih =>
      have hrest := ih fun v hv => hfits v (List.mem_cons_of_mem u hv)
      have hu := hfits u List.mem_cons_self
      cases u with
      | defaultImpls w =>
        have hname : w.jvmName = w.interfaceName ++ ClassFile.defaultImplsSuffix := hu
        simp only [List.filterMap_cons, interfaceName?, jvmName?, List.map_cons, hname]
        exact hrest.cons_cons _
      | classUnit w | localClass w | facade w =>
        simp only [List.filterMap_cons, interfaceName?, jvmName?]
        exact hrest.cons _
      | opaqueUnit | foreign => exact hrest
  exact ((hsublist units hfits).nodup hnames).of_map _

/-- No two holders that have a class are for the same interface. -/
theorem SourceTree.Arranged.interfaces_nodup {t : SourceTree} {units kept : List ResolvedUnit}
    (h : t.Arranged units kept) (hfits : ∀ u ∈ units, u.FitsKind) :
    (units.filterMap interfaceName?).Nodup := by
  obtain ⟨same, hperm, hsublist⟩ := List.subperm_of_subset h.unique h.subset
  refine ResolvedUnit.interfaces_nodup ?_ hfits
  exact (hperm.filterMap _).nodup_iff.mp ((hsublist.filterMap _).nodup h.names)

namespace SourceTree

/-- The name of a class shows no method. -/
theorem nameItems_methods (t : SourceTree) (c : ClassId) :
    (t.nameItems c).filterMap Item.method? = [] := by
  rw [nameItems]
  cases t.class? c with
  | none => rfl
  | some node =>
    rw [Option.toList_some, List.flatMap_singleton]
    cases node.shape <;> rfl

/-- A class shows the methods of its functions. -/
theorem itemsOf_methods (t : SourceTree) (c : ClassId) :
    (t.itemsOf c).filterMap Item.method? = (t.bodiesOf c).map Body.slot := by
  rw [itemsOf, List.filterMap_append, nameItems_methods, List.nil_append, bodiesOf,
    List.filterMap_flatMap, List.map_flatMap]
  refine List.flatMap_congr fun f _ => ?_
  rw [methodItems]
  cases t.function? f <;> rfl

/-- The methods of a report are those of the classes that it shows. -/
theorem Sound.methods_perm (h : t.Sound) :
    t.fileEntry.methods.Perm (t.shown.flatMap fun c => (t.bodiesOf c).map Body.slot) := by
  refine (h.fileEntry_items.filterMap Item.method?).trans (List.Perm.of_eq ?_)
  rw [List.filterMap_flatMap]
  exact List.flatMap_congr fun c _ => t.itemsOf_methods c

/-- The line slots of a report are those of its methods. -/
theorem lineCount_eq_methods (entry : FileEntry) :
    entry.lineCount = (entry.methods.map fun method => method.2.size).sum := by
  rw [FileEntry.lineCount_eq, FileEntry.methods]
  induction entry.items with
  | nil => rfl
  | cons item rest ih =>
    rw [Item.lineCountOf_cons, ih]
    cases item with
    | method signature lines => rfl
    | ofClass name =>
      rw [Item.lineCount, Nat.zero_add]
      rfl

namespace Arranged

/-- A class that did not fail has the methods that its unit carries. -/
theorem bodiesOf_perm (h : t.Arranged units kept) (hfits : u.FitsKind) {c : Nat}
    (hu : units[c]? = some u) (hlive : t.isLive c = true) : (t.bodiesOf c).Perm u.bodies := by
  obtain ⟨node, hnode, -⟩ := h.exists_class hu
  obtain ⟨u', hu', -, hbodies⟩ := h.stands c node hnode
  obtain rfl := Option.some.inj (hu.symm.trans hu')
  refine (hbodies ?_).trans hfits.placed_perm
  simpa [isLive, hnode] using hlive

/-- The units whose classes are shown. -/
theorem methods_perm (h : t.Arranged units kept) (hfits : ∀ u ∈ units, u.FitsKind) :
    t.fileEntry.methods.Perm
      ((t.shown.filterMap (units[·]?)).flatMap fun u => u.bodies.map Body.slot) := by
  have hsound := h.sound fun w hw => hfits _ hw
  refine hsound.methods_perm.trans ?_
  rw [Lists.flatMap_filterMap]
  refine List.Perm.flatMap_left _ fun c hc => ?_
  obtain ⟨u, hu, -, hchain⟩ := h.visible_of_isShown (hsound.mem_shown_iff.mp hc)
  have hlive := (h.hasLive_iff hu).mp (hchain u .refl)
  rw [hu, Option.toList_some, List.flatMap_singleton]
  exact (h.bodiesOf_perm (hfits u (List.mem_of_getElem? hu)) hu hlive).map _

/-- The names in a report are those of the classes that it shows. -/
theorem mem_classNames (h : t.Arranged units kept) (hsound : t.Sound) {name : String}
    (hname : name ∈ t.fileEntry.classNames) : ∃ (c : Nat) (u : ResolvedUnit), c ∈ t.shown ∧
      units[c]? = some u ∧ u.jvmName? = some name := by
  rw [FileEntry.classNames, (hsound.fileEntry_items.filterMap Item.className?).mem_iff,
    List.mem_filterMap] at hname
  obtain ⟨item, hitem, hname⟩ := hname
  obtain ⟨c, hc, hitem⟩ := List.mem_flatMap.mp hitem
  refine ⟨c, ?_⟩
  rcases List.mem_append.mp hitem with hitem | hitem
  · obtain ⟨node, hnode, hitem⟩ := List.mem_flatMap.mp hitem
    obtain ⟨u, hu, hstands, -⟩ := h.stands c node (Option.mem_toList.mp hnode)
    have hjvm : node.jvmName = name := by
      cases hshape : node.shape <;>
        simp_all [ClassNode.item, Item.className?]
    exact ⟨u, hc, hu, hjvm ▸ hstands.jvmName⟩
  · obtain ⟨f, -, hitem⟩ := List.mem_flatMap.mp hitem
    obtain ⟨node, -, rfl⟩ := List.mem_map.mp hitem
    simp [FunctionNode.item, Item.className?] at hname

/-- A class that is shown goes by its name, unless it is the top level of a file. -/
theorem classNames_of_mem_shown (h : t.Arranged units kept) (hsound : t.Sound) {c : Nat}
    (hc : c ∈ t.shown) (hu : units[c]? = some u) (hfacade : u.isFacade = false) :
    ∃ name ∈ t.fileEntry.classNames, u.jvmName? = some name := by
  obtain ⟨node, hnode, hstands⟩ := h.exists_class hu
  refine ⟨node.jvmName, ?_, hstands.jvmName⟩
  rw [FileEntry.classNames, (hsound.fileEntry_items.filterMap Item.className?).mem_iff,
    List.mem_filterMap]
  refine ⟨node.item, List.mem_flatMap.mpr ⟨c, hc, List.mem_append_left _ ?_⟩, rfl⟩
  refine List.mem_flatMap.mpr ⟨node, Option.mem_toList.mpr hnode, ?_⟩
  cases hshape : node.shape with
  | facade init =>
    exfalso
    cases u with
    | facade w => simp [isFacade] at hfacade
    | classUnit w =>
      obtain ⟨own, hown, -⟩ := ClassShape.exists_named_of_bare hstands.2
      simp [hshape] at hown
    | localClass w | defaultImpls w =>
      rw [hstands.2] at hshape
      simp at hshape
    | opaqueUnit | foreign => exact hstands.elim
  | named shape | localClass kind origin | defaultImpls => exact List.mem_singleton_self _

end Arranged

end SourceTree

/-- Whether some names include that of a unit, or of one around it. -/
def ResolvedUnit.IsBlamed (kept : List ResolvedUnit) (names : List String)
    (u : ResolvedUnit) : Prop :=
  ∃ v, ReflTransGen (Encloses kept) v u ∧ ∃ name ∈ names, v.jvmName? = some name

/-- Whether a report shows a unit: by its name, unless it is the top level of a file, and with
all its methods. -/
def Report.FileEntry.Shows (entry : FileEntry) (u : ResolvedUnit) : Prop :=
  (u.isFacade = true ∨ ∃ name ∈ entry.classNames, u.jvmName? = some name) ∧
    (u.bodies.map Body.slot).Subperm entry.methods

namespace Composition.Reflects

variable {c : Composition} {rejected : List String}

/-- What is around a kept unit was kept. -/
theorem mem_kept_of_chain (hu : u ∈ kept) {w : ResolvedUnit}
    (hw : ReflTransGen (Encloses kept) w u) : w ∈ kept := by
  rcases ReflTransGen.cases_head hw with heq | ⟨x, hx, -⟩
  · exact heq ▸ hu
  · exact mem_of_encloses hx

/-- Without a failure that names a unit or one around it, all their classes could be placed. -/
theorem hasLive (h : c.Reflects units kept rejected) (hu : u ∈ kept)
    (hblamed : ¬ IsBlamed kept (namesOf c.failures) u) :
    ∀ w, ReflTransGen (Encloses kept) w u → c.tree.HasLive units w := by
  intro w hw
  by_contra hlive
  have hmem := mem_kept_of_chain hu hw
  obtain ⟨name, hname⟩ := h.named w hmem
  exact hblamed ⟨w, hw, name, (h.failures name).mpr (Or.inr ⟨w, hmem, hname, hlive⟩), hname⟩

/-- When nothing is rejected, the classes on the way out of a unit could be placed only if no
failure names one of them. -/
theorem not_isBlamed (h : c.Reflects units kept [])
    (hchain : ∀ w, ReflTransGen (Encloses kept) w u → c.tree.HasLive units w) (hu : u ∈ kept) :
    ¬ IsBlamed kept (namesOf c.failures) u := by
  rintro ⟨w, hw, name, hname, hjvm⟩
  obtain ⟨v, hv, hsame, hlive⟩ := ((h.failures name).mp hname).resolve_left List.not_mem_nil
  obtain rfl := eq_of_names_nodup h.arranged.names hv (mem_kept_of_chain hu hw) hsame hjvm
  exact hlive (hchain v hw)

/-- Units whose classes could be placed are visible but for circles and hidden slots. -/
theorem visible_iff (h : c.Reflects units kept rejected) (hu : u ∈ kept)
    (hblamed : ¬ IsBlamed kept (namesOf c.failures) u) :
    Visible kept u ↔ ¬ (RunsInCircle kept u ∨ PassesHidden kept u) := by
  refine ResolvedUnit.visible_iff h.arranged.names fun w hw => ?_
  obtain ⟨i, hi, hlive⟩ := h.hasLive hu hblamed w hw
  refine (h.arranged.settled i w hi (SourceTree.Arranged.isFailed_of_isLive hlive)).imp id ?_
  rintro ⟨⟨v, -, hencloses⟩, -⟩
  exact ⟨v, hencloses⟩

/-- No two holders have the same interface. -/
theorem interfaces_nodup (h : c.Reflects units kept rejected)
    (hfits : ∀ u ∈ kept, u.FitsKind) : (units.filterMap interfaceName?).Nodup :=
  h.arranged.interfaces_nodup fun u hu => hfits u (h.arranged.subset hu)

/-- The tree of a composition is sound. -/
theorem sound (h : c.Reflects units kept rejected) (hfits : ∀ u ∈ kept, u.FitsKind) :
    c.tree.Sound := h.arranged.sound fun _ hw => hfits _ (h.arranged.subset hw)

/-- A report shows exactly the visible ones of the units whose classes could be placed. -/
theorem shows_iff (h : c.Reflects units kept rejected) (hfits : ∀ u ∈ kept, u.FitsKind)
    (hu : u ∈ kept) (hblamed : ¬ IsBlamed kept (namesOf c.failures) u) :
    c.tree.fileEntry.Shows u ↔ Visible kept u := by
  have hsound := h.sound hfits
  constructor
  · rintro ⟨hfacade | ⟨name, hname, hjvm⟩, -⟩
    · obtain ⟨w, rfl⟩ := isFacade_iff.mp hfacade
      exact .root trivial
    · obtain ⟨i, v, hi, hv, hsame⟩ := h.arranged.mem_classNames hsound hname
      obtain ⟨v', hv', hvisible, -⟩ := h.arranged.visible_of_isShown (hsound.mem_shown_iff.mp hi)
      obtain rfl := Option.some.inj (hv.symm.trans hv')
      have hmem := h.arranged.subset (List.mem_of_getElem? hv)
      rwa [eq_of_names_nodup h.arranged.names hu hmem hjvm hsame]
  · intro hvisible
    obtain ⟨i, hi, hshown⟩ := h.arranged.isShown_of_visible (h.interfaces_nodup hfits) hvisible
      (h.hasLive hu hblamed)
    have hmem := hsound.mem_shown_iff.mpr hshown
    refine ⟨?_, ?_⟩
    · cases hfacade : u.isFacade with
      | true => exact Or.inl rfl
      | false => exact Or.inr (h.arranged.classNames_of_mem_shown hsound hmem hi hfacade)
    · have hmethods := h.arranged.methods_perm fun v hv => hfits v (h.arranged.subset hv)
      have hunit : u ∈ c.tree.shown.filterMap (units[·]?) := List.mem_filterMap.mpr ⟨i, hmem, hi⟩
      have hsubperm := Lists.Subperm.flatMap (List.singleton_subperm_iff.mpr hunit)
        fun u => u.bodies.map Body.slot
      rw [List.flatMap_singleton] at hsubperm
      exact hsubperm.trans hmethods.symm.subperm

end Composition.Reflects

end LineAtlas
