import LineAtlas.Proofs.Tree.Enclosing
import LineAtlas.Proofs.Tree.Placing

/-!
# Before classes are placed

After the holders are placed, the classes of a draft stand for the kept units, but for holders
without an interface. What placing looks up among classes is what the units say.
-/

namespace LineAtlas.Draft

open ResolvedUnit

/-- A draft in which only local and nested classes wait for their places. -/
structure Prepared (d : Draft) (units kept : List ResolvedUnit) (rejected : List String) :
    Prop where
  /-- The classes stand for units. -/
  holds : ∃ others, Holds d units others ∧
    ∀ n, n ∈ others ↔ n ∈ rejected ∨ ∃ u ∈ kept, u ∉ units ∧ u.jvmName? = some n
  /-- Holders are in their slots. -/
  fit : HoldersFit d units
  /-- No two units have the same name. -/
  names : (kept.filterMap jvmName?).Nodup
  /-- The units are kept ones, and come once. -/
  subperm : units.Subperm kept
  /-- The classes with names of their own are all there, in order. -/
  classes : units.filter isClass = kept.filter isClass
  /-- Only holders without an interface have no class. -/
  left : ∀ u ∈ kept, u ∉ units → ∃ w, u = .defaultImpls w ∧
    kept.any (isClassNamed w.interfaceName) = false
  /-- The others have one. -/
  interfaces : ∀ w, .defaultImpls w ∈ units → kept.any (isClassNamed w.interfaceName) = true

variable {d : Draft} {units kept : List ResolvedUnit} {rejected : List String}

/-- Looking for a class by its name passes over holders. -/
theorem any_isClassNamed_filter (kept : List ResolvedUnit) (name : String) :
    (kept.filter (!·.isHolder)).any (isClassNamed name) = kept.any (isClassNamed name) := by
  rw [List.any_filter]
  refine congrArg (List.any kept) (funext fun u => ?_)
  cases u <;> simp [isHolder, isClassNamed]

section Placed

/-- The units that have a class when the holders that wait are placed. -/
def placedUnits (kept : List ResolvedUnit) (holders : List DefaultImplsUnit) :
    List ResolvedUnit :=
  kept.filter (!·.isHolder)
    ++ (withInterface (kept.filter (!·.isHolder)) holders).map ResolvedUnit.defaultImpls

variable {holders : List DefaultImplsUnit}

/-- Placing holders adds no class of another kind. -/
theorem filter_isClass_placedUnits :
    (placedUnits kept holders).filter isClass = kept.filter isClass := by
  have hnone : ((withInterface (kept.filter (!·.isHolder)) holders).map
      ResolvedUnit.defaultImpls).filter isClass = [] := by
    rw [List.filter_eq_nil_iff]
    intro u hu
    obtain ⟨w, -, rfl⟩ := List.mem_map.mp hu
    simp [isClass]
  rw [placedUnits, List.filter_append, List.filter_filter, hnone, List.append_nil]
  refine List.filter_congr fun u _ => ?_
  cases u <;> simp [isClass, isHolder]

variable (hwaiting : holders.map ResolvedUnit.defaultImpls = kept.filter isHolder)

include hwaiting

/-- The holders that wait are those that were kept. -/
theorem mem_holders_iff (w : DefaultImplsUnit) :
    w ∈ holders ↔ ResolvedUnit.defaultImpls w ∈ kept := by
  have hiff : ResolvedUnit.defaultImpls w ∈ holders.map ResolvedUnit.defaultImpls ↔
      ResolvedUnit.defaultImpls w ∈ kept := by
    rw [hwaiting, List.mem_filter]
    simp [isHolder]
  rw [← hiff, List.mem_map]
  constructor
  · exact fun hw => ⟨w, hw, rfl⟩
  · rintro ⟨w', hw', heq⟩
    exact ResolvedUnit.defaultImpls.inj heq ▸ hw'

/-- All kept units are placed but holders without an interface. -/
theorem mem_placedUnits_iff (u : ResolvedUnit) : u ∈ placedUnits kept holders ↔
    u ∈ kept ∧ ∀ w, u = .defaultImpls w → kept.any (isClassNamed w.interfaceName) = true := by
  rw [placedUnits, List.mem_append, List.mem_filter, List.mem_map]
  constructor
  · rintro (⟨hu, hholder⟩ | ⟨w, hw, rfl⟩)
    · refine ⟨hu, fun w hw => ?_⟩
      simp [hw, isHolder] at hholder
    · rw [withInterface, List.mem_filter, any_isClassNamed_filter] at hw
      exact ⟨(mem_holders_iff hwaiting w).mp hw.1,
        fun w' hw' => ResolvedUnit.defaultImpls.inj hw' ▸ hw.2⟩
  · rintro ⟨hu, hinterface⟩
    by_cases hholder : u.isHolder = true
    · obtain ⟨w, rfl⟩ := isHolder_iff.mp hholder
      refine Or.inr ⟨w, ?_, rfl⟩
      rw [withInterface, List.mem_filter, any_isClassNamed_filter]
      exact ⟨(mem_holders_iff hwaiting w).mpr hu, hinterface w rfl⟩
    · exact Or.inl ⟨hu, by simpa using hholder⟩

/-- Only a holder without its interface has no class. -/
theorem eq_defaultImpls_of_notMem_placedUnits {u : ResolvedUnit} (hu : u ∈ kept)
    (hnot : u ∉ placedUnits kept holders) :
    ∃ w, u = .defaultImpls w ∧ kept.any (isClassNamed w.interfaceName) = false := by
  rw [mem_placedUnits_iff hwaiting] at hnot
  push Not at hnot
  obtain ⟨w, hw, hany⟩ := hnot hu
  exact ⟨w, hw, by simpa using hany⟩

/-- The holders without an interface are the kept units that are not placed. -/
theorem mem_map_withoutInterface_iff (n : String) :
    n ∈ (withoutInterface (kept.filter (!·.isHolder)) holders).map DefaultImplsUnit.jvmName ↔
      ∃ u ∈ kept, u ∉ placedUnits kept holders ∧ u.jvmName? = some n := by
  rw [List.mem_map]
  constructor
  · rintro ⟨w, hw, rfl⟩
    rw [withoutInterface, List.mem_filter, any_isClassNamed_filter] at hw
    refine ⟨.defaultImpls w, (mem_holders_iff hwaiting w).mp hw.1, fun hin => ?_, rfl⟩
    have htrue := ((mem_placedUnits_iff hwaiting _).mp hin).2 w rfl
    simp [htrue] at hw
  · rintro ⟨u, hu, hnot, hname⟩
    obtain ⟨w, rfl, hany⟩ := eq_defaultImpls_of_notMem_placedUnits hwaiting hu hnot
    refine ⟨w, ?_, Option.some.inj hname⟩
    rw [withoutInterface, List.mem_filter, any_isClassNamed_filter, hany]
    exact ⟨(mem_holders_iff hwaiting w).mpr hu, rfl⟩

/-- The units that have a class are among those that were kept, each at most once. -/
theorem placedUnits_subperm : (placedUnits kept holders).Subperm kept := by
  have hsublist : ((withInterface (kept.filter (!·.isHolder)) holders).map
      ResolvedUnit.defaultImpls).Sublist (kept.filter isHolder) := by
    rw [← hwaiting]
    exact List.filter_sublist.map _
  refine ((List.Subperm.refl _).append hsublist.subperm).trans ?_
  exact (List.perm_append_comm.trans (List.filter_append_perm isHolder kept)).subperm

end Placed

/-- After placing the holders a draft is prepared. -/
theorem Added.prepared (h : Added d kept rejected)
    (hnames : (kept.filterMap jvmName?).Nodup) :
    ∃ units, Prepared (placeHolders d).2 units kept rejected := by
  have hrun : (placeHolders d).2
      = (d.holders.forM (fun holder => placeHolder holder.1 holder.2) d).2 := by
    rw [placeHolders, bind_apply, get_apply]
  have hwaiting : (d.holders.map Prod.snd).map ResolvedUnit.defaultImpls
      = kept.filter isHolder := by
    rw [← h.holders, List.map_map]
    rfl
  obtain ⟨hholds, hfits⟩ := placeHolders_holds d.holders h.holds h.holdersFit
  rw [← hrun] at hholds hfits
  refine ⟨placedUnits kept (d.holders.map Prod.snd), ⟨_, hholds, fun n => ?_⟩, hfits, hnames,
    placedUnits_subperm hwaiting, filter_isClass_placedUnits,
    fun u => eq_defaultImpls_of_notMem_placedUnits hwaiting,
    fun w hw => ((mem_placedUnits_iff hwaiting _).mp hw).2 w rfl⟩
  rw [List.mem_append]
  exact or_congr Iff.rfl (mem_map_withoutInterface_iff hwaiting n)

/-- Classes go by the names of the units that they stand for. -/
theorem Laid.names {nodes : List ClassNode} {functions : List FunctionNode}
    (h : Laid nodes functions units) :
    units.map jvmName? = (nodes.map ClassNode.jvmName).map some := by
  induction h with
  | nil => rfl
  | snoc hlaid hstands hfills ih =>
    rw [List.map_append, ih, List.map_append, List.map_append]
    simp [hstands.jvmName]

/-- Classes have different names when units have. -/
theorem Laid.names_nodup {nodes : List ClassNode} {functions : List FunctionNode}
    (h : Laid nodes functions units) (hnames : (units.filterMap jvmName?).Nodup) :
    (nodes.map ClassNode.jvmName).Nodup := by
  have hunits : units.filterMap jvmName? = nodes.map ClassNode.jvmName := by
    have hmap := congrArg (List.filterMap id) h.names
    simpa [List.filterMap_map, Function.comp_def] using hmap
  rwa [← hunits]

namespace Prepared

/-- In a draft that is prepared classes stand for units one after the other. -/
theorem laid (h : Prepared d units kept rejected) :
    Laid d.tree.classes d.tree.functions units := by
  obtain ⟨others, hholds, -⟩ := h.holds
  exact hholds.laid

/-- The classes with names of their own are those of class units. -/
theorem named (h : Prepared d units kept rejected) : d.named = Lists.positions isClass units := by
  obtain ⟨others, hholds, -⟩ := h.holds
  exact hholds.named

/-- The local classes are those of local units. -/
theorem localClasses (h : Prepared d units kept rejected) :
    d.localClasses = Lists.positions isLocal units := by
  obtain ⟨others, hholds, -⟩ := h.holds
  exact hholds.localClasses

/-- What differs between kept units differs between the units of classes. -/
theorem filterMap_nodup {β : Type} (h : Prepared d units kept rejected)
    {f : ResolvedUnit → Option β}
    (hnodup : (kept.filterMap f).Nodup) : (units.filterMap f).Nodup := by
  obtain ⟨same, hperm, hsublist⟩ := h.subperm
  exact (hperm.filterMap _).nodup_iff.mp ((hsublist.filterMap _).nodup hnodup)

/-- No two classes have the same name. -/
theorem names_nodup (h : Prepared d units kept rejected) :
    (d.tree.classes.map ClassNode.jvmName).Nodup :=
  h.laid.names_nodup (h.filterMap_nodup h.names)

/-- No unit has two classes. -/
theorem units_nodup (h : Prepared d units kept rejected) : units.Nodup := by
  have hmap : (units.map jvmName?).Nodup := by
    rw [h.laid.names]
    exact h.names_nodup.map (Option.some_injective String)
  exact hmap.of_map _

/-- A unit has one class. -/
theorem eq_of_unit (h : Prepared d units kept rejected) {c o : Nat} {u : ResolvedUnit}
    (hc : units[c]? = some u) (ho : units[o]? = some u) : c = o := by
  obtain ⟨hlt, hu⟩ := List.getElem?_eq_some_iff.mp hc
  obtain ⟨hlt', hu'⟩ := List.getElem?_eq_some_iff.mp ho
  exact (h.units_nodup.getElem_inj_iff).mp (hu.trans hu'.symm)

/-- A unit that has a class was kept. -/
theorem mem_kept (h : Prepared d units kept rejected) {c : Nat} {u : ResolvedUnit}
    (hc : units[c]? = some u) : u ∈ kept := h.subperm.subset (List.mem_of_getElem? hc)

/-- The declared name of a class is that of its unit. -/
theorem declaredName?_eq (h : Prepared d units kept rejected) (c : Nat) :
    d.declaredName? c = (units[c]?).bind ResolvedUnit.declaredName? := by
  rw [Draft.declaredName?]
  cases hclass : d.tree.class? c with
  | none =>
    have hnone : units[c]? = none := by
      rw [List.getElem?_eq_none_iff, ← h.laid.length_eq]
      exact List.getElem?_eq_none_iff.mp hclass
    rw [hnone]
    rfl
  | some node =>
    obtain ⟨u, hu, hstands⟩ := h.laid.exists_unit hclass
    rw [hu, Option.bind_some, Option.bind_some]
    cases u with
    | classUnit u =>
      obtain ⟨own, hown, hname, -⟩ := ClassShape.exists_named_of_bare hstands.2
      simp only [ClassNode.declaredName?, hown, hname]
      rfl
    | localClass u => simp [ClassNode.declaredName?, hstands.2, ResolvedUnit.declaredName?]
    | facade u =>
      obtain ⟨init, hinit⟩ := hstands.2.1
      simp [ClassNode.declaredName?, hinit, ResolvedUnit.declaredName?]
    | defaultImpls u => simp [ClassNode.declaredName?, hstands.2, ResolvedUnit.declaredName?]
    | opaqueUnit => exact hstands.elim
    | foreign => exact hstands.elim

/-- Looking for a declared name among classes is looking for it among units. -/
theorem declaredName?_beq (h : Prepared d units kept rejected) (name : ClassName) :
    (fun id => d.declaredName? id == some name)
      = fun id => (units[id]?).any (·.declaredName? == some name) := by
  funext id
  rw [h.declaredName?_eq]
  cases units[id]? <;> simp

/-- Only classes with names of their own have declared names. -/
theorem isClass_and_declaredName (name : ClassName) :
    (fun u : ResolvedUnit => decide (isClass u = true ∧ (u.declaredName? == some name) = true))
      = fun u => u.declaredName? == some name := by
  funext u
  rw [Bool.eq_iff_iff]
  cases u <;> simp [isClass, ResolvedUnit.declaredName?]

/-- Looking for a declared name among classes finds the class of the unit that has it. -/
theorem find?_declaredName (h : Prepared d units kept rejected) (name : ClassName) :
    (d.named.find? fun id => d.declaredName? id == some name).bind (units[·]?)
      = kept.find? (·.declaredName? == some name) := by
  rw [h.declaredName?_beq, h.named, Lists.find?_of_map_eq (Lists.map_positions isClass units),
    h.classes, List.find?_filter, isClass_and_declaredName]

/-- The class with a declared name is that of the last unit with it. -/
theorem withDeclaredName?_bind (h : Prepared d units kept rejected) (name : ClassName) :
    (d.withDeclaredName? name).bind (units[·]?)
      = kept.reverse.find? (·.declaredName? == some name) := by
  have hmap : ((Lists.positions isClass units).reverse).map (units[·]?)
      = (units.filter isClass).reverse.map some := by
    rw [List.map_reverse, Lists.map_positions, List.map_reverse]
  rw [withDeclaredName?, h.declaredName?_beq, h.named, Lists.find?_of_map_eq hmap, h.classes,
    ← List.filter_reverse, List.find?_filter, isClass_and_declaredName]

/-- The class that goes by a declared name. -/
theorem withDeclaredName?_eq_some (h : Prepared d units kept rejected) {name : ClassName}
    {o : ClassId} : d.withDeclaredName? name = some o ↔
      ∃ v, units[o]? = some v ∧ kept.reverse.find? (·.declaredName? == some name) = some v := by
  have hbind := h.withDeclaredName?_bind name
  have hunit {i : ClassId} (hi : d.withDeclaredName? name = some i) : ∃ v, units[i]? = some v := by
    have hmem : i ∈ d.named := List.mem_reverse.mp (List.mem_of_find?_eq_some hi)
    rw [h.named, Lists.mem_positions] at hmem
    exact hmem.imp fun v hv => hv.1
  constructor
  · intro ho
    obtain ⟨v, hv⟩ := hunit ho
    rw [ho, Option.bind_some, hv] at hbind
    exact ⟨v, hv, hbind.symm⟩
  · rintro ⟨v, hv, hfind⟩
    rw [hfind] at hbind
    obtain ⟨i, hi, hvi⟩ := Option.bind_eq_some_iff.mp hbind
    rw [hi, h.eq_of_unit hvi hv]

/-- Where a class with a name of its own goes. -/
theorem home?_classUnit (h : Prepared d units kept rejected) {c : Nat} {u : ClassUnit}
    (hc : units[c]? = some (.classUnit u)) : d.home? c =
      match u.declaredName.parent? with
      | none => some .topLevel
      | some parent => (d.withDeclaredName? parent).map Slot.nested := by
  obtain ⟨node, hnode, hstands⟩ := h.laid.exists_class hc
  obtain ⟨own, hown, hname, -⟩ := ClassShape.exists_named_of_bare hstands.2
  have hclass : d.tree.class? c = some node := hnode
  rw [home?, hclass, Option.map_some, hown]
  dsimp only
  rw [hname]
  rfl

/-- The home of a local class is the body of the method it names, in the class it names. -/
theorem home?_localClass (h : Prepared d units kept rejected) {c : Nat} {u : LocalClassUnit}
    (hc : units[c]? = some (.localClass u)) : d.home? c =
      (d.ownerNamed? u.origin.outerClass).bind fun owner =>
        (bodyIn? d.tree owner u.origin).map Slot.body := by
  obtain ⟨node, hnode, hstands⟩ := h.laid.exists_class hc
  have hclass : d.tree.class? c = some node := hnode
  rw [home?, hclass, Option.map_some, hstands.2]

/-- Only classes that wait for their places have a home. -/
theorem exists_unit_of_home? (h : Prepared d units kept rejected) {c : Nat} {s : Slot}
    (hhome : d.home? c = some s) : ∃ u, units[c]? = some u ∧
      (u.isLocal = true ∨ u.isClass = true) := by
  unfold home? at hhome
  cases hclass : d.tree.class? c with
  | none => simp [hclass] at hhome
  | some node =>
    obtain ⟨u, hu, hstands⟩ := h.laid.exists_unit hclass
    refine ⟨u, hu, ?_⟩
    rw [hclass, Option.map_some] at hhome
    cases u with
    | classUnit u => exact Or.inr rfl
    | localClass u => exact Or.inl rfl
    | facade u =>
      obtain ⟨init, hinit⟩ := hstands.2.1
      simp [hinit] at hhome
    | defaultImpls u => simp [hstands.2] at hhome
    | opaqueUnit => exact hstands.elim
    | foreign => exact hstands.elim

/-- The class with an internal name. -/
theorem ownerNamed?_eq_some (h : Prepared d units kept rejected) {name : String}
    {owner : ClassNode} (howner : d.ownerNamed? name = some owner) :
    ∃ o v, d.tree.class? o = some owner ∧ units[o]? = some v ∧ v.jvmName? = some name := by
  obtain ⟨o, ho⟩ := List.getElem?_of_mem (List.mem_of_find?_eq_some howner)
  obtain ⟨v, hv, hstands⟩ := h.laid.exists_unit ho
  have hname : owner.jvmName = name := by simpa using List.find?_some howner
  exact ⟨o, v, ho, hv, hname ▸ hstands.jvmName⟩

/-- A function that a local class names is one of its class. -/
theorem bodyIn?_mem_forest (hplaces : d.tree.PlacesFunctions) {o : ClassId} {owner : ClassNode}
    (howner : d.tree.class? o = some owner) {origin : Origin} {f : FunctionId}
    (hf : bodyIn? d.tree owner origin = some f) : f ∈ d.tree.forest o := by
  have hmembers : d.tree.membersOf o = owner.memberFunctions := by
    simp [SourceTree.membersOf, howner]
  unfold bodyIn? at hf
  split at hf
  · rw [SourceTree.forest, hmembers]
    exact List.mem_of_find?_eq_some hf
  · rw [(hplaces.forest_perm o).mem_iff, hmembers]
    exact List.mem_append_left _ (initializer?_mem hf)

end Prepared

end LineAtlas.Draft
