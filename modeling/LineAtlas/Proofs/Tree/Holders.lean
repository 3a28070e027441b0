import LineAtlas.Proofs.Tree.Adding

/-!
# Placing holders

A holder of bodies gets a class when its interface has one, and goes into the slot of that
interface. The others are reported.
-/

namespace LineAtlas

open ResolvedUnit

/-- The interface of a holder of bodies. -/
def ResolvedUnit.interfaceName? : ResolvedUnit → Option String
  | .defaultImpls u => some u.interfaceName
  | _ => none

/-- Whether a unit is a class with a given internal name. -/
def ResolvedUnit.isClassNamed (name : String) : ResolvedUnit → Bool
  | .classUnit u => u.jvmName == name
  | _ => false

/-- A unit is the class of a name exactly if it is a class unit that goes by it. -/
theorem ResolvedUnit.isClassNamed_iff {name : String} {u : ResolvedUnit} :
    u.isClassNamed name = true ↔ ∃ w, u = .classUnit w ∧ w.jvmName = name := by
  cases u <;> simp [isClassNamed]

/-- Changes what a class with a name of its own has besides members. -/
def ClassNode.onNamed (change : NamedShape → NamedShape) (node : ClassNode) : ClassNode :=
  match node.shape with
  | .named shape => { node with shape := .named (change shape) }
  | _ => node

/-- A change of nothing but slots. -/
def NamedShape.ChangesSlots (change : NamedShape → NamedShape) : Prop :=
  ∀ shape, ∃ nested companion holder,
    change shape = { shape with nested, companion, defaultImpls := holder }

namespace ClassNode

variable (change : NamedShape → NamedShape) (node : ClassNode)

/-- Changing slots keeps the internal name. -/
@[simp]
theorem onNamed_jvmName : (node.onNamed change).jvmName = node.jvmName := by
  unfold onNamed
  split <;> rfl

/-- Changing slots neither fails a class nor repairs it. -/
@[simp]
theorem onNamed_failed : (node.onNamed change).failed = node.failed := by
  unfold onNamed
  split <;> rfl

/-- Changing slots keeps the properties. -/
@[simp]
theorem onNamed_properties : (node.onNamed change).properties = node.properties := by
  unfold onNamed
  split <;> rfl

/-- Changing slots keeps the functions of a class. -/
@[simp]
theorem onNamed_memberFunctions :
    (node.onNamed change).memberFunctions = node.memberFunctions := by
  unfold onNamed
  split
  · next shape hshape => simp [memberFunctions_eq, listedFunctions, ClassShape.initializers, hshape]
  · rfl

/-- Changing slots keeps the initializers. -/
@[simp]
theorem onNamed_initializers :
    (node.onNamed change).shape.initializers = node.shape.initializers := by
  unfold onNamed
  split
  · next shape hshape => simp [ClassShape.initializers, hshape]
  · rfl

/-- A class without its slots is the same when only slots are changed. -/
theorem onNamed_bare {change : NamedShape → NamedShape}
    (hchange : NamedShape.ChangesSlots change) (node : ClassNode) :
    (node.onNamed change).bare = node.bare := by
  unfold onNamed
  split
  · next shape hshape =>
    obtain ⟨nested, companion, holder, hslots⟩ := hchange shape
    simp [bare, ClassShape.bare, hshape, hslots]
  · rfl

end ClassNode

namespace Draft

/-- Changing the slots of a class changes nothing but this class. -/
theorem modifyNamed_apply (id : ClassId) (change : NamedShape → NamedShape) (d : Draft) :
    modifyNamed id change d
      = ((), { d with tree := { d.tree with
          classes := d.tree.classes.modify id (ClassNode.onNamed change) } }) := rfl

variable {d : Draft} {units : List ResolvedUnit} {others : List String}

/-- A draft holds the same units when a holder is put into a slot. -/
theorem Holds.setHolder (h : Holds d units others) (o c : ClassId) :
    Holds (modifyNamed o (fun shape => { shape with defaultImpls := some c }) d).2 units
      others := by
  have hchange : NamedShape.ChangesSlots fun shape => { shape with defaultImpls := some c } :=
    fun shape => ⟨shape.nested, shape.companion, some c, rfl⟩
  rw [modifyNamed_apply]
  refine ⟨h.laid.modify o _ (fun node u hstands =>
    hstands.of_bare (ClassNode.onNamed_bare hchange node)) ?_ ?_ ?_ ?_, h.named,
    h.localClasses, h.facades, h.topLevel, ?_, fun n => ?_⟩
  · exact ClassNode.onNamed_memberFunctions _
  · exact ClassNode.onNamed_properties _
  · exact ClassNode.onNamed_initializers _
  · exact ClassNode.onNamed_failed _
  · intro node hnode
    obtain ⟨i, hi⟩ := List.getElem?_of_mem hnode
    obtain ⟨old, hold, rfl⟩ := Lists.getElem?_modify_eq_some hi
    have hslots := h.slots old (List.mem_of_getElem? hold)
    split
    · rw [ClassNode.onNamed]
      split
      · next shape hshape => simpa [hshape, ClassShape.nested, ClassShape.companion] using hslots
      · exact hslots
    · exact hslots
  · rw [h.failures n]
    refine or_congr Iff.rfl (Lists.exists_mem_modify ?_).symm
    intro node
    rw [ClassNode.onNamed_failed, ClassNode.onNamed_jvmName]

/-- The class of a unit. -/
theorem Laid.exists_class {nodes : List ClassNode} {functions : List FunctionNode}
    (h : Laid nodes functions units) {c : Nat} {u : ResolvedUnit} (hu : units[c]? = some u) :
    ∃ node, nodes[c]? = some node ∧ node.StandsFor u := by
  have hc : c < nodes.length := by
    rw [h.length_eq]
    exact (List.getElem?_eq_some_iff.mp hu).1
  obtain ⟨v, -, -, -, hv, hstands, -⟩ := h.exists_block (List.getElem?_eq_getElem hc)
  obtain rfl := Option.some.inj (hv.symm.trans hu)
  exact ⟨nodes[c], List.getElem?_eq_getElem hc, hstands⟩

/-- The unit of a class. -/
theorem Laid.exists_unit {nodes : List ClassNode} {functions : List FunctionNode}
    (h : Laid nodes functions units) {c : Nat} {node : ClassNode} (hnode : nodes[c]? = some node) :
    ∃ u, units[c]? = some u ∧ node.StandsFor u := by
  obtain ⟨u, -, -, -, hu, hstands, -⟩ := h.exists_block hnode
  exact ⟨u, hu, hstands⟩

/-- The class with a name that a holder looks for. -/
theorem Holds.namedWith?_eq_some (h : Holds d units others) {name : String} {o : ClassId}
    (ho : d.namedWith? name = some o) : ∃ node u, d.tree.class? o = some node ∧
      node.jvmName = name ∧ units[o]? = some (.classUnit u) ∧ u.jvmName = name := by
  have hname := List.find?_some ho
  have hmem := List.mem_of_find?_eq_some ho
  rw [h.named, Lists.mem_positions] at hmem
  obtain ⟨v, hv, hclass⟩ := hmem
  obtain ⟨node, hnode, hstands⟩ := h.laid.exists_class hv
  have hjvm : node.jvmName = name := by
    have hsame : d.tree.class? o = some node := hnode
    simpa [hsame] using hname
  obtain ⟨u, rfl⟩ := isClass_iff.mp hclass
  exact ⟨node, u, hnode, hjvm, hv, hstands.1 ▸ hjvm⟩

/-- A class that is not found is none of the units. -/
theorem Holds.namedWith?_eq_none (h : Holds d units others) {name : String}
    (hnone : d.namedWith? name = none) : units.any (isClassNamed name) = false := by
  rw [List.any_eq_false]
  intro u hu hnamed
  obtain ⟨o, ho⟩ := List.getElem?_of_mem hu
  obtain ⟨node, hnode, hstands⟩ := h.laid.exists_class ho
  obtain ⟨w, rfl, hname⟩ := isClassNamed_iff.mp hnamed
  have hmem : o ∈ d.named := by
    rw [h.named, Lists.mem_positions]
    exact ⟨_, ho, rfl⟩
  have hother := List.find?_eq_none.mp hnone o hmem
  have hsame : d.tree.class? o = some node := hnode
  simp [hsame, hstands.1.trans hname] at hother

/-- Holders are in the slots of their interfaces. -/
structure HoldersFit (d : Draft) (units : List ResolvedUnit) : Prop where
  /-- In the slot of a class there is only a holder for it. -/
  sound : ∀ node ∈ d.tree.classes, ∀ c ∈ node.shape.holder, ∃ u,
    units[c]? = some (.defaultImpls u) ∧ u.interfaceName = node.jvmName
  /-- Every holder is in a slot, when no two are for the same interface. -/
  complete : (units.filterMap interfaceName?).Nodup →
    ∀ (c : Nat) u, units[c]? = some (.defaultImpls u) →
      ∃ node ∈ d.tree.classes, c ∈ node.shape.holder

/-- Before holders are placed no slot has one. -/
theorem Added.holdersFit {kept : List ResolvedUnit} {rejected : List String}
    (h : Added d kept rejected) : HoldersFit d (kept.filter (!·.isHolder)) where
  sound := fun node hnode c hc => by
    rw [h.slots node hnode] at hc
    exact absurd hc List.not_mem_nil
  complete := fun _ c u hu => by
    have hmem := List.of_mem_filter (List.mem_of_getElem? hu)
    simp [isHolder] at hmem

/-- The holders whose interfaces are among some units. -/
def withInterface (units : List ResolvedUnit) (holders : List DefaultImplsUnit) :
    List DefaultImplsUnit :=
  holders.filter fun u => units.any (isClassNamed u.interfaceName)

/-- The holders whose interfaces are not among some units. -/
def withoutInterface (units : List ResolvedUnit) (holders : List DefaultImplsUnit) :
    List DefaultImplsUnit :=
  holders.filter fun u => !units.any (isClassNamed u.interfaceName)

/-- A draft with a new class that goes into the slot of another one. -/
theorem setHolder_classes (block : List FunctionNode) (node : ClassNode) (source : ClassSource)
    (new : List ClassFailure) {o : ClassId} (hlt : o < d.tree.classes.length) :
    (modifyNamed o (fun shape => { shape with defaultImpls := some d.tree.classes.length })
        (d.withClass block node source new)).2.tree.classes
      = d.tree.classes.modify o (ClassNode.onNamed fun shape =>
        { shape with defaultImpls := some d.tree.classes.length }) ++ [node] := by
  rw [modifyNamed_apply]
  exact Lists.modify_append_left hlt

/-- The slot of an interface is there for its holder. -/
theorem Holds.setHolder_holder (h : Holds d units others) {o : ClassId} {interface : ClassNode}
    {v : ClassUnit} (ho : d.tree.class? o = some interface)
    (hunit : units[o]? = some (.classUnit v)) (c : ClassId) :
    (interface.onNamed fun shape => { shape with defaultImpls := some c }).shape.holder
      = [c] := by
  obtain ⟨w, hw, hstands⟩ := h.laid.exists_unit ho
  obtain rfl := Option.some.inj (hw.symm.trans hunit)
  obtain ⟨own, hnamed, -⟩ := ClassShape.exists_named_of_bare hstands.2
  rw [ClassNode.onNamed, hnamed]
  rfl

/-- The name of a class with a holder in its slot is that of an interface with a holder. -/
theorem HoldersFit.interfaceName_mem (hfit : HoldersFit d units) {node : ClassNode}
    (hnode : node ∈ d.tree.classes) {c : ClassId} (hc : c ∈ node.shape.holder)
    {u : DefaultImplsUnit} (hu : units[c]? = some (.defaultImpls u)) :
    node.jvmName ∈ units.filterMap interfaceName? := by
  obtain ⟨u', hu', hname⟩ := hfit.sound node hnode c hc
  obtain rfl := ResolvedUnit.defaultImpls.inj (Option.some.inj (hu'.symm.trans hu))
  exact List.mem_filterMap.mpr ⟨.defaultImpls u', List.mem_of_getElem? hu, congrArg some hname⟩

/-- The class of a new holder fits into the slot of its interface. -/
theorem HoldersFit.next (h : Holds d units others) (hfit : HoldersFit d units)
    {block : List FunctionNode} {node : ClassNode} {source : ClassSource}
    {new : List ClassFailure} {u : DefaultImplsUnit} (hshape : node.shape = .defaultImpls)
    {o : ClassId} {interface : ClassNode} {v : ClassUnit}
    (ho : d.tree.class? o = some interface) (hjvm : interface.jvmName = u.interfaceName)
    (hunit : units[o]? = some (.classUnit v)) :
    HoldersFit (modifyNamed o (fun shape =>
        { shape with defaultImpls := some d.tree.classes.length })
      (d.withClass block node source new)).2 (units ++ [.defaultImpls u]) := by
  have hlength := h.laid.length_eq
  have hclasses := setHolder_classes block node source new (List.getElem?_eq_some_iff.mp ho).1
  have hchanged := h.setHolder_holder ho hunit d.tree.classes.length
  have hnewUnit : (units ++ [ResolvedUnit.defaultImpls u])[d.tree.classes.length]?
      = some (.defaultImpls u) := by
    rw [hlength, List.getElem?_append_right le_rfl, Nat.sub_self]
    rfl
  have hold {c : Nat} {w : ResolvedUnit} (hw : units[c]? = some w) :
      (units ++ [ResolvedUnit.defaultImpls u])[c]? = some w := by
    rw [List.getElem?_append_left (List.getElem?_eq_some_iff.mp hw).1, hw]
  constructor
  · intro n hn c hc
    rw [hclasses] at hn
    rcases List.mem_append.mp hn with hn | hn
    · obtain ⟨i, hi⟩ := List.getElem?_of_mem hn
      obtain ⟨old, hmem, rfl⟩ := Lists.getElem?_modify_eq_some hi
      split at hc
      · next hoi =>
        subst hoi
        obtain rfl := Option.some.inj (hmem.symm.trans ho)
        rw [hchanged, List.mem_singleton] at hc
        refine ⟨u, hc ▸ hnewUnit, ?_⟩
        rw [if_pos rfl, ClassNode.onNamed_jvmName]
        exact hjvm.symm
      · next hoi =>
        obtain ⟨w, hw, hname⟩ := hfit.sound old (List.mem_of_getElem? hmem) c hc
        rw [if_neg hoi]
        exact ⟨w, hold hw, hname⟩
    · rw [List.mem_singleton.mp hn, hshape] at hc
      simp [ClassShape.holder] at hc
  · intro hnodup c w hw
    rw [List.filterMap_append, List.nodup_append] at hnodup
    rw [hclasses]
    rw [List.getElem?_append] at hw
    split at hw
    · obtain ⟨n, hn, hc⟩ := hfit.complete hnodup.1 c w hw
      obtain ⟨i, hi⟩ := List.getElem?_of_mem hn
      have hoi : ¬ o = i := by
        -- Another holder for the same interface would have the same slot.
        rintro rfl
        obtain rfl := Option.some.inj (hi.symm.trans ho)
        exact hnodup.2.2 _ (hfit.interfaceName_mem hn hc hw) _ List.mem_cons_self hjvm
      refine ⟨n, List.mem_append_left _ (List.mem_of_getElem? (i := i) ?_), hc⟩
      rw [List.getElem?_modify_ne _ _ hoi, hi]
    · have hc : c - units.length = 0 := by
        rw [List.getElem?_singleton] at hw
        split at hw
        · next hzero => exact hzero
        · cases hw
      refine ⟨_, List.mem_append_left _ (List.mem_of_getElem? (i := o) (by
        rw [List.getElem?_modify_eq]
        exact congrArg _ ho)), ?_⟩
      rw [hchanged, List.mem_singleton, hlength]
      omega

/-- Placing a holder adds its class if its interface is there, and reports it if not. -/
theorem placeHolder_next (h : Holds d units others) (hfit : HoldersFit d units) (file : String)
    (u : DefaultImplsUnit) :
    Holds (placeHolder file u d).2
        (units ++ (withInterface units [u]).map ResolvedUnit.defaultImpls)
        (others ++ (withoutInterface units [u]).map DefaultImplsUnit.jvmName)
      ∧ HoldersFit (placeHolder file u d).2
        (units ++ (withInterface units [u]).map ResolvedUnit.defaultImpls) := by
  cases hfind : d.namedWith? u.interfaceName with
  | none =>
    have hnone := h.namedWith?_eq_none hfind
    rw [placeHolder_apply_of_none file hfind]
    simp only [withInterface, withoutInterface, List.filter_singleton, hnone]
    refine ⟨?_, ?_⟩
    · simpa using h.report file u.jvmName _
    · simpa using (⟨hfit.sound, hfit.complete⟩ : HoldersFit
        (report file u.jvmName (.interfaceNotFound u.interfaceName) d).2 units)
  | some o =>
    obtain ⟨interface, v, ho, hjvm, hunit, hname⟩ := h.namedWith?_eq_some hfind
    have hany : units.any (isClassNamed u.interfaceName) = true :=
      List.any_eq_true.mpr ⟨_, List.mem_of_getElem? hunit, by simp [isClassNamed, hname]⟩
    obtain ⟨block, node, source, hadd, hfills, hjvmName, hshape, hfailed⟩ :=
      addHolder_withClass d file u interface
    have hjoins : Joins d block node [] (.defaultImpls u) :=
      ⟨⟨hjvmName, hshape⟩, hfills, by rw [hshape]; exact ⟨rfl, rfl⟩, by simp [namesOf, hfailed]⟩
    have hunit' : d.withUnit block node source [] (.defaultImpls u)
        = d.withClass block node source [] := by
      simp [Draft.withUnit, isFacade, isClass, isLocal, withClass]
    rw [placeHolder_apply_of_some file hfind ho hadd]
    simp only [withInterface, withoutInterface, List.filter_singleton, hany]
    refine ⟨?_, ?_⟩
    · have hholds := h.withUnit hjoins source
      rw [hunit'] at hholds
      simpa using hholds.setHolder o d.tree.classes.length
    · simpa using hfit.next h hshape ho hjvm hunit

/-- No holder is a class of a name. -/
theorem isClassNamed_defaultImpls (name : String) (holders : List DefaultImplsUnit) :
    (holders.map ResolvedUnit.defaultImpls).any (isClassNamed name) = false := by
  rw [List.any_eq_false]
  intro u hu
  obtain ⟨w, -, rfl⟩ := List.mem_map.mp hu
  simp [isClassNamed]

/-- Placing holders adds classes for those whose interfaces are there, and reports the others. -/
theorem placeHolders_holds (holders : List (String × DefaultImplsUnit))
    (h : Holds d units others) (hfit : HoldersFit d units) :
    Holds (holders.forM (fun holder => placeHolder holder.1 holder.2) d).2
        (units ++ (withInterface units (holders.map Prod.snd)).map ResolvedUnit.defaultImpls)
        (others ++ (withoutInterface units (holders.map Prod.snd)).map DefaultImplsUnit.jvmName)
      ∧ HoldersFit (holders.forM (fun holder => placeHolder holder.1 holder.2) d).2
        (units ++ (withInterface units (holders.map Prod.snd)).map ResolvedUnit.defaultImpls) := by
  induction holders generalizing d units others with
  | nil => simpa [withInterface, withoutInterface] using ⟨h, hfit⟩
  | cons first rest ih =>
    obtain ⟨file, u⟩ := first
    obtain ⟨hfirst, hfitFirst⟩ := placeHolder_next h hfit file u
    have hrest := ih hfirst hfitFirst
    have hsame (name : String) :
        (units ++ (withInterface units [u]).map ResolvedUnit.defaultImpls).any
          (isClassNamed name) = units.any (isClassNamed name) := by
      rw [List.any_append, isClassNamed_defaultImpls, Bool.or_false]
    have hwith (more : List DefaultImplsUnit) : withInterface
        (units ++ (withInterface units [u]).map ResolvedUnit.defaultImpls) more
          = withInterface units more :=
      List.filter_congr fun w _ => hsame w.interfaceName
    have hwithout (more : List DefaultImplsUnit) : withoutInterface
        (units ++ (withInterface units [u]).map ResolvedUnit.defaultImpls) more
          = withoutInterface units more :=
      List.filter_congr fun w _ => congrArg (!·) (hsame w.interfaceName)
    rw [hwith, hwithout, List.append_assoc, List.append_assoc, ← List.map_append,
      ← List.map_append] at hrest
    simpa only [withInterface, withoutInterface, ← List.filter_append, List.map_cons,
      List.singleton_append, forM_cons_apply] using hrest

end Draft

end LineAtlas
