import LineAtlas.Proofs.Tree.Holders

/-!
# Units around units

A local class names the class around it, a class is named after the class around it, and a
holder after its interface. The companion object of a class is the first class in it that has
the name the class gives.
-/

namespace LineAtlas.ResolvedUnit

variable (kept : List ResolvedUnit)

/-- The unit around another one. Of several classes with the same declared name it is the
last. -/
def Encloses (v : ResolvedUnit) : ResolvedUnit → Prop
  | .localClass u => v ∈ kept ∧ v.jvmName? = some u.origin.outerClass
  | .classUnit u => ∃ parent, u.declaredName.parent? = some parent ∧
    kept.reverse.find? (·.declaredName? == some parent) = some v
  | .defaultImpls u => v ∈ kept ∧ v.isClassNamed u.interfaceName = true
  | _ => False

/-- Whether a unit is at the top of its file. -/
def IsRoot : ResolvedUnit → Prop
  | .classUnit u => u.declaredName.parent? = none
  | .facade _ => True
  | _ => False

/-- Whether a unit is the companion object of another one. -/
def IsCompanion (v u : ResolvedUnit) : Prop :=
  Encloses kept v u ∧ ∃ w name, v = .classUnit w ∧ w.companion = some name ∧
    kept.find? (·.declaredName? == some (w.declaredName.nested name)) = some u

/-- Whether a unit is an object. -/
def isObject : ResolvedUnit → Bool
  | .classUnit u => u.isObject
  | _ => false

/-- Whether a unit is shown as an object. -/
def ShownAsObject (v : ResolvedUnit) : Prop := v.isObject = true ∨ ∃ w, IsCompanion kept w v

/-- Whether a unit is in a slot of another one that is shown as an object: objects show no
slots. -/
def IsHiddenIn (v u : ResolvedUnit) : Prop :=
  (u.isHolder = true ∨ IsCompanion kept v u) ∧ ShownAsObject kept v

/-- Whether a report comes to a unit: it is at the top, or in a unit to which the report comes
and which shows it. -/
inductive Visible : ResolvedUnit → Prop
  /-- A root is visible. -/
  | root {u : ResolvedUnit} (hroot : u.IsRoot) : Visible u
  /-- What is in a visible unit is visible, unless it is in a slot that is not shown. -/
  | inside {u v : ResolvedUnit} (hencloses : Encloses kept v u) (hvisible : Visible v)
      (hshown : ¬ IsHiddenIn kept v u) : Visible u

variable {kept}

/-- A unit is known by its name where names are different. -/
theorem eq_of_names_nodup (hnames : (kept.filterMap jvmName?).Nodup) {u v : ResolvedUnit}
    (hu : u ∈ kept) (hv : v ∈ kept) {name : String} (hnameu : u.jvmName? = some name)
    (hnamev : v.jvmName? = some name) : u = v := by
  induction kept with
  | nil => exact absurd hu List.not_mem_nil
  | cons w rest ih =>
    have hmem {x : ResolvedUnit} (hx : x ∈ rest) (hname : x.jvmName? = some name) :
        name ∈ rest.filterMap jvmName? := List.mem_filterMap.mpr ⟨x, hx, hname⟩
    cases hnamew : w.jvmName? with
    | none =>
      rw [List.filterMap_cons_none hnamew] at hnames
      have hrest {x : ResolvedUnit} (hx : x ∈ w :: rest) (hname : x.jvmName? = some name) :
          x ∈ rest := by
        rcases List.mem_cons.mp hx with heq | hx
        · rw [heq, hnamew] at hname
          simp at hname
        · exact hx
      exact ih hnames (hrest hu hnameu) (hrest hv hnamev)
    | some other =>
      rw [List.filterMap_cons_some hnamew, List.nodup_cons] at hnames
      have hfirst (h : other = name) {x : ResolvedUnit} (hx : x ∈ w :: rest)
          (hname : x.jvmName? = some name) : x = w :=
        (List.mem_cons.mp hx).resolve_right fun hx => hnames.1 (h ▸ hmem hx hname)
      by_cases hother : other = name
      · rw [hfirst hother hu hnameu, hfirst hother hv hnamev]
      · have hrest {x : ResolvedUnit} (hx : x ∈ w :: rest) (hname : x.jvmName? = some name) :
            x ∈ rest := by
          refine (List.mem_cons.mp hx).resolve_left fun heq => hother ?_
          rw [heq, hnamew] at hname
          exact Option.some.inj hname
        exact ih hnames.2 (hrest hu hnameu) (hrest hv hnamev)

/-- A class of a name goes by that name. -/
theorem isClassNamed_jvmName {u : ResolvedUnit} {name : String}
    (h : u.isClassNamed name = true) : u.jvmName? = some name := by
  obtain ⟨w, rfl, hname⟩ := isClassNamed_iff.mp h
  exact congrArg some hname

/-- What encloses a unit is one of those that were kept. -/
theorem mem_of_encloses {u v : ResolvedUnit} (h : Encloses kept v u) : v ∈ kept := by
  cases u with
  | classUnit u =>
    obtain ⟨parent, -, hfind⟩ := h
    exact List.mem_reverse.mp (List.mem_of_find?_eq_some hfind)
  | localClass u => exact h.1
  | defaultImpls u => exact h.1
  | facade u => exact h.elim
  | opaqueUnit => exact h.elim
  | foreign => exact h.elim

/-- At most one unit is around another one. -/
theorem encloses_unique (hnames : (kept.filterMap jvmName?).Nodup) {u v w : ResolvedUnit}
    (hv : Encloses kept v u) (hw : Encloses kept w u) : v = w := by
  cases u with
  | classUnit u =>
    obtain ⟨parent, hparent, hfind⟩ := hv
    obtain ⟨parent', hparent', hfind'⟩ := hw
    obtain rfl := Option.some.inj (hparent.symm.trans hparent')
    exact Option.some.inj (hfind.symm.trans hfind')
  | localClass u => exact eq_of_names_nodup hnames hv.1 hw.1 hv.2 hw.2
  | defaultImpls u =>
    exact eq_of_names_nodup hnames hv.1 hw.1 (isClassNamed_jvmName hv.2)
      (isClassNamed_jvmName hw.2)
  | facade u => exact hv.elim
  | opaqueUnit => exact hv.elim
  | foreign => exact hv.elim

/-- Nothing is around a unit at the top. -/
theorem not_encloses_of_isRoot {u v : ResolvedUnit} (hroot : u.IsRoot) :
    ¬ Encloses kept v u := by
  intro h
  cases u with
  | classUnit u =>
    obtain ⟨parent, hparent, -⟩ := h
    have hnone : u.declaredName.parent? = none := hroot
    rw [hparent] at hnone
    simp at hnone
  | localClass u => exact hroot.elim
  | defaultImpls u => exact hroot.elim
  | facade u => exact h.elim
  | opaqueUnit => exact h.elim
  | foreign => exact h.elim

end LineAtlas.ResolvedUnit
