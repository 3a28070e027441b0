import LineAtlas.Proofs.StableSort
import LineAtlas.Proofs.Tree.Companions
import LineAtlas.Proofs.Tree.Prepared

/-!
# Where classes end up

In the tree of a source file every class is in the place that its unit says, and in no other.
-/

namespace LineAtlas.Draft

open ResolvedUnit

variable {d d' : Draft} {units kept : List ResolvedUnit} {rejected : List String}

namespace Prepared

/-- Every class with a name of its own has slots. -/
theorem hasSlot_named (h : Prepared d units kept rejected) :
    ∀ o ∈ d.named, d.tree.HasSlot (.nested o) := by
  intro o ho
  rw [h.named, Lists.mem_positions] at ho
  obtain ⟨v, hv, hclass⟩ := ho
  obtain ⟨node, hnode, hstands⟩ := h.laid.exists_class hv
  obtain ⟨w, rfl⟩ := isClass_iff.mp hclass
  obtain ⟨own, hown, -⟩ := ClassShape.exists_named_of_bare hstands.2
  exact ⟨node, hnode, own, hown⟩

/-- Every local class has an enclosing class or method on record. -/
theorem exists_origin (h : Prepared d units kept rejected) :
    ∀ c ∈ d.localClasses, ∃ origin, d.originOf? c = some origin := by
  intro c hc
  rw [h.localClasses, Lists.mem_positions] at hc
  obtain ⟨v, hv, hlocal⟩ := hc
  obtain ⟨node, hnode, hstands⟩ := h.laid.exists_class hv
  have hclass : d.tree.class? c = some node := hnode
  obtain ⟨w, rfl⟩ := isLocal_iff.mp hlocal
  refine ⟨w.origin, ?_⟩
  simp only [originOf?, hclass, hstands.2]

/-- The classes that wait for their places. -/
def waiting (d : Draft) : List ClassId := d.ownerNames.flatMap d.localClassesIn ++ d.byDepth

/-- Local classes and classes with names of their own wait for places, and nothing else does. -/
theorem waiting_perm (h : Prepared d units kept rejected) :
    (waiting d).Perm (d.localClasses ++ d.named) := by
  refine List.Perm.append ?_ (List.mergeSort_perm _ _)
  refine localClasses_perm h.names_nodup ?_ h.exists_origin
  rw [h.localClasses]
  exact Lists.nodup_positions _ _

/-- No class waits twice. -/
theorem waiting_nodup (h : Prepared d units kept rejected) : (waiting d).Nodup := by
  rw [h.waiting_perm.nodup_iff, h.localClasses, h.named]
  refine List.nodup_append.mpr ⟨Lists.nodup_positions _ _, Lists.nodup_positions _ _, ?_⟩
  rintro c hc _ hc' rfl
  obtain ⟨u, hu, hlocal⟩ := Lists.mem_positions.mp hc
  obtain ⟨v, hv, hclass⟩ := Lists.mem_positions.mp hc'
  obtain rfl := Option.some.inj (hu.symm.trans hv)
  cases u <;> simp [isLocal, isClass] at hlocal hclass

/-- Local and nested classes are put into their homes. -/
theorem settles (h : Prepared d units kept rejected) :
    Settles d.home? d.blame? d (placeNestedClasses (placeLocalClasses d).2).2 (waiting d) := by
  have hlocal := placeLocalClasses_settles (SourceTree.placesFunctions_of_laid h.laid) h.names_nodup
  exact hlocal.trans (placeNestedClasses_settles hlocal.keeps h.hasSlot_named)

/-- Before, all places are empty. -/
theorem slot_eq_nil (h : Prepared d units kept rejected) (s : Slot) : d.tree.slot s = [] := by
  obtain ⟨others, hholds, -⟩ := h.holds
  exact hholds.slot_eq_nil s

/-- Before companions are moved there is none in a slot. -/
theorem companionOf_eq_nil (h : Prepared d units kept rejected) (o : ClassId) :
    d.tree.companionOf o = [] := by
  obtain ⟨others, hholds, -⟩ := h.holds
  exact hholds.companionOf_eq_nil o

/-- Afterwards every place has the classes whose home it is. -/
theorem slot_settled (h : Prepared d units kept rejected)
    (hsettles : Settles d.home? d.blame? d d' (waiting d)) (s : Slot) :
    d'.tree.slot s = (waiting d).filter (d.home? · == some s) := by
  rw [hsettles.slots, h.slot_eq_nil, List.nil_append]

/-- What waits for a place is a local class or a class with a name of its own. -/
theorem mem_waiting (h : Prepared d units kept rejected) {c : ClassId} :
    c ∈ waiting d ↔ ∃ u, units[c]? = some u ∧ (u.isLocal = true ∨ u.isClass = true) := by
  rw [h.waiting_perm.mem_iff, List.mem_append, h.localClasses, h.named, Lists.mem_positions,
    Lists.mem_positions]
  constructor
  · rintro (⟨u, hu, hlocal⟩ | ⟨u, hu, hclass⟩)
    · exact ⟨u, hu, Or.inl hlocal⟩
    · exact ⟨u, hu, Or.inr hclass⟩
  · rintro ⟨u, hu, hlocal | hclass⟩
    · exact Or.inl ⟨u, hu, hlocal⟩
    · exact Or.inr ⟨u, hu, hclass⟩

/-- A class is in the place that is its home. -/
theorem mem_slot (h : Prepared d units kept rejected)
    (hsettles : Settles d.home? d.blame? d d' (waiting d)) {c : ClassId} {s : Slot} :
    c ∈ d'.tree.slot s ↔ d.home? c = some s := by
  rw [h.slot_settled hsettles, List.mem_filter, beq_iff_eq]
  exact ⟨fun hc => hc.2, fun hc => ⟨h.mem_waiting.mpr (h.exists_unit_of_home? hc), hc⟩⟩

/-- A class goes into the slot of the one that encloses it. -/
theorem mem_slot_nested (h : Prepared d units kept rejected) {c o : ClassId} :
    d.home? c = some (.nested o) ↔ ∃ u v, units[c]? = some (.classUnit u) ∧ units[o]? = some v ∧
      Encloses kept v (.classUnit u) := by
  constructor
  · intro hhome
    obtain ⟨u, hu, hkind⟩ := h.exists_unit_of_home? hhome
    rcases hkind with hlocal | hclass
    · obtain ⟨w, rfl⟩ := isLocal_iff.mp hlocal
      rw [h.home?_localClass hu] at hhome
      obtain ⟨owner, -, hbody⟩ := Option.bind_eq_some_iff.mp hhome
      obtain ⟨f, -, hslot⟩ := Option.map_eq_some_iff.mp hbody
      simp at hslot
    · obtain ⟨w, rfl⟩ := isClass_iff.mp hclass
      rw [h.home?_classUnit hu] at hhome
      split at hhome
      · simp at hhome
      · next parent hparent =>
        obtain ⟨i, hi, hslot⟩ := Option.map_eq_some_iff.mp hhome
        obtain rfl := Slot.nested.inj hslot
        obtain ⟨v, hv, hfind⟩ := h.withDeclaredName?_eq_some.mp hi
        exact ⟨w, v, hu, hv, parent, hparent, hfind⟩
  · rintro ⟨u, v, hu, hv, parent, hparent, hfind⟩
    rw [h.home?_classUnit hu, hparent]
    dsimp only
    rw [h.withDeclaredName?_eq_some.mpr ⟨v, hv, hfind⟩]
    rfl

/-- Classes of the same declared name have the same home. -/
theorem home?_congr (h : Prepared d units kept rejected) {c c' : ClassId} {name : ClassName}
    (hc : d.declaredName? c = some name) (hc' : d.declaredName? c' = some name) :
    d.home? c = d.home? c' := by
  have hunit {i : ClassId} (hi : d.declaredName? i = some name) :
      ∃ u, units[i]? = some (.classUnit u) ∧ u.declaredName = name := by
    rw [h.declaredName?_eq] at hi
    obtain ⟨u, hu, hdeclared⟩ := Option.bind_eq_some_iff.mp hi
    obtain ⟨w, rfl, hname⟩ := declaredName?_eq_some_iff.mp hdeclared
    exact ⟨w, hu, hname⟩
  obtain ⟨u, hu, rfl⟩ := hunit hc
  obtain ⟨u', hu', hname⟩ := hunit hc'
  rw [h.home?_classUnit hu, h.home?_classUnit hu', hname]

/-- Classes of the same declared name keep their order. -/
theorem filter_byDepth (d : Draft) (name : ClassName) :
    d.byDepth.filter (d.declaredName? · == some name)
      = d.named.filter (d.declaredName? · == some name) := by
  have hdepth (l : List ClassId) : l.filter (d.declaredName? · == some name)
      = (l.filter fun id => ((d.declaredName? id).map ClassName.depth).getD 0 == name.depth).filter
        (d.declaredName? · == some name) := by
    rw [List.filter_filter]
    refine List.filter_congr fun id _ => ?_
    by_cases hname : d.declaredName? id = some name
    · simp [hname]
    · simp [hname]
  rw [hdepth, byDepth, StableSort.filter_mergeSort, ← hdepth]

/-- What is nested in a class, in order. -/
theorem nestedOf_settled (h : Prepared d units kept rejected)
    (hsettles : Settles d.home? d.blame? d d' (waiting d)) (o : ClassId) :
    d'.tree.nestedOf o = d.byDepth.filter (d.home? · == some (.nested o)) := by
  have hslot := h.slot_settled hsettles (.nested o)
  rw [waiting, List.filter_append] at hslot
  have hnone : (d.ownerNames.flatMap d.localClassesIn).filter (d.home? · == some (.nested o))
      = [] := by
    rw [List.filter_eq_nil_iff]
    intro c hc hhome
    obtain ⟨u, v, hu, -⟩ := h.mem_slot_nested.mp (by simpa using hhome)
    have hperm := localClasses_perm h.names_nodup
      (h.localClasses ▸ Lists.nodup_positions _ _) h.exists_origin
    rw [hperm.mem_iff, h.localClasses, Lists.mem_positions] at hc
    obtain ⟨w, hw, hlocal⟩ := hc
    obtain rfl := Option.some.inj (hu.symm.trans hw)
    simp [isLocal] at hlocal
  rw [hnone, List.nil_append] at hslot
  exact hslot

/-- The companion object of a class is the first class of its name, if that is nested in the
class. -/
theorem chosen?_eq (h : Prepared d units kept rejected)
    (hsettles : Settles d.home? d.blame? d d' (waiting d)) {o : ClassId} {w : ClassUnit}
    (ho : units[o]? = some (.classUnit w)) :
    d'.chosen? o = w.companion.bind fun name =>
      (d.named.find? (d.declaredName? · == some (w.declaredName.nested name))).filter
        (d.home? · == some (.nested o)) := by
  obtain ⟨node, hnode, hstands⟩ := h.laid.exists_class ho
  obtain ⟨new, hnew, hbare⟩ := hsettles.keeps.exists_class hnode
  obtain ⟨own, hown, hdeclared, -, hcompanion⟩ :=
    ClassShape.exists_named_of_bare (hstands.of_bare hbare).2
  have hnested : own.nested = d.byDepth.filter (d.home? · == some (.nested o)) := by
    rw [← h.nestedOf_settled hsettles o]
    simp [SourceTree.nestedOf, hnew, hown, ClassShape.nested]
  have hname : d'.declaredName? = d.declaredName? := funext hsettles.keeps.declaredName?
  rw [chosen?, hnew, Option.map_some, hown, hname]
  dsimp only
  rw [hcompanion, hdeclared, hnested]
  refine congrArg (Option.bind w.companion) (funext fun name => ?_)
  change (d.byDepth.filter _).find? (d.declaredName? · == some (w.declaredName.nested name)) = _
  rw [← List.head?_filter, ← List.head?_filter, List.filter_comm, filter_byDepth]
  refine Lists.head?_filter_of_alike fun a ha b hb => ?_
  rw [h.home?_congr (by simpa using List.of_mem_filter ha) (by simpa using List.of_mem_filter hb)]

/-- The class that is chosen as companion is the companion. -/
theorem chosen?_eq_some (h : Prepared d units kept rejected)
    (hsettles : Settles d.home? d.blame? d d' (waiting d)) {o c : ClassId} {v : ResolvedUnit}
    (ho : units[o]? = some v) : d'.chosen? o = some c ↔
      ∃ u, units[c]? = some u ∧ IsCompanion kept v u := by
  have hclass (w : ClassUnit) (hw : v = .classUnit w) : d'.chosen? o = some c ↔
      ∃ name, w.companion = some name ∧
        d.named.find? (d.declaredName? · == some (w.declaredName.nested name)) = some c ∧
        d.home? c = some (.nested o) := by
    rw [h.chosen?_eq hsettles (hw ▸ ho), Option.bind_eq_some_iff]
    simp [Option.filter_eq_some_iff]
  constructor
  · intro hchosen
    obtain ⟨w, rfl⟩ : ∃ w, v = .classUnit w := by
      obtain ⟨node, hnode, hstands⟩ := h.laid.exists_class ho
      obtain ⟨new, hnew, hbare⟩ := hsettles.keeps.exists_class hnode
      refine (hstands.of_bare hbare).exists_classUnit ?_
      rw [chosen?, hnew, Option.map_some] at hchosen
      cases hshape : new.shape with
      | named shape => exact ⟨shape, rfl⟩
      | localClass kind origin => simp [hshape] at hchosen
      | facade init => simp [hshape] at hchosen
      | defaultImpls => simp [hshape] at hchosen
    obtain ⟨name, hname, hfind, hhome⟩ := (hclass w rfl).mp hchosen
    obtain ⟨u, v, hu, hv, hencloses⟩ := h.mem_slot_nested.mp hhome
    obtain rfl := Option.some.inj (hv.symm.trans ho)
    have hkept := h.find?_declaredName (w.declaredName.nested name)
    rw [hfind, Option.bind_some, hu] at hkept
    exact ⟨.classUnit u, hu, hencloses, w, name, rfl, hname, hkept.symm⟩
  · rintro ⟨u, hu, hencloses, w, name, rfl, hname, hfind⟩
    refine (hclass w rfl).mpr ⟨name, hname, ?_, ?_⟩
    · have hkept := h.find?_declaredName (w.declaredName.nested name)
      rw [hfind] at hkept
      obtain ⟨i, hi, hiu⟩ := Option.bind_eq_some_iff.mp hkept
      rw [hi, h.eq_of_unit hiu hu]
    · have hdeclared := List.find?_some hfind
      obtain ⟨x, rfl, -⟩ := declaredName?_eq_some_iff.mp (by simpa using hdeclared)
      exact h.mem_slot_nested.mpr ⟨x, _, hu, ho, hencloses⟩

end Prepared

end LineAtlas.Draft
