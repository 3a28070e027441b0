import LineAtlas.Proofs.Text.Split
import LineAtlas.Proofs.Tree.Enclosing
import Mathlib.Data.Fintype.Card
import Mathlib.Data.Set.Finite.List
import Mathlib.Logic.Relation

/-!
# Ways out of units

From a unit the way out goes to the unit around it, and so on. A report comes to a unit exactly
when the way ends at the top of the file, without running in a circle and without passing a slot
that is not shown. Only local classes can be on a circle.
-/

namespace LineAtlas

/-- The name of the class around another one is shorter. -/
theorem ClassName.length_lt_of_parent? {name parent : ClassName} (h : name.parent? = some parent) :
    parent.relative.toList.length < name.relative.toList.length := by
  obtain ⟨⟨outer, last⟩, hcut, rfl⟩ := Option.map_eq_some_iff.mp h
  exact Text.length_lt_of_cutLast? hcut

namespace ResolvedUnit

open Relation (ReflTransGen TransGen)

variable (kept : List ResolvedUnit)

/-- Whether the way out of a unit comes to a circle. -/
def RunsInCircle (u : ResolvedUnit) : Prop :=
  ∃ w, ReflTransGen (Encloses kept) w u ∧ TransGen (Encloses kept) w w

/-- Whether the way out of a unit passes a slot that is not shown. -/
def PassesHidden (u : ResolvedUnit) : Prop :=
  ∃ w v, ReflTransGen (Encloses kept) w u ∧ Encloses kept v w ∧ IsHiddenIn kept v w

/-- Whether a unit is a local class of another one. -/
def IsLocalIn (v u : ResolvedUnit) : Prop := u.isLocal = true ∧ Encloses kept v u

variable {kept}

section

variable {u v w : ResolvedUnit}

/-- The way out of a unit is that of the one around it. -/
theorem reflTransGen_of_encloses (hnames : (kept.filterMap jvmName?).Nodup)
    (hencloses : Encloses kept v u) :
    ReflTransGen (Encloses kept) w u ↔ w = u ∨ ReflTransGen (Encloses kept) w v := by
  constructor
  · intro hw
    rcases hw.cases_tail with rfl | ⟨x, hx, hlast⟩
    · exact Or.inl rfl
    · exact Or.inr (encloses_unique hnames hlast hencloses ▸ hx)
  · rintro (rfl | hw)
    · exact .refl
    · exact hw.tail hencloses

/-- Nothing is around a root. -/
theorem eq_of_isRoot (hroot : u.IsRoot) (hw : ReflTransGen (Encloses kept) w u) : w = u := by
  rcases hw.cases_tail with heq | ⟨x, -, hlast⟩
  · exact heq.symm
  · exact absurd hlast (not_encloses_of_isRoot hroot)

/-- The way out of what is visible does not run in a circle. -/
theorem Visible.not_runsInCircle (hnames : (kept.filterMap jvmName?).Nodup)
    (hvisible : Visible kept u) : ¬ RunsInCircle kept u := by
  induction hvisible with
  | @root u hroot =>
    rintro ⟨w, hw, hcircle⟩
    obtain rfl := eq_of_isRoot hroot hw
    obtain ⟨x, -, hlast⟩ := TransGen.tail'_iff.mp hcircle
    exact not_encloses_of_isRoot hroot hlast
  | @inside u v hencloses hvisible hshown ih =>
    rintro ⟨w, hw, hcircle⟩
    refine ih ?_
    rcases (reflTransGen_of_encloses hnames hencloses).mp hw with rfl | hw
    · -- A circle through a unit also goes through the one around it.
      obtain ⟨x, hx, hlast⟩ := TransGen.tail'_iff.mp hcircle
      obtain rfl := encloses_unique hnames hlast hencloses
      exact ⟨x, .refl, TransGen.head' hlast hx⟩
    · exact ⟨w, hw, hcircle⟩

/-- The way out of what is visible passes no hidden slot. -/
theorem Visible.not_passesHidden (hnames : (kept.filterMap jvmName?).Nodup)
    (hvisible : Visible kept u) : ¬ PassesHidden kept u := by
  induction hvisible with
  | @root u hroot =>
    rintro ⟨w, x, hw, hencloses, -⟩
    obtain rfl := eq_of_isRoot hroot hw
    exact not_encloses_of_isRoot hroot hencloses
  | @inside u v hencloses hvisible hshown ih =>
    rintro ⟨w, x, hw, hx, hhidden⟩
    rcases (reflTransGen_of_encloses hnames hencloses).mp hw with rfl | hw
    · exact hshown (encloses_unique hnames hx hencloses ▸ hhidden)
    · exact ih ⟨w, x, hw, hx, hhidden⟩

/-- The way out of a unit goes through finitely many units. -/
theorem finite_chain (kept : List ResolvedUnit) (u : ResolvedUnit) :
    Finite {w // ReflTransGen (Encloses kept) w u} := by
  refine Set.Finite.to_subtype ((u :: kept).finite_toSet.subset fun w hw => ?_)
  rcases ReflTransGen.cases_head hw with heq | ⟨x, hx, -⟩
  · exact heq ▸ List.mem_cons_self
  · exact List.mem_cons_of_mem u (mem_of_encloses hx)

/-- A way out that ends nowhere but at the top, and is in the open, makes a unit visible. -/
theorem visible_of_chain
    (hends : ∀ w, ReflTransGen (Encloses kept) w u → w.IsRoot ∨ ∃ v, Encloses kept v w)
    (hcircle : ¬ RunsInCircle kept u) (hhidden : ¬ PassesHidden kept u) : Visible kept u := by
  have hfinite := finite_chain kept u
  let further (a b : {w // ReflTransGen (Encloses kept) w u}) : Prop :=
    TransGen (Encloses kept) a.1 b.1
  have htrans : IsTrans _ further := ⟨fun _ _ _ hab hbc => TransGen.trans hab hbc⟩
  have hirrefl : Std.Irrefl further := ⟨fun a ha => hcircle ⟨a.1, a.2, ha⟩⟩
  have hwf : WellFounded further := Finite.wellFounded_of_trans_of_irrefl further
  suffices hall : ∀ a : {w // ReflTransGen (Encloses kept) w u}, Visible kept a.1 from
    hall ⟨u, .refl⟩
  intro a
  induction a using hwf.induction with
  | _ a ih =>
    obtain ⟨w, hw⟩ := a
    rcases hends w hw with hroot | ⟨v, hv⟩
    · exact .root hroot
    · exact .inside hv (ih ⟨v, hw.head hv⟩ (.single hv)) fun hslot => hhidden ⟨w, v, hw, hv, hslot⟩

/-- Where every unit has another one around it or is at the top, exactly the circles and the
hidden slots keep a report from units. -/
theorem visible_iff (hnames : (kept.filterMap jvmName?).Nodup)
    (hends : ∀ w, ReflTransGen (Encloses kept) w u → w.IsRoot ∨ ∃ v, Encloses kept v w) :
    Visible kept u ↔ ¬ (RunsInCircle kept u ∨ PassesHidden kept u) := by
  rw [not_or]
  exact ⟨fun h => ⟨h.not_runsInCircle hnames, h.not_passesHidden hnames⟩,
    fun h => visible_of_chain hends h.1 h.2⟩

/-- Around a class there is a class with a shorter name. -/
theorem exists_shorter_of_encloses {x : ClassUnit} (h : Encloses kept v (.classUnit x)) :
    ∃ y, v = .classUnit y ∧
      y.declaredName.relative.toList.length < x.declaredName.relative.toList.length := by
  obtain ⟨parent, hparent, hfind⟩ := h
  have hdeclared := List.find?_some hfind
  obtain ⟨y, rfl, hname⟩ := declaredName?_eq_some_iff.mp (by simpa using hdeclared)
  exact ⟨y, rfl, hname ▸ ClassName.length_lt_of_parent? hparent⟩

/-- Around a class are only classes with shorter names, so that no circle has classes alone. -/
theorem exists_shorter {x : ClassUnit} (h : TransGen (Encloses kept) v u)
    (hu : u = .classUnit x) : ∃ y, v = .classUnit y ∧
      y.declaredName.relative.toList.length < x.declaredName.relative.toList.length := by
  induction h generalizing x with
  | single hlast => exact exists_shorter_of_encloses (hu ▸ hlast)
  | tail _ hlast ih =>
    obtain ⟨y, rfl, hlt⟩ := exists_shorter_of_encloses (hu ▸ hlast)
    obtain ⟨z, hz, hlt'⟩ := ih rfl
    exact ⟨z, hz, Nat.lt_trans hlt' hlt⟩

/-- What is in a local class is local. -/
theorem isLocal_of_encloses (hv : v.isLocal = true) (h : Encloses kept v u) :
    u.isLocal = true := by
  obtain ⟨x, rfl⟩ := isLocal_iff.mp hv
  cases u with
  | localClass u => rfl
  | classUnit u =>
    obtain ⟨y, hy, -⟩ := exists_shorter_of_encloses h
    simp at hy
  | defaultImpls u => simp [Encloses, isClassNamed] at h
  | facade u | opaqueUnit | foreign => exact h.elim

/-- Circles go through local classes only. -/
theorem isLocalIn_of_circle (h : TransGen (Encloses kept) u u) :
    TransGen (IsLocalIn kept) u u := by
  have hlocal : u.isLocal = true := by
    obtain ⟨v, hv, hlast⟩ := TransGen.tail'_iff.mp h
    cases u with
    | localClass x => rfl
    | classUnit x =>
      obtain ⟨y, hy, hlt⟩ := exists_shorter h rfl
      obtain rfl := ResolvedUnit.classUnit.inj hy
      exact absurd hlt (Nat.lt_irrefl _)
    | defaultImpls x =>
      obtain ⟨y, rfl, -⟩ := isClassNamed_iff.mp hlast.2
      rcases Relation.reflTransGen_iff_eq_or_transGen.mp hv with heq | hv
      · simp at heq
      · obtain ⟨z, hz, -⟩ := exists_shorter hv rfl
        simp at hz
    | facade x | opaqueUnit | foreign => exact hlast.elim
  have hinner {w : ResolvedUnit} (hw : TransGen (Encloses kept) u w) :
      TransGen (IsLocalIn kept) u w ∧ w.isLocal = true := by
    induction hw with
    | single hfirst =>
      have hnext := isLocal_of_encloses hlocal hfirst
      exact ⟨.single ⟨hnext, hfirst⟩, hnext⟩
    | tail _ hlast ih =>
      have hnext := isLocal_of_encloses ih.2 hlast
      exact ⟨ih.1.tail ⟨hnext, hlast⟩, hnext⟩
  exact (hinner h).1

/-- Without local classes there is no circle. -/
theorem not_circle_of_not_local (hlocal : ∀ u ∈ kept, u.isLocal = false) (u : ResolvedUnit) :
    ¬ TransGen (IsLocalIn kept) u u := by
  intro hcircle
  obtain ⟨v, -, hlast⟩ := TransGen.tail'_iff.mp hcircle
  obtain ⟨w, hfirst, -⟩ := TransGen.head'_iff.mp hcircle
  have hnot := hlocal u (mem_of_encloses hfirst.2)
  rw [hlast.1] at hnot
  simp at hnot

end

end ResolvedUnit

end LineAtlas
