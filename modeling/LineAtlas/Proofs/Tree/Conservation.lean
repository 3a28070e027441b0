import LineAtlas.Proofs.Tree.Shows

/-!
# Methods that are conserved

A report has the methods of all units of its file, each as often as units carry it, but for those
that failures are about. Hence it has their lines.
-/

namespace LineAtlas

open Draft Report ResolvedUnit
open Relation (ReflTransGen TransGen)

variable {units : List ResolvedUnit}

namespace ResolvedUnit

/-- The units with names. -/
def withNames (units : List ResolvedUnit) : List ResolvedUnit := units.filter (·.jvmName?.isSome)

/-- Looking for a class by its declared name finds only units with names. -/
theorem find?_withNames (units : List ResolvedUnit) (name : ClassName) :
    (withNames units).find? (·.declaredName? == some name)
      = units.find? (·.declaredName? == some name) := by
  rw [withNames, List.find?_filter]
  refine congrArg (List.find? · units) (funext fun u => ?_)
  rw [Bool.eq_iff_iff]
  cases u <;> simp [jvmName?, declaredName?]

/-- Units without names have nothing in them. -/
theorem encloses_withNames (units : List ResolvedUnit) :
    Encloses (withNames units) = Encloses units := by
  have hmem (v : ResolvedUnit) {name : String} (hname : v.jvmName? = some name) :
      v ∈ withNames units ↔ v ∈ units := by
    rw [withNames, List.mem_filter, hname]
    simp
  funext v u
  cases u with
  | classUnit u =>
    have hreverse : (withNames units).reverse = withNames units.reverse :=
      List.filter_reverse.symm
    simp only [Encloses, hreverse, find?_withNames]
  | localClass u => exact propext (and_congr_left fun hname => hmem v hname)
  | defaultImpls u => exact propext (and_congr_left fun hname =>
      hmem v (isClassNamed_jvmName hname))
  | facade u | opaqueUnit | foreign => rfl

/-- Where a local class is declared depends only on units with names. -/
theorem isLocalIn_withNames (units : List ResolvedUnit) :
    IsLocalIn (withNames units) = IsLocalIn units := by
  funext v u
  rw [IsLocalIn, encloses_withNames, IsLocalIn]

/-- Whether a unit is hidden depends only on units with names. -/
theorem isHiddenIn_withNames (units : List ResolvedUnit) :
    IsHiddenIn (withNames units) = IsHiddenIn units := by
  have hcompanion : IsCompanion (withNames units) = IsCompanion units := by
    funext v u
    simp only [IsCompanion, encloses_withNames, find?_withNames]
  funext v u
  simp only [IsHiddenIn, ShownAsObject, hcompanion]

open Classical in
/-- The units that no name is about: neither theirs nor that of a unit around them. -/
noncomputable def unblamed (units : List ResolvedUnit) (names : List String) :
    List ResolvedUnit :=
  units.filter fun u => ¬ IsBlamed units names u

/-- Only units with names carry methods. -/
theorem bodies_unblamed_withNames (units : List ResolvedUnit) (names : List String) :
    (unblamed (withNames units) names).flatMap ResolvedUnit.bodies
      = (unblamed units names).flatMap ResolvedUnit.bodies := by
  classical
  have hblamed : IsBlamed (withNames units) names = IsBlamed units names := by
    funext u
    rw [IsBlamed, encloses_withNames, IsBlamed]
  rw [unblamed, unblamed, hblamed, withNames, List.filter_comm]
  induction units.filter fun u => ¬ IsBlamed units names u with
  | nil => rfl
  | cons u rest ih =>
    cases u with
    | opaqueUnit | foreign => simpa [jvmName?, ResolvedUnit.bodies] using ih
    | classUnit w | localClass w | facade w | defaultImpls w => simpa [jvmName?] using ih

/-- Units with different names are different. -/
theorem nodup_of_names (hnamed : ∀ u ∈ units, ∃ name, u.jvmName? = some name)
    (hnames : (units.filterMap jvmName?).Nodup) : units.Nodup := by
  have hmap : units.map jvmName? = (units.filterMap jvmName?).map some := by
    clear hnames
    induction units with
    | nil => rfl
    | cons u rest ih =>
      obtain ⟨name, hname⟩ := hnamed u List.mem_cons_self
      rw [List.map_cons, List.filterMap_cons_some hname, List.map_cons, hname,
        ih fun v hv => hnamed v (List.mem_cons_of_mem u hv)]
  have hnodup : (units.map jvmName?).Nodup := hmap ▸ hnames.map (Option.some_injective String)
  exact hnodup.of_map _

end ResolvedUnit

/-- Where no way out runs in a circle or passes a hidden slot, the units whose classes are shown
are those that no failure is about. -/
theorem Composition.Reflects.shown_perm {c : Composition} {kept : List ResolvedUnit}
    (h : c.Reflects units kept []) (hfits : ∀ u ∈ kept, u.FitsKind)
    (hcircle : ∀ u, ¬ TransGen (IsLocalIn kept) u u)
    (hslots : ∀ v, ∀ u ∈ kept, Encloses kept v u → ¬ IsHiddenIn kept v u) :
    (c.tree.shown.filterMap (units[·]?)).Perm (unblamed kept (namesOf c.failures)) := by
  classical
  have hsound := h.sound hfits
  have hleft : (c.tree.shown.filterMap (units[·]?)).Nodup :=
    hsound.shown_nodup.filterMap fun i j u hi hj => h.arranged.eq_of_unit hi hj
  have hright : (unblamed kept (namesOf c.failures)).Nodup :=
    (nodup_of_names h.named h.arranged.names).filter _
  refine (List.perm_ext_iff_of_nodup hleft hright).mpr fun u => ?_
  simp only [List.mem_filterMap, unblamed, List.mem_filter, decide_eq_true_eq]
  constructor
  · rintro ⟨i, hi, hu⟩
    obtain ⟨v, hv, -, hchain⟩ := h.arranged.visible_of_isShown (hsound.mem_shown_iff.mp hi)
    obtain rfl := Option.some.inj (hu.symm.trans hv)
    have hkept := h.arranged.subset (List.mem_of_getElem? hu)
    exact ⟨hkept, h.not_isBlamed hchain hkept⟩
  · rintro ⟨hkept, hblamed⟩
    have hvisible : Visible kept u := by
      rw [h.visible_iff hkept hblamed]
      rintro (⟨w, -, hloop⟩ | ⟨w, v, hw, hencloses, hhidden⟩)
      · exact hcircle w (isLocalIn_of_circle hloop)
      · exact hslots v w (mem_kept_of_chain hkept hw) hencloses hhidden
    obtain ⟨i, hi, hshown⟩ := h.arranged.isShown_of_visible (h.interfaces_nodup hfits) hvisible
      (h.hasLive hkept hblamed)
    exact ⟨i, hsound.mem_shown_iff.mpr hshown, hi⟩

namespace SourceTree

/-- Where no local classes run in a circle and objects have nothing in their slots, a report has
exactly the methods of the units that no failure is about, and all their lines. -/
theorem compose_methods_perm (path : String) (policy : AccountingPolicy)
    {added : List (String × ResolvedUnit)} (hresolved : ∀ u ∈ added.map Prod.snd, u.IsResolved)
    (hnames : ((added.map Prod.snd).filterMap jvmName?).Nodup)
    (hcircle : ∀ u, ¬ TransGen (IsLocalIn (added.map Prod.snd)) u u)
    (hslots : ∀ v, ∀ u ∈ added.map Prod.snd, Encloses (added.map Prod.snd) v u →
      ¬ IsHiddenIn (added.map Prod.snd) v u) :
    let c := compose path policy added
    let bodies := (unblamed (added.map Prod.snd) (namesOf c.failures)).flatMap ResolvedUnit.bodies
    c.tree.fileEntry.methods.Perm (bodies.map Body.slot) ∧
      c.tree.fileEntry.lineCount = (bodies.map fun b => b.lines.size).sum := by
  intro c bodies
  obtain ⟨units, h⟩ := compose_reflects path policy added
  obtain ⟨haccepted, hrejected⟩ := accepted_eq_of_nodup hnames
  have hkept : accepted added = withNames (added.map Prod.snd) := haccepted
  rw [hkept, hrejected] at h
  have hfits : ∀ u ∈ withNames (added.map Prod.snd), u.FitsKind := fun u hu =>
    (hresolved u (List.mem_of_mem_filter hu)).fitsKind
  have hshown := h.shown_perm hfits
    (fun u hloop => hcircle u (isLocalIn_withNames _ ▸ hloop))
    (fun v u hu hencloses => by
      rw [encloses_withNames] at hencloses
      rw [isHiddenIn_withNames]
      exact hslots v u (List.mem_of_mem_filter hu) hencloses)
  have hmethods : c.tree.fileEntry.methods.Perm (bodies.map Body.slot) := by
    refine (h.arranged.methods_perm fun u hu => hfits u (h.arranged.subset hu)).trans ?_
    refine (hshown.flatMap_right _).trans (List.Perm.of_eq ?_)
    rw [← List.map_flatMap, bodies_unblamed_withNames]
  refine ⟨hmethods, ?_⟩
  rw [lineCount_eq_methods, (hmethods.map _).sum_nat, List.map_map]
  refine congrArg List.sum (List.map_congr_left fun b _ => ?_)
  simp [Body.slot, LineSet.slots, NumberMap.size, LineSet.size]

/-- The metadata of a class that has nothing but, perhaps, a companion object. -/
def classFile (jvmName name : String) (companion : Option String) (methods : List Method) :
    ClassFile :=
  let message := "\x00\x00\x08\x06\x18\x00" ++ if companion.isSome then "\x20\x01" else ""
  { name := jvmName, superName := some "java/lang/Object", interfaces := [], access := 0x21
    sourceFile := none, enclosing := none, fields := [], methods
    annotations := [⟨"Lkotlin/Metadata;", [("k", .int 1), ("mv", .array [.int 1, .int 9]),
      ("d1", .array [.string message]),
      ("d2", .array ((name :: companion.toList).map .string))]⟩] }

/-- What such a class file contributes. -/
def classOf (jvmName name : String) (companion : Option String) (methods : List Method) :
    ResolvedUnit :=
  .classUnit ⟨jvmName, ⟨"", name⟩, false, false, false, companion,
    { constructors := methods.map fun m => Binding.implicitFunction m.body }⟩

/-- A class with a companion object. -/
def outerWithCompanion : List (String × ResolvedUnit) :=
  [("A.class", classOf "A" "A" (some "B") []),
    ("A$B.class", classOf "A$B" "A.B" none [lineConstructor])]

/-- The units of `outerWithCompanion` are what some class files contribute. -/
theorem outerWithCompanion_isResolved :
    ∀ u ∈ outerWithCompanion.map Prod.snd, u.IsResolved := by
  have houter : (classOf "A" "A" (some "B") []).IsResolved :=
    (classFile "A" "A" (some "B") []).isResolved .strict (by decide +kernel)
  have hinner : (classOf "A$B" "A.B" none [lineConstructor]).IsResolved :=
    (classFile "A$B" "A.B" none [lineConstructor]).isResolved .strict (by decide +kernel)
  simpa [outerWithCompanion] using ⟨houter, hinner⟩

/-- The report of `outerWithCompanion` has the methods of its units. -/
theorem compose_methods_perm_outerWithCompanion :
    let added := outerWithCompanion
    let c := compose "A.kt" .strict added
    let bodies := (unblamed (added.map Prod.snd) (namesOf c.failures)).flatMap ResolvedUnit.bodies
    (∀ u ∈ added.map Prod.snd, u.IsResolved) ∧
      ((added.map Prod.snd).filterMap jvmName?).Nodup ∧
      (∀ u, ¬ TransGen (IsLocalIn (added.map Prod.snd)) u u) ∧
      (∀ v, ∀ u ∈ added.map Prod.snd, Encloses (added.map Prod.snd) v u →
        ¬ IsHiddenIn (added.map Prod.snd) v u) ∧
      c.tree.fileEntry.methods.Perm (bodies.map Body.slot) ∧
      c.tree.fileEntry.lineCount = (bodies.map fun b => b.lines.size).sum := by
  intro added c bodies
  have hnames : ((added.map Prod.snd).filterMap jvmName?).Nodup := by decide
  have hcircle : ∀ u, ¬ TransGen (IsLocalIn (added.map Prod.snd)) u u :=
    not_circle_of_not_local (by decide)
  have hslots : ∀ v, ∀ u ∈ added.map Prod.snd, Encloses (added.map Prod.snd) v u →
      ¬ IsHiddenIn (added.map Prod.snd) v u := by
    have houter (v : ResolvedUnit) :
        ¬ Encloses (added.map Prod.snd) v (classOf "A" "A" (some "B") []) :=
      not_encloses_of_isRoot (show (ClassName.mk "" "A").parent? = none by decide)
    have hinner (v : ResolvedUnit)
        (h : Encloses (added.map Prod.snd) v (classOf "A$B" "A.B" none [lineConstructor])) :
        v = classOf "A" "A" (some "B") [] := by
      obtain ⟨parent, hparent, hfind⟩ := h
      have hname : (ClassName.mk "" "A.B").parent? = some ⟨"", "A"⟩ := by decide
      obtain rfl := Option.some.inj (hname.symm.trans hparent)
      exact Option.some.inj (hfind.symm.trans (by decide))
    rintro v u hu hencloses ⟨-, hobject⟩
    obtain rfl : v = classOf "A" "A" (some "B") [] := by
      simp only [added, outerWithCompanion, List.map_cons, List.map_nil, List.mem_cons,
        List.not_mem_nil, or_false] at hu
      rcases hu with rfl | rfl
      · exact absurd hencloses (houter v)
      · exact hinner v hencloses
    rcases hobject with hobject | ⟨w, hcompanion⟩
    · exact absurd hobject (by decide)
    · exact houter w hcompanion.1
  exact ⟨outerWithCompanion_isResolved, hnames, hcircle, hslots,
    compose_methods_perm "A.kt" .strict outerWithCompanion_isResolved hnames hcircle hslots⟩

/-- A class with a companion object that has one itself, without being an object. -/
def companionOfCompanion : List (String × ResolvedUnit) :=
  [("A.class", classOf "A" "A" (some "B") []), ("A$B.class", classOf "A$B" "A.B" (some "C") []),
    ("A$B$C.class", classOf "A$B$C" "A.B.C" none [lineConstructor])]

/-- Though no object has anything in its slots, a method is missing: whatever is in the slot of a
companion object is shown as an object. -/
theorem compose_loses_companionOfCompanion :
    let added := companionOfCompanion
    let c := compose "A.kt" .strict added
    let bodies := (unblamed (added.map Prod.snd) (namesOf c.failures)).flatMap ResolvedUnit.bodies
    (∀ u ∈ added.map Prod.snd, u.IsResolved) ∧
      ((added.map Prod.snd).filterMap jvmName?).Nodup ∧
      (∀ u, ¬ TransGen (IsLocalIn (added.map Prod.snd)) u u) ∧
      (∀ v, v.isObject = true → ∀ u ∈ added.map Prod.snd, Encloses (added.map Prod.snd) v u →
        ¬ (u.isHolder = true ∨ IsCompanion (added.map Prod.snd) v u)) ∧
      ¬ c.tree.fileEntry.methods.Perm (bodies.map Body.slot) := by
  intro added c bodies
  have hresolved : ∀ u ∈ added.map Prod.snd, u.IsResolved := by
    have houter : (classOf "A" "A" (some "B") []).IsResolved :=
      (classFile "A" "A" (some "B") []).isResolved .strict (by decide +kernel)
    have hmiddle : (classOf "A$B" "A.B" (some "C") []).IsResolved :=
      (classFile "A$B" "A.B" (some "C") []).isResolved .strict (by decide +kernel)
    have hinner : (classOf "A$B$C" "A.B.C" none [lineConstructor]).IsResolved :=
      (classFile "A$B$C" "A.B.C" none [lineConstructor]).isResolved .strict (by decide +kernel)
    simpa [added, companionOfCompanion] using ⟨houter, hmiddle, hinner⟩
  refine ⟨hresolved, by decide, not_circle_of_not_local (by decide), ?_, ?_⟩
  · intro v hobject u _ hencloses
    have hnone : ∀ v ∈ added.map Prod.snd, v.isObject = false := by decide
    rw [hnone v (mem_of_encloses hencloses)] at hobject
    simp at hobject
  · have hshown : c.tree.fileEntry.methods.length = 0 := by
      change (compose "A.kt" .strict companionOfCompanion).tree.fileEntry.methods.length = 0
      rw [compose_of_pairwise "A.kt" .strict rfl (by decide +kernel)]
      decide +kernel
    have hfailures : c.failures = [] := by
      change (compose "A.kt" .strict companionOfCompanion).failures = []
      rw [compose_of_pairwise "A.kt" .strict rfl (by decide +kernel)]
      decide +kernel
    have hcarried : bodies = [lineConstructor.body] := by
      classical
      have hall : unblamed (added.map Prod.snd) (namesOf c.failures) = added.map Prod.snd := by
        rw [hfailures, unblamed, List.filter_eq_self]
        intro u _
        simp [IsBlamed, namesOf]
      change (unblamed (added.map Prod.snd) (namesOf c.failures)).flatMap _ = _
      rw [hall]
      rfl
    intro hperm
    have hlength := hperm.length_eq
    rw [hshown, hcarried] at hlength
    simp at hlength

end SourceTree

end LineAtlas
