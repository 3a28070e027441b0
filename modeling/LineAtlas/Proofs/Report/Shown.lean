import LineAtlas.Proofs.Report.Slots

/-!
# What a report shows of a tree

A report shows the facades that did not fail, the classes with names of their own that stand
below the top level in slots that are shown, and the local classes in the functions of all these.
Of each it shows the whole forest of functions, and nothing twice.
-/

namespace LineAtlas.SourceTree

open Report

variable {t : SourceTree}

/-- Every node of the tree has at most one place, which fits it. -/
structure Orderly (t : SourceTree) : Prop extends
  PlacesFunctions t, LeavesHelpers t, PlacesClasses t

namespace PlacesClasses

/-- The places of classes, sorted by the kinds of slots. -/
theorem classPlaces_perm (t : SourceTree) :
    t.classPlaces.Perm (t.facades ++ (t.topLevel
      ++ (List.range t.classes.length).flatMap t.nestedOf
      ++ (List.range t.classes.length).flatMap fun c => t.companionOf c ++ t.holderOf c)
      ++ t.functions.flatMap FunctionNode.classes) := by
  have hslots : (t.classes.flatMap (·.shape.children)).Perm
      ((List.range t.classes.length).flatMap t.nestedOf
        ++ (List.range t.classes.length).flatMap fun c => t.companionOf c ++ t.holderOf c) := by
    rw [← range_flatMap_class?]
    refine List.Perm.trans (List.Perm.of_eq ?_)
      (List.flatMap_append_perm _ t.nestedOf _).symm
    refine List.flatMap_congr fun c _ => ?_
    cases hclass : t.class? c with
    | none => simp [nestedOf, companionOf, holderOf, hclass]
    | some node => simp [nestedOf, companionOf, holderOf, hclass, ClassShape.children]
  rw [classPlaces]
  refine List.Perm.append_right _ ?_
  rw [List.append_assoc, List.append_assoc]
  exact (hslots.append_left _).append_left _

/-- The places of classes, by kind. -/
theorem places_nodup (h : t.PlacesClasses) :
    (t.facades ++ (t.topLevel ++ (List.range t.classes.length).flatMap t.nestedOf
      ++ (List.range t.classes.length).flatMap fun c => t.companionOf c ++ t.holderOf c)
      ++ t.functions.flatMap FunctionNode.classes).Nodup :=
  (classPlaces_perm t).nodup_iff.mp h.classesNodup

/-- Only a class of the tree has anything. -/
theorem mem_range_of_mem_flatMap {β : Type} {g : ClassNode → List β} {c : ClassId} {b : β}
    (hb : b ∈ (t.class? c).toList.flatMap g) : c ∈ List.range t.classes.length := by
  rw [List.mem_range]
  by_contra hc
  have hnone : t.class? c = none := List.getElem?_eq_none (Nat.le_of_not_lt hc)
  simp [hnone] at hb

/-- Top-level and nested classes. -/
def IsNested (t : SourceTree) (c : ClassId) : Prop :=
  c ∈ t.topLevel ++ (List.range t.classes.length).flatMap t.nestedOf

/-- A class at the top level counts as nested. -/
theorem IsNested.of_topLevel {c : ClassId} (hc : c ∈ t.topLevel) : IsNested t c :=
  List.mem_append_left _ hc

/-- A class that is nested in another one counts as nested. -/
theorem IsNested.of_nestedOf {c owner : ClassId} (hc : c ∈ t.nestedOf owner) : IsNested t c :=
  List.mem_append_right _ (List.mem_flatMap.mpr ⟨owner, mem_range_of_mem_flatMap hc, hc⟩)

/-- A place with a class has a class of the tree. -/
theorem class?_eq_some (h : t.PlacesClasses) {c : ClassId} (hc : c ∈ t.classPlaces) :
    ∃ node, t.class? c = some node :=
  ⟨_, List.getElem?_eq_getElem (h.classesBound c hc)⟩

/-- A nested class stands at one of the places for classes. -/
theorem IsNested.mem_classPlaces {c : ClassId} (hc : IsNested t c) : c ∈ t.classPlaces := by
  rw [(classPlaces_perm t).mem_iff]
  exact List.mem_append_left _ (List.mem_append_right _ (List.mem_append_left _ hc))

/-- A nested class is in the tree, and in the shape of a class with a name. -/
theorem IsNested.isNamed (h : t.PlacesClasses) {c : ClassId} (hc : IsNested t c) :
    ∃ node, t.class? c = some node ∧ node.shape.IsNamed := by
  obtain ⟨node, hnode⟩ := h.class?_eq_some hc.mem_classPlaces
  refine ⟨node, hnode, ?_⟩
  rcases List.mem_append.mp hc with htop | hnested
  · exact h.topLevel c htop node hnode
  · obtain ⟨owner, -, hmem⟩ := List.mem_flatMap.mp hnested
    obtain ⟨n, hn, hmem⟩ := List.mem_flatMap.mp hmem
    exact h.nested n (List.mem_of_getElem? (Option.mem_toList.mp hn)) c
      (List.mem_append_left _ hmem) node hnode

/-- A top-level or nested class is shown as an object when it is one. -/
theorem shownAsObject_eq (h : t.PlacesClasses) {c : ClassId} (hc : IsNested t c) :
    t.shownAsObject c = (t.class? c).any ClassNode.isObject := by
  have hcompanion : (t.classes.any fun owner => owner.shape.companion.contains c) = false := by
    rw [Bool.eq_false_iff]
    intro hany
    obtain ⟨owner, howner, hmem⟩ := List.any_eq_true.mp hany
    obtain ⟨i, hi⟩ := List.getElem?_of_mem howner
    have hslot : c ∈ t.companionOf i :=
      List.mem_flatMap.mpr ⟨owner, Option.mem_toList.mpr hi, by simpa using hmem⟩
    have hplaces := (List.nodup_append.mp (List.nodup_append.mp h.places_nodup).1).2.1
    exact (List.nodup_append.mp hplaces).2.2 c hc c
      (List.mem_flatMap.mpr ⟨i, mem_range_of_mem_flatMap hslot, List.mem_append_left _ hslot⟩) rfl
  rw [shownAsObject, hcompanion, Bool.or_false]

/-- Classes nested in a class or in its slots count as nested. -/
theorem isNested_nestedBoth {c d : ClassId} (hd : d ∈ t.nestedBoth c) : IsNested t d := by
  obtain ⟨e, -, hd⟩ := List.mem_flatMap.mp hd
  exact IsNested.of_nestedOf (List.mem_of_mem_filter hd)

/-- What the report shows of classes that stand in no slot is what the levels below them have
of their own. -/
theorem nestedItems_perm (h : t.PlacesClasses) (depth : Nat) {ids : List ClassId}
    (hids : ∀ c ∈ ids, IsNested t c) :
    (nestedItems (t.nestedWithin depth) ids).Perm
      (((Levels.levels t.nestedBoth depth (ids.filter t.isLive)).flatMap t.withSlots).flatMap
        t.listedItems) := by
  cases depth with
  | zero => exact List.Perm.refl _
  | succ depth =>
    have hzero : ∀ c, IsNested t c → (t.entryItems (t.nestedWithin 0) c).Perm
        ((t.withSlots c).flatMap t.listedItems) := by
      intro c hc
      obtain ⟨node, hnode, hnamed⟩ := hc.isNamed h
      rw [h.entryItems_eq hnode hnamed (nestedItems_nil 0)]
      simp only [nestedItems_zero, List.append_nil]
      exact List.Perm.refl _
    have hsucc : ∀ depth c, IsNested t c → (t.entryItems (t.nestedWithin (depth + 1)) c).Perm
        ((t.withSlots c).flatMap t.listedItems
          ++ (t.nestedBoth c).flatMap (t.entryItems (t.nestedWithin depth))) := by
      intro depth c hc
      obtain ⟨node, hnode, hnamed⟩ := hc.isNamed h
      rw [h.entryItems_eq hnode hnamed (nestedItems_nil _), nestedBoth, List.flatMap_assoc]
      refine (List.flatMap_append_perm _ t.listedItems _).symm.trans
        (List.Perm.append_left _ (List.Perm.flatMap_left _ fun e _ => ?_))
      exact nestedItems_succ depth fun d hd => h.shownAsObject_eq (IsNested.of_nestedOf hd)
    have hwalk := Levels.flatMap_walk_perm t.nestedBoth
      (fun depth => t.entryItems (t.nestedWithin depth))
      (fun c => (t.withSlots c).flatMap t.listedItems)
      (fun c => (t.withSlots c).flatMap t.listedItems) (IsNested t) hzero hsucc
      (fun c _ d hd => isNested_nestedBoth hd) depth
      (fun c (hc : c ∈ ids.filter t.isLive) => hids c (List.mem_of_mem_filter hc))
    refine (nestedItems_succ depth fun c hc => h.shownAsObject_eq (hids c hc)).trans ?_
    rw [← List.flatMap_append, ← Levels.levels_succ, ← List.flatMap_assoc] at hwalk
    exact hwalk

/-- The classes in slots of a class that go along with it. -/
def extrasOf (t : SourceTree) (c : ClassId) : List ClassId := t.companionOf c ++ t.holderOf c

/-- A class is shown with no more classes than stand in its slots. -/
theorem withSlots_subperm (t : SourceTree) (c : ClassId) :
    (t.withSlots c).Subperm (c :: extrasOf t c) := by
  rw [withSlots]
  split
  · exact (List.subperm_cons c).mpr (List.nil_subperm)
  · exact (List.subperm_cons c).mpr List.filter_sublist.subperm

/-- The classes nested in a class, each with those in its slots. -/
def nestedExtras (t : SourceTree) (c : ClassId) : List ClassId :=
  (t.nestedOf c).flatMap fun d => d :: extrasOf t d

/-- Classes that are nested a level deeper stand at different places. -/
theorem nestedBoth_subperm (t : SourceTree) (c : ClassId) :
    ((t.nestedBoth c).flatMap t.withSlots).Subperm ((t.withSlots c).flatMap (nestedExtras t)) := by
  rw [nestedBoth, List.flatMap_assoc]
  refine Lists.Subperm.flatMap_left _ fun e _ => ?_
  exact (Lists.Subperm.flatMap List.filter_sublist.subperm _).trans
    (Lists.Subperm.flatMap_left _ fun d _ => withSlots_subperm t d)

/-- The classes at the top level and in slots have one place each. -/
theorem topLevel_subperm (h : t.PlacesClasses) :
    ((t.topLevel.filter t.isLive).flatMap t.withSlots
      ++ (List.range t.classes.length).flatMap (nestedExtras t)).Subperm
      (t.topLevel ++ (List.range t.classes.length).flatMap t.nestedOf
        ++ (List.range t.classes.length).flatMap (extrasOf t)) := by
  have hroots : ((t.topLevel.filter t.isLive).flatMap t.withSlots).Subperm
      (t.topLevel.flatMap fun d => d :: extrasOf t d) :=
    (Lists.Subperm.flatMap List.filter_sublist.subperm _).trans
      (Lists.Subperm.flatMap_left _ fun d _ => withSlots_subperm t d)
  have hplaces := (List.nodup_append.mp (List.nodup_append.mp h.places_nodup).1).2.1
  have hall := Lists.flatMap_cons_subperm (extrasOf t) (List.nodup_append.mp hplaces).1
    fun c hc => h.classesBound c (IsNested.mem_classPlaces hc)
  refine List.Subperm.trans ?_ hall
  rw [List.flatMap_append, List.flatMap_assoc]
  exact hroots.append (List.Subperm.refl _)

/-- The walk over classes at the top level comes to an end. -/
theorem level_topLevel_eq_nil (h : t.PlacesClasses) :
    Levels.level t.nestedBoth t.classes.length (t.topLevel.filter t.isLive) = [] := by
  have hsubperm := topLevel_subperm h
  have hplaces := (List.nodup_append.mp (List.nodup_append.mp h.places_nodup).1).2.1
  refine Levels.level_eq_nil t.nestedBoth t.withSlots (nestedExtras t) (fun c => ?_)
    (nestedBoth_subperm t) (Lists.Subperm.nodup hsubperm hplaces) fun c hc => ?_
  · rw [withSlots]
    split <;> exact List.cons_ne_nil _ _
  · refine h.classesBound c ((classPlaces_perm t).mem_iff.mpr ?_)
    exact List.mem_append_left _ (List.mem_append_right _ (hsubperm.subset hc))

end PlacesClasses

/-- The facades that are shown. -/
def facadesShown (t : SourceTree) : List ClassId := t.facades.filter t.isLive

/-- The classes with names of their own, and holders of bodies, that are shown. -/
def namedShown (t : SourceTree) : List ClassId :=
  (Levels.levels t.nestedBoth t.classes.length (t.topLevel.filter t.isLive)).flatMap t.withSlots

/-- The functions that a walk from some functions comes to. -/
def functionsFrom (t : SourceTree) (roots : List FunctionId) : List FunctionId :=
  (Levels.levels t.insideBoth t.functions.length roots).flatMap t.withHelper

/-- The classes that a walk comes to besides the functions it comes to. -/
def classesWith (t : SourceTree) (functions : List FunctionId) : List ClassId :=
  t.facadesShown ++ t.namedShown ++ functions.flatMap t.liveClassesOf

/-- The functions that are shown. -/
def functionsShown (t : SourceTree) : List FunctionId :=
  (Levels.levels t.insideBoth t.functions.length
    ((t.facadesShown ++ t.namedShown).flatMap t.membersOf)).flatMap t.withHelper

/-- The local classes that are shown. -/
def localsShown (t : SourceTree) : List ClassId := t.functionsShown.flatMap t.liveClassesOf

/-- All classes that are shown. -/
def shown (t : SourceTree) : List ClassId := t.facadesShown ++ t.namedShown ++ t.localsShown

namespace PlacesClasses

/-- No class with a name of its own is shown twice. -/
theorem namedShown_nodup (h : t.PlacesClasses) : t.namedShown.Nodup := by
  have hsubperm := topLevel_subperm h
  have hplaces := (List.nodup_append.mp (List.nodup_append.mp h.places_nodup).1).2.1
  refine (Levels.nodup_levels t.nestedBoth t.withSlots (nestedExtras t) (nestedBoth_subperm t)
    (Lists.Subperm.nodup hsubperm hplaces) (fun c hc => ?_) t.classes.length).1
  refine h.classesBound c ((classPlaces_perm t).mem_iff.mpr ?_)
  exact List.mem_append_left _ (List.mem_append_right _ (hsubperm.subset hc))

/-- A class that is shown without being local is nested, or in a slot of one that is. -/
theorem mem_of_mem_namedShown {c : ClassId} (hc : c ∈ t.namedShown) :
    c ∈ t.topLevel ++ (List.range t.classes.length).flatMap t.nestedOf
      ++ (List.range t.classes.length).flatMap (extrasOf t) := by
  obtain ⟨d, hd, hc⟩ := List.mem_flatMap.mp hc
  have hnested : IsNested t d := by
    refine Levels.forall_mem_levels t.nestedBoth (P := IsNested t) (fun e he => ?_)
      (fun e _ f hf => isNested_nestedBoth hf) t.classes.length d hd
    exact IsNested.of_topLevel (List.mem_of_mem_filter he)
  rcases List.mem_cons.mp ((withSlots_subperm t d).subset hc) with rfl | hextra
  · exact List.mem_append_left _ hnested
  · refine List.mem_append_right _ (List.mem_flatMap.mpr ⟨d, ?_, hextra⟩)
    rcases List.mem_append.mp hextra with hslot | hslot
    · exact mem_range_of_mem_flatMap hslot
    · exact mem_range_of_mem_flatMap hslot

/-- Facades, classes that are shown without being local, and classes in function bodies have
one place each. -/
theorem shown_subperm (h : t.PlacesClasses) :
    (t.facadesShown ++ t.namedShown
      ++ (List.range t.functions.length).flatMap t.liveClassesOf).Subperm t.classPlaces := by
  have hnamed : t.namedShown.Subperm (t.topLevel
      ++ (List.range t.classes.length).flatMap t.nestedOf
      ++ (List.range t.classes.length).flatMap (extrasOf t)) :=
    List.subperm_of_subset h.namedShown_nodup fun c hc => mem_of_mem_namedShown hc
  have hlocal : ((List.range t.functions.length).flatMap t.liveClassesOf).Subperm
      (t.functions.flatMap FunctionNode.classes) := by
    rw [← range_flatMap_function?]
    exact Lists.Subperm.flatMap_left _ fun f _ => List.filter_sublist.subperm
  refine List.Subperm.trans ?_ (classPlaces_perm t).symm.subperm
  exact (List.filter_sublist.subperm.append hnamed).append hlocal

end PlacesClasses

namespace Orderly

variable {roots : List FunctionId}

/-- Members of classes that are shown, and what is right inside functions, have one place
each. -/
theorem inside_subperm (h : t.Orderly)
    (hroots : roots.Subperm ((t.facadesShown ++ t.namedShown).flatMap t.membersOf)) :
    (roots ++ (List.range t.functions.length).flatMap t.inside
      ++ (List.range t.functions.length).flatMap t.helperOf).Subperm t.functionPlaces := by
  have hclasses : (t.facadesShown ++ t.namedShown
      ++ (List.range t.functions.length).flatMap t.liveClassesOf).Subperm
      (List.range t.classes.length) :=
    List.subperm_of_subset (Lists.Subperm.nodup h.shown_subperm h.classesNodup) fun c hc =>
      List.mem_range.mpr (h.classesBound c (h.shown_subperm.subset hc))
  have hmembers := Lists.Subperm.flatMap hclasses t.membersOf
  rw [List.flatMap_append, membersOf_range] at hmembers
  have hbelow : t.functions.flatMap FunctionNode.below
      = (List.range t.functions.length).flatMap fun f => t.helperOf f ++ t.localsOf f := by
    rw [← range_flatMap_function?]
    exact List.flatMap_congr fun f _ => below_eq f
  have hinside : ((List.range t.functions.length).flatMap t.inside).Perm
      ((List.range t.functions.length).flatMap t.localsOf
        ++ ((List.range t.functions.length).flatMap t.liveClassesOf).flatMap t.membersOf) := by
    rw [List.flatMap_assoc]
    exact (List.flatMap_append_perm _ t.localsOf _).symm
  have hsplit : ((List.range t.functions.length).flatMap fun f =>
      t.helperOf f ++ t.localsOf f).Perm ((List.range t.functions.length).flatMap t.helperOf
        ++ (List.range t.functions.length).flatMap t.localsOf) :=
    (List.flatMap_append_perm _ t.helperOf _).symm
  rw [functionPlaces, hbelow]
  refine ((hroots.append (List.Subperm.refl _)).append (List.Subperm.refl _)).trans ?_
  refine List.Subperm.trans ?_ ((hmembers.append (List.Subperm.refl _)).trans
    (hsplit.symm.append_left _).subperm)
  refine ((hinside.append_left _).append_right _).subperm.trans (List.Perm.subperm ?_)
  rw [← Multiset.coe_eq_coe]
  simp only [← Multiset.coe_add]
  abel

/-- Functions that are inside a function stand at different places. -/
theorem insideBoth_subperm (t : SourceTree) (f : FunctionId) :
    ((t.insideBoth f).flatMap t.withHelper).Subperm
      ((t.withHelper f).flatMap t.insideWithHelpers) := by
  rw [insideBoth, List.flatMap_assoc]
  exact List.Subperm.refl _

/-- The functions that a walk may come to stand at different places, those inside others
included. -/
theorem insideWithHelpers_subperm (h : t.Orderly)
    (hroots : roots.Subperm ((t.facadesShown ++ t.namedShown).flatMap t.membersOf)) :
    (roots.flatMap t.withHelper ++ (List.range t.functions.length).flatMap
      t.insideWithHelpers).Subperm t.functionPlaces := by
  have hsubperm := h.inside_subperm hroots
  have hnodup := (List.nodup_append.mp (Lists.Subperm.nodup hsubperm h.functionsNodup)).1
  have hall := Lists.flatMap_cons_subperm t.helperOf hnodup fun f hf =>
    h.functionsBound f (hsubperm.subset (List.mem_append_left _ hf))
  have hinside : (List.range t.functions.length).flatMap t.insideWithHelpers
      = ((List.range t.functions.length).flatMap t.inside).flatMap t.withHelper :=
    List.flatMap_assoc.symm
  rw [hinside, ← List.flatMap_append]
  exact hall.trans hsubperm

/-- The walk over functions comes to an end. -/
theorem level_inside_eq_nil (h : t.Orderly)
    (hroots : roots.Subperm ((t.facadesShown ++ t.namedShown).flatMap t.membersOf)) :
    Levels.level t.insideBoth t.functions.length roots = [] := by
  have hsubperm := h.insideWithHelpers_subperm hroots
  exact Levels.level_eq_nil t.insideBoth t.withHelper t.insideWithHelpers
    (fun f => List.cons_ne_nil _ _) (insideBoth_subperm t)
    (Lists.Subperm.nodup hsubperm h.functionsNodup) fun f hf =>
      h.functionsBound f (hsubperm.subset hf)

/-- A walk comes to a function once. -/
theorem functionsFrom_nodup (h : t.Orderly)
    (hroots : roots.Subperm ((t.facadesShown ++ t.namedShown).flatMap t.membersOf)) :
    (t.functionsFrom roots).Nodup ∧ ∀ f ∈ t.functionsFrom roots, f < t.functions.length := by
  have hsubperm := h.insideWithHelpers_subperm hroots
  exact Levels.nodup_levels t.insideBoth t.withHelper t.insideWithHelpers
    (insideBoth_subperm t) (Lists.Subperm.nodup hsubperm h.functionsNodup)
    (fun f hf => h.functionsBound f (hsubperm.subset hf)) t.functions.length

/-- A walk comes to the functions it starts from, to the members of classes it comes to inside
functions, and to what is below functions. -/
theorem functionsFrom_perm (h : t.Orderly)
    (hroots : roots.Subperm ((t.facadesShown ++ t.namedShown).flatMap t.membersOf)) :
    (t.functionsFrom roots).Perm (roots
      ++ ((t.functionsFrom roots).flatMap t.liveClassesOf).flatMap t.membersOf
      ++ (t.functionsFrom roots).flatMap t.below) := by
  let leaders := Levels.levels t.insideBoth t.functions.length roots
  have hfrom : t.functionsFrom roots = leaders.flatMap t.withHelper := rfl
  have hleaders : leaders = roots ++ (t.functionsFrom roots).flatMap t.inside := by
    have hlevels := Levels.levels_eq t.insideBoth (h.level_inside_eq_nil hroots)
    rw [hfrom, List.flatMap_assoc]
    exact hlevels
  have hsplit : (t.functionsFrom roots).Perm (leaders ++ leaders.flatMap t.helperOf) := by
    have happend := List.flatMap_append_perm leaders (fun f => [f]) t.helperOf
    rw [List.flatMap_singleton'] at happend
    exact happend.symm
  -- A helper has no helper of its own.
  have hhelpers : (t.functionsFrom roots).flatMap t.helperOf = leaders.flatMap t.helperOf := by
    rw [hfrom, List.flatMap_assoc]
    refine List.flatMap_congr fun f _ => ?_
    have hnone : (t.helperOf f).flatMap t.helperOf = [] := by
      rw [List.flatMap_eq_nil_iff]
      intro helper hmem
      obtain ⟨node, hnode, hvalues⟩ := List.mem_flatMap.mp hmem
      exact h.helperOf_eq_nil (h.helper f node helper (Option.mem_toList.mp hnode)
        (Option.mem_toList.mp hvalues))
    rw [withHelper, List.flatMap_cons, hnone, List.append_nil]
  have hinside : ((t.functionsFrom roots).flatMap t.inside).Perm
      ((t.functionsFrom roots).flatMap t.localsOf
        ++ ((t.functionsFrom roots).flatMap t.liveClassesOf).flatMap t.membersOf) := by
    rw [List.flatMap_assoc (l := t.functionsFrom roots)]
    exact (List.flatMap_append_perm _ t.localsOf _).symm
  have hbelow : ((t.functionsFrom roots).flatMap t.below).Perm
      ((t.functionsFrom roots).flatMap t.helperOf
        ++ (t.functionsFrom roots).flatMap t.localsOf) :=
    List.Perm.trans (List.Perm.of_eq (List.flatMap_congr fun f _ => below_eq f))
      (List.flatMap_append_perm _ t.helperOf t.localsOf).symm
  have hrest := (List.Perm.of_eq hleaders).append_right (leaders.flatMap t.helperOf)
  refine hsplit.trans (hrest.trans ?_)
  refine ((hinside.append_left _).append_right _).trans ?_
  refine List.Perm.trans ?_ (hbelow.symm.append_left _)
  rw [hhelpers, ← Multiset.coe_eq_coe]
  simp only [← Multiset.coe_add]
  abel

/-- The functions that are shown are the members of shown classes and what is below them. -/
theorem functionsShown_perm (h : t.Orderly) :
    t.functionsShown.Perm
      (t.shown.flatMap t.membersOf ++ t.functionsShown.flatMap t.below) := by
  rw [shown, List.flatMap_append]
  exact h.functionsFrom_perm (List.Subperm.refl _)

/-- A helper is right below its function. -/
theorem helperOf_subset_below {f g : FunctionId} (hg : g ∈ t.helperOf f) : g ∈ t.below f := by
  rw [below_eq]
  exact List.mem_append_left _ hg

/-- A local function is right below the function around it. -/
theorem localsOf_subset_below {f g : FunctionId} (hg : g ∈ t.localsOf f) : g ∈ t.below f := by
  rw [below_eq]
  exact List.mem_append_right _ hg

/-- What holds where a walk starts and is handed down holds of all functions it comes to. -/
theorem forall_mem_functionsFrom {P : FunctionId → Prop} (hroots : ∀ f ∈ roots, P f)
    (hbelow : ∀ f, P f → ∀ g ∈ t.below f, P g)
    (hlocal : ∀ f, P f → ∀ c ∈ t.liveClassesOf f, ∀ g ∈ t.membersOf c, P g) :
    ∀ f ∈ t.functionsFrom roots, P f := by
  have hboth : ∀ f, P f → ∀ g ∈ t.withHelper f, P g := by
    intro f hf g hg
    rcases List.mem_cons.mp hg with rfl | hg
    · exact hf
    · exact hbelow f hf g (helperOf_subset_below hg)
  intro f hf
  obtain ⟨leader, hleader, hf⟩ := List.mem_flatMap.mp hf
  refine hboth leader ?_ f hf
  refine Levels.forall_mem_levels t.insideBoth hroots (fun g hg e he => ?_)
    t.functions.length leader hleader
  obtain ⟨both, hmem, he⟩ := List.mem_flatMap.mp he
  have hP := hboth g hg both hmem
  rcases List.mem_append.mp he with he | he
  · exact hbelow both hP e (localsOf_subset_below he)
  · obtain ⟨c, hc, he⟩ := List.mem_flatMap.mp he
    exact hlocal both hP c hc e he

/-- What holds of the members of shown classes and is handed down holds of all functions that
are shown. -/
theorem forall_mem_functionsShown {P : FunctionId → Prop}
    (hmember : ∀ c ∈ t.facadesShown ++ t.namedShown, ∀ f ∈ t.membersOf c, P f)
    (hbelow : ∀ f, P f → ∀ g ∈ t.below f, P g)
    (hlocal : ∀ f, P f → ∀ c ∈ t.liveClassesOf f, ∀ g ∈ t.membersOf c, P g) :
    ∀ f ∈ t.functionsShown, P f := by
  refine forall_mem_functionsFrom (fun f hf => ?_) hbelow hlocal
  obtain ⟨c, hc, hf⟩ := List.mem_flatMap.mp hf
  exact hmember c hc f hf

/-- The functions that are shown are the forests of the classes that are shown. -/
theorem functionsShown_perm_forest (h : t.Orderly) :
    t.functionsShown.Perm (t.shown.flatMap t.forest) := by
  have hforest : (t.shown.flatMap t.forest).Perm
      (t.shown.flatMap t.membersOf ++ (t.shown.flatMap t.forest).flatMap t.below) := by
    rw [List.flatMap_assoc]
    exact (List.Perm.flatMap_left _ fun c _ => h.forest_perm c).trans
      (List.flatMap_append_perm _ t.membersOf _).symm
  have hfunctions : ∀ f ∈ t.functionsShown,
      Levels.level t.below t.functions.length [f] = [] :=
    forall_mem_functionsShown (fun c _ f hf => h.level_member_eq_nil hf)
      (fun f hf g hg => Levels.level_kid_eq_nil t.below hf hg)
      fun f _ c _ g hg => h.level_member_eq_nil hg
  have hforests : ∀ f ∈ t.shown.flatMap t.forest,
      Levels.level t.below t.functions.length [f] = [] := by
    intro f hf
    obtain ⟨c, -, hf⟩ := List.mem_flatMap.mp hf
    rw [forest, (h.functionTree_perm fun g hg => h.bound_member hg).mem_iff] at hf
    exact Levels.forall_mem_levels t.below (fun g hg => h.level_member_eq_nil hg)
      (fun g hg e he => Levels.level_kid_eq_nil t.below hg he) t.functions.length f hf
  exact (Levels.perm_levels_of_perm t.below h.functionsShown_perm
    (Levels.level_eq_nil_of_forall t.below hfunctions)).trans
      (Levels.perm_levels_of_perm t.below hforest
        (Levels.level_eq_nil_of_forall t.below hforests)).symm

/-- A class that is shown without being a facade or local has no initializer of a file. -/
theorem isNamed_or_defaultImpls (h : t.Orderly) {c : ClassId} (hc : c ∈ t.namedShown)
    {node : ClassNode} (hnode : t.class? c = some node) :
    node.shape.IsNamed ∨ node.shape = .defaultImpls := by
  rcases List.mem_append.mp (PlacesClasses.mem_of_mem_namedShown hc) with hnested | hextra
  · obtain ⟨n, hn, hnamed⟩ := PlacesClasses.IsNested.isNamed h.toPlacesClasses hnested
    obtain rfl := Option.some.inj (hn.symm.trans hnode)
    exact Or.inl hnamed
  · obtain ⟨owner, -, hslot⟩ := List.mem_flatMap.mp hextra
    rcases List.mem_append.mp hslot with hslot | hslot
    · obtain ⟨n, hn, hslot⟩ := List.mem_flatMap.mp hslot
      exact Or.inl (h.nested n (List.mem_of_getElem? (Option.mem_toList.mp hn)) c
        (List.mem_append_right _ hslot) node hnode)
    · obtain ⟨n, hn, hslot⟩ := List.mem_flatMap.mp hslot
      exact Or.inr (h.holder n (List.mem_of_getElem? (Option.mem_toList.mp hn)) c hslot node
        hnode)

/-- A class in the body of a function has the shape of a local one. -/
theorem isLocal_of_mem_liveClassesOf (h : t.Orderly) {c : ClassId} {f : FunctionId}
    (hc : c ∈ t.liveClassesOf f) {node : ClassNode} (hnode : t.class? c = some node) :
    node.shape.IsLocal := by
  obtain ⟨n, hn, hmem⟩ := List.mem_flatMap.mp (List.mem_of_mem_filter hc)
  exact h.localClass n (List.mem_of_getElem? (Option.mem_toList.mp hn)) c hmem node hnode

/-- A walk comes to a class once. -/
theorem classesWith_nodup (h : t.Orderly) {roots : List FunctionId}
    (hroots : roots.Subperm ((t.facadesShown ++ t.namedShown).flatMap t.membersOf)) :
    (t.classesWith (t.functionsFrom roots)).Nodup := by
  obtain ⟨hnodup, hbound⟩ := h.functionsFrom_nodup hroots
  have hfunctions : (t.functionsFrom roots).Subperm (List.range t.functions.length) :=
    List.subperm_of_subset hnodup fun f hf => List.mem_range.mpr (hbound f hf)
  have hlocals := Lists.Subperm.flatMap hfunctions t.liveClassesOf
  exact Lists.Subperm.nodup (((List.Subperm.refl _).append hlocals).trans h.shown_subperm)
    h.classesNodup

/-- Classes that are shown are shown once. -/
theorem shown_nodup (h : t.Orderly) : t.shown.Nodup := h.classesWith_nodup (List.Subperm.refl _)

end Orderly

/-- How a class comes to be shown: by way of the facades and the top level, through slots that
are shown and functions of classes that are shown. -/
inductive IsShown (t : SourceTree) : ClassId → Prop where
  /-- A facade is shown, unless it failed. -/
  | facade {c : ClassId} (hc : c ∈ t.facades) (hlive : t.isLive c = true) : IsShown t c
  /-- A class at the top level is shown, unless it failed. -/
  | topLevel {c : ClassId} (hc : c ∈ t.topLevel) (hlive : t.isLive c = true) : IsShown t c
  /-- A nested class is shown with the one around it. -/
  | nested {owner c : ClassId} (howner : IsShown t owner) (hc : c ∈ t.nestedOf owner)
      (hlive : t.isLive c = true) : IsShown t c
  /-- A class in a slot is shown with its owner, unless the owner is shown as an object. -/
  | slot {owner c : ClassId} (howner : IsShown t owner) (hobject : t.shownAsObject owner = false)
      (hc : c ∈ t.companionOf owner ++ t.holderOf owner) (hlive : t.isLive c = true) :
      IsShown t c
  /-- A local class is shown with the class in whose forest its function is. -/
  | localClass {owner c : ClassId} {f : FunctionId} (howner : IsShown t owner)
      (hf : f ∈ t.forest owner) (hc : c ∈ t.liveClassesOf f) : IsShown t c

namespace Orderly

/-- The members of a class are in its forest. -/
theorem membersOf_subset_forest (h : t.Orderly) {c : ClassId} {f : FunctionId}
    (hf : f ∈ t.membersOf c) : f ∈ t.forest c :=
  (h.forest_perm c).mem_iff.mpr (List.mem_append_left _ hf)

/-- What is right below a function of a forest is in the forest. -/
theorem below_subset_forest (h : t.Orderly) {c : ClassId} {f g : FunctionId}
    (hf : f ∈ t.forest c) (hg : g ∈ t.below f) : g ∈ t.forest c :=
  (h.forest_perm c).mem_iff.mpr (List.mem_append_right _ (List.mem_flatMap.mpr ⟨f, hf, hg⟩))

/-- Classes in shown slots of a class are shown with it. -/
theorem isShown_withSlots {c d : ClassId} (hc : t.IsShown c) (hd : d ∈ t.withSlots c) :
    t.IsShown d := by
  rw [withSlots] at hd
  split at hd
  · rw [List.mem_singleton.mp hd]
    exact hc
  · next hobject =>
    rcases List.mem_cons.mp hd with rfl | hd
    · exact hc
    · obtain ⟨hslot, hlive⟩ := List.mem_filter.mp hd
      exact .slot hc (by simpa using hobject) hslot hlive

/-- Each class with a name of its own in the list is shown. -/
theorem isShown_of_mem_namedShown {c : ClassId} (hc : c ∈ t.namedShown) : t.IsShown c := by
  obtain ⟨leader, hleader, hc⟩ := List.mem_flatMap.mp hc
  refine isShown_withSlots ?_ hc
  refine Levels.forall_mem_levels t.nestedBoth (fun d hd => ?_) (fun d hd e he => ?_)
    t.classes.length leader hleader
  · obtain ⟨htop, hlive⟩ := List.mem_filter.mp hd
    exact .topLevel htop hlive
  · obtain ⟨slot, hslot, he⟩ := List.mem_flatMap.mp he
    obtain ⟨hnested, hlive⟩ := List.mem_filter.mp he
    exact .nested (isShown_withSlots hd hslot) hnested hlive

/-- Each class in the list is shown. -/
theorem isShown_of_mem_shown (h : t.Orderly) {c : ClassId} (hc : c ∈ t.shown) : t.IsShown c := by
  have hroots : ∀ d ∈ t.facadesShown ++ t.namedShown, t.IsShown d := by
    intro d hd
    rcases List.mem_append.mp hd with hd | hd
    · obtain ⟨hfacade, hlive⟩ := List.mem_filter.mp hd
      exact .facade hfacade hlive
    · exact isShown_of_mem_namedShown hd
  rcases List.mem_append.mp hc with hc | hc
  · exact hroots c hc
  · obtain ⟨f, hf, hc⟩ := List.mem_flatMap.mp hc
    have hforest : ∀ f ∈ t.functionsShown, ∃ owner, t.IsShown owner ∧ f ∈ t.forest owner := by
      refine forall_mem_functionsShown (fun d hd g hg => ?_) (fun g hg e he => ?_)
        fun g hg d hd e he => ?_
      · exact ⟨d, hroots d hd, h.membersOf_subset_forest hg⟩
      · obtain ⟨owner, howner, hg⟩ := hg
        exact ⟨owner, howner, h.below_subset_forest hg he⟩
      · obtain ⟨owner, howner, hg⟩ := hg
        exact ⟨d, .localClass howner hg hd, h.membersOf_subset_forest he⟩
    obtain ⟨owner, howner, hforest⟩ := hforest f hf
    exact .localClass howner hforest hc

/-- The class of a companion object is shown as an object. -/
theorem shownAsObject_of_mem_companionOf {c d : ClassId} (hd : d ∈ t.companionOf c) :
    t.shownAsObject d = true := by
  obtain ⟨owner, howner, hd⟩ := List.mem_flatMap.mp hd
  rw [shownAsObject, Bool.or_eq_true]
  exact Or.inr (List.any_eq_true.mpr
    ⟨owner, List.mem_of_getElem? (Option.mem_toList.mp howner), by simpa using hd⟩)

/-- A shown class that is not shown as an object has its slots shown with it. -/
theorem mem_withSlots_of_mem_namedShown (h : t.Orderly) {c d : ClassId} {node : ClassNode}
    (hc : c ∈ t.namedShown) (hnode : t.class? c = some node) (hnamed : node.shape.IsNamed)
    (hobject : t.shownAsObject c = false) (hd : d ∈ t.companionOf c ++ t.holderOf c)
    (hlive : t.isLive d = true) : d ∈ t.namedShown := by
  obtain ⟨leader, hmem, hc⟩ := List.mem_flatMap.mp hc
  refine List.mem_flatMap.mpr ⟨leader, hmem, ?_⟩
  by_cases heq : c = leader
  · subst heq
    rw [withSlots, if_neg (by simp [hobject])]
    exact List.mem_cons_of_mem _ (List.mem_filter.mpr ⟨hd, hlive⟩)
  · rcases List.mem_cons.mp ((PlacesClasses.withSlots_subperm t leader).subset hc) with
      hleader | hslot
    · exact absurd hleader heq
    · rcases List.mem_append.mp hslot with hcompanion | hholder
      · rw [shownAsObject_of_mem_companionOf hcompanion] at hobject
        cases hobject
      · obtain ⟨owner, howner, hholder⟩ := List.mem_flatMap.mp hholder
        obtain ⟨shape, hshape⟩ := hnamed
        have hdefault := h.holder owner (List.mem_of_getElem? (Option.mem_toList.mp howner)) c
          hholder node hnode
        simp [hshape] at hdefault

/-- A class with slots is neither a facade nor local. -/
theorem mem_namedShown_of_isNamed (h : t.Orderly) {functions : List FunctionId} {c : ClassId}
    (hc : c ∈ t.classesWith functions) {node : ClassNode} (hnode : t.class? c = some node)
    (hnamed : node.shape.IsNamed) : c ∈ t.namedShown := by
  obtain ⟨shape, hshape⟩ := hnamed
  rcases List.mem_append.mp hc with hc | hc
  · rcases List.mem_append.mp hc with hc | hc
    · obtain ⟨init, hfacade⟩ := h.facade c (List.mem_of_mem_filter hc) node hnode
      simp [hshape] at hfacade
    · exact hc
  · obtain ⟨f, -, hc⟩ := List.mem_flatMap.mp hc
    obtain ⟨kind, origin, hlocal⟩ := h.isLocal_of_mem_liveClassesOf hc hnode
    simp [hshape] at hlocal

/-- Only classes with names of their own have others in slots. -/
theorem exists_named_of_slot {owner c : ClassId}
    (hc : c ∈ t.nestedOf owner ++ (t.companionOf owner ++ t.holderOf owner)) :
    ∃ node, t.class? owner = some node ∧ node.shape.IsNamed := by
  cases hclass : t.class? owner with
  | none => simp [nestedOf, companionOf, holderOf, hclass] at hc
  | some node =>
    cases hshape : node.shape with
    | named shape => exact ⟨node, rfl, shape, hshape⟩
    | localClass kind origin | facade init | defaultImpls =>
      simp [nestedOf, companionOf, holderOf, hclass, hshape, ClassShape.nested,
        ClassShape.companion, ClassShape.holder] at hc

/-- A class at the top level is in the list, unless it failed. -/
theorem mem_namedShown_of_topLevel (h : t.Orderly) {c : ClassId} (hc : c ∈ t.topLevel)
    (hlive : t.isLive c = true) : c ∈ t.namedShown := by
  refine List.mem_flatMap.mpr ⟨c, ?_, mem_withSlots_self t c⟩
  rw [Levels.levels_eq t.nestedBoth h.level_topLevel_eq_nil]
  exact List.mem_append_left _ (List.mem_filter.mpr ⟨hc, hlive⟩)

/-- A class that is nested in a listed one is in the list, unless it failed. -/
theorem mem_namedShown_of_nestedOf (h : t.Orderly) {owner c : ClassId}
    (howner : owner ∈ t.namedShown) (hc : c ∈ t.nestedOf owner) (hlive : t.isLive c = true) :
    c ∈ t.namedShown := by
  obtain ⟨leader, hmem, howner⟩ := List.mem_flatMap.mp howner
  refine List.mem_flatMap.mpr ⟨c, ?_, mem_withSlots_self t c⟩
  rw [Levels.levels_eq t.nestedBoth h.level_topLevel_eq_nil]
  refine List.mem_append_right _ (List.mem_flatMap.mpr ⟨leader, hmem, ?_⟩)
  exact List.mem_flatMap.mpr ⟨owner, howner, List.mem_filter.mpr ⟨hc, hlive⟩⟩

/-- Each class that is shown is in the list. -/
theorem mem_shown_of_isShown (h : t.Orderly) {c : ClassId} (hc : t.IsShown c) :
    c ∈ t.shown := by
  have hshown {d : ClassId} (hd : d ∈ t.namedShown) : d ∈ t.shown :=
    List.mem_append_left _ (List.mem_append_right _ hd)
  induction hc with
  | facade hc hlive =>
    exact List.mem_append_left _ (List.mem_append_left _ (List.mem_filter.mpr ⟨hc, hlive⟩))
  | topLevel hc hlive => exact hshown (h.mem_namedShown_of_topLevel hc hlive)
  | nested _ hc hlive ih =>
    obtain ⟨node, hnode, hnamed⟩ := exists_named_of_slot (List.mem_append_left _ hc)
    exact hshown (h.mem_namedShown_of_nestedOf (h.mem_namedShown_of_isNamed ih hnode hnamed) hc
      hlive)
  | slot _ hobject hc hlive ih =>
    obtain ⟨node, hnode, hnamed⟩ := exists_named_of_slot (List.mem_append_right _ hc)
    exact hshown (h.mem_withSlots_of_mem_namedShown
      (h.mem_namedShown_of_isNamed ih hnode hnamed) hnode hnamed hobject hc hlive)
  | @localClass owner c f _ hf hc ih =>
    have hmem : f ∈ t.functionsShown :=
      h.functionsShown_perm_forest.mem_iff.mpr (List.mem_flatMap.mpr ⟨owner, ih, hf⟩)
    exact List.mem_append_right _ (List.mem_flatMap.mpr ⟨f, hmem, hc⟩)

/-- The classes that are shown are those that come to be shown. -/
theorem mem_shown_iff (h : t.Orderly) {c : ClassId} : c ∈ t.shown ↔ t.IsShown c :=
  ⟨h.isShown_of_mem_shown, h.mem_shown_of_isShown⟩

end Orderly

end LineAtlas.SourceTree
