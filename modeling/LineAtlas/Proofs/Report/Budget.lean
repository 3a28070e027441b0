import LineAtlas.Proofs.Report.FileEntry

/-!
# Walks that end by themselves

How deep the walk of a report may go is limited by the number of functions and of classes. In an
orderly tree the walk comes to its end before: with a higher limit it finds the same.
-/

namespace LineAtlas.SourceTree

open Report

variable {t : SourceTree}

section Contents

variable {one two : Contents}

/-- Two ways to find the contents of bodies that agree on a function. -/
def AgreeOn (t : SourceTree) (one two : Contents) (f : FunctionId) : Prop :=
  ∀ node, t.function? f = some node → one node = two node

/-- The entry of a function without a name depends on the contents of its body. -/
theorem anonymousFunction?_congr {f : FunctionId} (h : AgreeOn t one two f) :
    t.anonymousFunction? one f = t.anonymousFunction? two f := by
  cases hnode : t.function? f with
  | none => simp [anonymousFunction?, hnode]
  | some node => simp [anonymousFunction?, hnode, h node hnode]

/-- The entry of a function depends on the contents of its body and of its helper's. -/
theorem functionEntry?_congr {f : FunctionId} (h : ∀ g ∈ t.withHelper f, AgreeOn t one two g) :
    t.functionEntry? one f = t.functionEntry? two f := by
  cases hnode : t.function? f with
  | none => simp [hnode, functionEntry?]
  | some node =>
    have hhelper : node.defaultValues.bind (t.anonymousFunction? one)
        = node.defaultValues.bind (t.anonymousFunction? two) := by
      cases hvalues : node.defaultValues with
      | none => rfl
      | some helper =>
        refine anonymousFunction?_congr (h helper (List.mem_cons_of_mem f ?_))
        simp [helperOf, hnode, hvalues]
    simp [hnode, hhelper, functionEntry?, h f List.mem_cons_self node hnode]

/-- The entries of functions depend on the contents of their bodies and of their helpers'. -/
theorem functionEntries_congr {fs : List FunctionId}
    (h : ∀ f ∈ fs, ∀ g ∈ t.withHelper f, AgreeOn t one two g) :
    t.functionEntries one fs = t.functionEntries two fs :=
  List.filterMap_congr fun f hf => functionEntry?_congr (h f hf)

/-- The entry of a property depends on the contents of its accessors. -/
theorem propertyEntry_congr {p : PropertyNode}
    (h : ∀ f ∈ p.accessors, AgreeOn t one two f) :
    t.propertyEntry one p = t.propertyEntry two p := by
  have haccessor (accessor : Option FunctionId)
      (hall : ∀ f ∈ accessor.toList, AgreeOn t one two f) :
      accessor.bind (t.anonymousFunction? one) = accessor.bind (t.anonymousFunction? two) := by
    cases accessor with
    | none => rfl
    | some f => exact anonymousFunction?_congr (hall f List.mem_cons_self)
  rw [propertyEntry, propertyEntry,
    haccessor p.getter fun f hf => h f (List.mem_append_left _ hf),
    haccessor p.setter fun f hf => h f (List.mem_append_right _ hf)]

/-- The members of a class depend on the contents of their bodies. -/
theorem memberEntries_congr {c : ClassNode}
    (h : ∀ f ∈ c.memberFunctions, ∀ g ∈ t.withHelper f, AgreeOn t one two g) :
    t.memberEntries one c = t.memberEntries two c := by
  have hlisted : ∀ f ∈ c.listedFunctions, ∀ g ∈ t.withHelper f, AgreeOn t one two g :=
    fun f hf => h f (List.mem_append_left _ hf)
  have hproperties : c.properties.map (t.propertyEntry one)
      = c.properties.map (t.propertyEntry two) := by
    refine List.map_congr_left fun p hp => propertyEntry_congr fun f hf => ?_
    exact hlisted f (List.mem_append_right _ (List.mem_flatMap.mpr ⟨p, hp, hf⟩)) f
      List.mem_cons_self
  rw [memberEntries, memberEntries, hproperties,
    functionEntries_congr fun f hf => hlisted f
      (List.mem_append_left _ (List.mem_append_left _ hf)),
    functionEntries_congr fun f hf => hlisted f
      (List.mem_append_left _ (List.mem_append_right _ hf))]

/-- A class that is shown among others is one of them that did not fail. -/
theorem exists_of_mem_live {ids : List ClassId} {node : ClassNode} (hnode : node ∈ t.live ids) :
    ∃ c ∈ ids.filter t.isLive, t.class? c = some node := by
  obtain ⟨hmem, hlive⟩ := List.mem_filter.mp hnode
  obtain ⟨c, hc, hclass⟩ := List.mem_filterMap.mp hmem
  exact ⟨c, List.mem_filter.mpr ⟨hc, by simpa [isLive, hclass] using hlive⟩, hclass⟩

/-- What is declared in a body depends on the functions right inside it and their helpers. -/
theorem bodyEntries_congr {f : FunctionId} {node : FunctionNode}
    (hnode : t.function? f = some node) (h : ∀ g ∈ t.insideWithHelpers f, AgreeOn t one two g) :
    t.bodyEntries one node = t.bodyEntries two node := by
  have hlocals : ∀ e ∈ node.locals, ∀ g ∈ t.withHelper e, AgreeOn t one two g := by
    intro e he g hg
    refine h g (List.mem_flatMap.mpr ⟨e, List.mem_append_left _ ?_, hg⟩)
    simpa [localsOf, hnode] using he
  have hmembers : ∀ c ∈ t.live node.classes, t.memberEntries one c = t.memberEntries two c := by
    intro c hc
    obtain ⟨i, hi, hclass⟩ := exists_of_mem_live hc
    refine memberEntries_congr fun e he g hg => ?_
    refine h g (List.mem_flatMap.mpr ⟨e, List.mem_append_right _ ?_, hg⟩)
    refine List.mem_flatMap.mpr ⟨i, ?_, by simpa [membersOf, hclass] using he⟩
    simpa [liveClassesOf, hnode] using hi
  have hfunctions : t.functionEntries one (node.locals.filter (!t.isAnonymous ·))
      = t.functionEntries two (node.locals.filter (!t.isAnonymous ·)) :=
    functionEntries_congr fun e he => hlocals e (List.mem_of_mem_filter he)
  have hanonymous : (node.locals.filter t.isAnonymous).filterMap (t.anonymousFunction? one)
      = (node.locals.filter t.isAnonymous).filterMap (t.anonymousFunction? two) :=
    List.filterMap_congr fun e he =>
      anonymousFunction?_congr (hlocals e (List.mem_of_mem_filter he) e List.mem_cons_self)
  have hclasses : ((t.live node.classes).filterMap fun c => (localName? c).map fun name =>
        (⟨name, c.jvmName, t.memberEntries one c⟩ : LocalClassEntry))
      = (t.live node.classes).filterMap fun c => (localName? c).map fun name =>
        ⟨name, c.jvmName, t.memberEntries two c⟩ :=
    List.filterMap_congr fun c hc => by rw [hmembers c hc]
  have hothers (p : ClassNode → Bool) : (((t.live node.classes).filter fun c =>
        (localName? c).isNone).filter p).map (t.anonymousClass one)
      = (((t.live node.classes).filter fun c => (localName? c).isNone).filter p).map
        (t.anonymousClass two) := by
    refine List.map_congr_left fun c hc => ?_
    rw [anonymousClass, anonymousClass,
      hmembers c (List.mem_of_mem_filter (List.mem_of_mem_filter hc))]
  simp only [bodyEntries, List.partition_eq_filter_filter, hfunctions, hanonymous, hclasses,
    hothers]

/-- The contents of a body with no functions so deep inside it are found within that depth. -/
theorem contentsWithin_add {depth : Nat} {f : FunctionId} {node : FunctionNode}
    (hnode : t.function? f = some node)
    (hnil : Levels.level t.insideWithHelpers depth [f] = []) (more : Nat) :
    t.contentsWithin (depth + more) node = t.contentsWithin depth node := by
  induction depth generalizing f node with
  | zero => exact absurd hnil (List.cons_ne_nil f [])
  | succ depth ih =>
    rw [Levels.level, List.flatMap_singleton] at hnil
    rw [Nat.succ_add, contentsWithin, contentsWithin]
    exact bodyEntries_congr hnode fun g hg n hn =>
      ih hn (Levels.level_eq_nil_of_mem t.insideWithHelpers hg hnil)

/-- Levels of functions with helpers are levels of functions, each with its helper. -/
theorem level_insideWithHelpers (depth : Nat) (roots : List FunctionId) :
    Levels.level t.insideWithHelpers depth (roots.flatMap t.withHelper)
      = (Levels.level t.insideBoth depth roots).flatMap t.withHelper := by
  induction depth generalizing roots with
  | zero => rfl
  | succ depth ih =>
    have hnext : (roots.flatMap t.withHelper).flatMap t.insideWithHelpers
        = (roots.flatMap t.insideBoth).flatMap t.withHelper := by
      rw [List.flatMap_assoc, List.flatMap_assoc]
      refine List.flatMap_congr fun f _ => ?_
      rw [insideBoth, List.flatMap_assoc]
      rfl
    rw [Levels.level, hnext, ih, Levels.level]

/-- Where a walk over functions ends, it finds with a higher limit what it finds. -/
theorem contentsWithin_of_mem_functionsFrom {roots : List FunctionId}
    (hnil : Levels.level t.insideBoth t.functions.length roots = []) {f : FunctionId}
    (hf : f ∈ t.functionsFrom roots) {node : FunctionNode} (hnode : t.function? f = some node)
    (more : Nat) : t.contentsWithin (t.functions.length + more) node = t.contents node := by
  obtain ⟨leader, hleader, hf⟩ := List.mem_flatMap.mp hf
  have hend : Levels.level t.insideBoth t.functions.length [leader] = [] :=
    Levels.forall_mem_levels t.insideBoth
      (fun g hg => Levels.level_eq_nil_of_mem t.insideBoth hg hnil)
      (fun g hg e he => Levels.level_kid_eq_nil t.insideBoth hg he) t.functions.length leader
      hleader
  have hwith := level_insideWithHelpers t.functions.length [leader] (t := t)
  rw [hend, List.flatMap_singleton, List.flatMap_nil] at hwith
  exact contentsWithin_add hnode (Levels.level_eq_nil_of_mem t.insideWithHelpers hf hwith) more

end Contents

section Nesting

variable {one two : Nesting}

/-- The entry of an object depends on what is nested in it. -/
theorem objectEntry_congr {node : ClassNode}
    (h : one node.shape.nested = two node.shape.nested) :
    t.objectEntry one node = t.objectEntry two node := by
  cases hshape : node.shape with
  | named shape =>
    have hnested : one shape.nested = two shape.nested := by
      simpa [hshape, ClassShape.nested] using h
    simp only [objectEntry, hshape, hnested]
  | localClass kind origin | facade init | defaultImpls => simp only [objectEntry, hshape]

/-- The entry of a class depends on what is nested in it and in its companion. -/
theorem classEntry_congr {node : ClassNode} (h : one node.shape.nested = two node.shape.nested)
    (hcompanion : ∀ e ∈ t.live node.shape.companion,
      one e.shape.nested = two e.shape.nested) :
    t.classEntry one node = t.classEntry two node := by
  cases hshape : node.shape with
  | named shape =>
    have hnested : one shape.nested = two shape.nested := by
      simpa [hshape, ClassShape.nested] using h
    have hslot : (t.live shape.companion.toList).head?.map (t.objectEntry one)
        = (t.live shape.companion.toList).head?.map (t.objectEntry two) := by
      refine Option.map_congr fun e he => objectEntry_congr (hcompanion e ?_)
      rw [hshape]
      exact List.mem_of_mem_head? he
    simp only [classEntry, hshape, hnested, hslot]
  | localClass kind origin | facade init | defaultImpls => simp only [classEntry, hshape]

/-- Entries of classes with no classes so deep inside them are found within that depth. -/
theorem PlacesClasses.nestedWithin_add (h : t.PlacesClasses) {depth : Nat} {ids : List ClassId}
    (hids : ∀ c ∈ ids, PlacesClasses.IsNested t c)
    (hnil : Levels.level t.nestedBoth depth (ids.filter t.isLive) = []) (more : Nat) :
    t.nestedWithin (depth + more) ids = t.nestedWithin depth ids := by
  induction depth generalizing ids with
  | zero =>
    have hlive : t.live ids = [] := by
      rw [List.eq_nil_iff_forall_not_mem]
      intro node hnode
      obtain ⟨c, hc, -⟩ := exists_of_mem_live hnode
      rw [show ids.filter t.isLive = [] from hnil] at hc
      exact absurd hc List.not_mem_nil
    rw [Nat.zero_add]
    cases more with
    | zero => rfl
    | succ more => simp [nestedWithin, hlive]
  | succ depth ih =>
    -- The classes nested in a class that is shown, or in one in its slots, are one level deeper.
    have hdeeper {c e : ClassId} (hc : c ∈ ids.filter t.isLive) (he : e ∈ t.withSlots c)
        {node : ClassNode} (hnode : t.class? e = some node) :
        t.nestedWithin (depth + more) node.shape.nested
          = t.nestedWithin depth node.shape.nested := by
      have hnested : node.shape.nested = t.nestedOf e := by simp [nestedOf, hnode]
      rw [hnested]
      refine ih (fun d hd => PlacesClasses.IsNested.of_nestedOf hd) ?_
      refine Levels.level_eq_nil_of_forall t.nestedBoth fun d hd => ?_
      refine Levels.level_eq_nil_of_mem t.nestedBoth ?_ hnil
      exact List.mem_flatMap.mpr ⟨c, hc, List.mem_flatMap.mpr ⟨e, he, hd⟩⟩
    rw [Nat.succ_add, nestedWithin, nestedWithin]
    simp only [List.partition_eq_filter_filter]
    congr 1
    · refine List.map_congr_left fun node hnode => ?_
      obtain ⟨hlive, hobject⟩ := List.mem_filter.mp hnode
      obtain ⟨c, hc, hclass⟩ := exists_of_mem_live hlive
      have hshown : t.shownAsObject c = false := by
        rw [h.shownAsObject_eq (hids c (List.mem_of_mem_filter hc)), hclass]
        simpa using hobject
      refine classEntry_congr (hdeeper hc (mem_withSlots_self t c) hclass) fun e he => ?_
      obtain ⟨i, hi, hslot⟩ := exists_of_mem_live he
      refine hdeeper hc ?_ hslot
      have hcompanion : node.shape.companion = t.companionOf c := by simp [companionOf, hclass]
      rw [withSlots, if_neg (by simp [hshown]), List.filter_append, ← hcompanion]
      exact List.mem_cons_of_mem c (List.mem_append_left _ hi)
    · refine List.map_congr_left fun node hnode => ?_
      obtain ⟨c, hc, hclass⟩ := exists_of_mem_live (List.mem_of_mem_filter hnode)
      exact objectEntry_congr (hdeeper hc (mem_withSlots_self t c) hclass)

end Nesting

namespace Orderly

/-- With a higher limit the walk finds the same in bodies of functions. -/
theorem contentsWithin_eq (h : t.Orderly) {f : FunctionId}
    (hf : f ∈ t.functionsFrom t.listed) {node : FunctionNode} (hnode : t.function? f = some node)
    (more : Nat) : t.contentsWithin (t.functions.length + more) node = t.contents node :=
  contentsWithin_of_mem_functionsFrom (h.level_inside_eq_nil (listed_subperm t)) hf hnode more

/-- With a higher limit the walk finds the same classes. -/
theorem nestedWithin_topLevel (h : t.Orderly) (more : Nat) :
    t.nestedWithin (t.classes.length + more) t.topLevel = t.nested t.topLevel :=
  h.nestedWithin_add (fun _ hc => PlacesClasses.IsNested.of_topLevel hc)
    h.level_topLevel_eq_nil more

end Orderly

end LineAtlas.SourceTree
