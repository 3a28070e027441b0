import LineAtlas.Proofs.Tree.Forwarders
import LineAtlas.Proofs.Tree.OrderIndependence
import LineAtlas.Proofs.Tree.Repeats

/-!
# Forwarders that a companion object confirms

Under the strict policy, every static method that a class passes on must be a member of its
companion object, or else the class fails. The lenient policy makes no other difference than that
these classes do not fail.
-/

namespace LineAtlas

open Draft ResolvedUnit

/-- Whether a failure says that static methods match no member of a companion object. -/
def Failure.IsAboutForwarders (failure : Failure) : Prop :=
  ∃ name signatures, failure =
    .composition name (PlacementFault.strayForwarders signatures).message

/-- A class that did not fail, as far as one can see. -/
def ClassNode.unfailed (node : ClassNode) : ClassNode := { node with failed := false }

namespace SourceTree

/-- Whether a signature is that of a member function, a constructor or an accessor of a class. -/
def HasMember (t : SourceTree) (c : ClassId) (s : Signature) : Prop :=
  ∃ node, t.class? c = some node ∧
    ∃ f ∈ node.listedFunctions, ∃ method, t.function? f = some method ∧ method.body.signature = s

/-- A tree, with a blind eye to what failed. -/
def unfailed (t : SourceTree) : SourceTree :=
  { t with classes := t.classes.map ClassNode.unfailed }

end SourceTree

/-- Two shapes that differ in their slots at most are the same if these are. -/
theorem ClassShape.eq_of_bare {s s' : ClassShape} (hbare : s.bare = s'.bare)
    (hnested : s.nested = s'.nested) (hcompanion : s.companion = s'.companion)
    (hholder : s.holder = s'.holder) : s = s' := by
  cases s with
  | named own =>
    obtain ⟨own', rfl, -⟩ := exists_named_of_bare hbare.symm
    simp only [bare, named.injEq, NamedShape.mk.injEq] at hbare
    obtain ⟨hname, hobject, hdata, hcompanionName, -⟩ := hbare
    have hslot {one two : Option ClassId} (h : one.toList = two.toList) : one = two := by
      cases one <;> cases two <;> simp_all
    exact congrArg named (NamedShape.mk.injEq .. ▸ ⟨hname, hobject, hdata, hcompanionName, hnested,
      hslot hcompanion, hslot hholder⟩)
  | localClass kind origin => cases s' <;> simp_all [bare]
  | facade init => cases s' <;> simp_all [bare]
  | defaultImpls => cases s' <;> simp_all [bare]

/-- Up to failing, a class is what it is without slots and what stands in them. -/
theorem ClassNode.unfailed_eq_of_bare {node node' : ClassNode} (hbare : node.bare = node'.bare)
    (hnested : node.shape.nested = node'.shape.nested)
    (hcompanion : node.shape.companion = node'.shape.companion)
    (hholder : node.shape.holder = node'.shape.holder) : node.unfailed = node'.unfailed := by
  have hshape : node.shape = node'.shape :=
    ClassShape.eq_of_bare (congrArg ClassNode.shape hbare) hnested hcompanion hholder
  simp only [bare, mk.injEq] at hbare
  simp only [unfailed, mk.injEq]
  exact ⟨hbare.1, hshape, hbare.2.2⟩

/-- The members of a class do not depend on what stands in slots. -/
theorem ClassNode.listedFunctions_eq_of_bare {node other : ClassNode}
    (hbare : node.bare = other.bare) : node.listedFunctions = other.listedFunctions := by
  change node.bare.listedFunctions = other.bare.listedFunctions
  rw [hbare]

namespace Draft

variable {d d' d'' : Draft} {o c : ClassId} {s : Signature}

/-- Two drafts that follow from one draft have the same class, but for whether it failed, if the
same is in its slots. -/
theorem Keeps.map_unfailed_eq (h : Keeps d d') (h' : Keeps d d'')
    (hslots : allSlotsOf d'.tree o = allSlotsOf d''.tree o) :
    (d'.tree.class? o).map ClassNode.unfailed = (d''.tree.class? o).map ClassNode.unfailed := by
  have hbare := (h.class?_bare o).trans (h'.class?_bare o).symm
  cases hnode : d''.tree.class? o with
  | none =>
    rw [hnode] at hbare
    rw [Option.map_eq_none_iff.mp hbare]
  | some node =>
    rw [hnode] at hbare
    obtain ⟨other, hother, hsame⟩ := Option.map_eq_some_iff.mp hbare
    simp only [allSlotsOf, SourceTree.nestedOf, SourceTree.companionOf, SourceTree.holderOf, hnode,
      hother, Option.toList_some, List.flatMap_singleton, Prod.mk.injEq] at hslots
    rw [hother]
    exact congrArg some (ClassNode.unfailed_eq_of_bare hsame hslots.1 hslots.2.1 hslots.2.2)

/-- Classes keep their members while they are placed. -/
theorem Keeps.hasMember (h : Keeps d d') (c : ClassId) (s : Signature) :
    d'.tree.HasMember c s ↔ d.tree.HasMember c s := by
  have hmethod (f : FunctionId) : (d'.tree.function? f).map (·.body.signature)
      = (d.tree.function? f).map (·.body.signature) :=
    h.function?_map (·.body.signature) (fun _ => rfl) f
  have hmembers (node : ClassNode) : (∃ f ∈ node.listedFunctions, ∃ method,
      d'.tree.function? f = some method ∧ method.body.signature = s) ↔
      ∃ f ∈ node.listedFunctions, ∃ method,
        d.tree.function? f = some method ∧ method.body.signature = s := by
    simp only [← Option.map_eq_some_iff, hmethod]
  constructor
  · rintro ⟨node, hnode, hmember⟩
    obtain ⟨old, hold, hbare⟩ := h.exists_old hnode
    have hlisted := ClassNode.listedFunctions_eq_of_bare hbare
    exact ⟨old, hold, (hmembers old).mp (hlisted ▸ hmember)⟩
  · rintro ⟨old, hold, hmember⟩
    obtain ⟨node, hnode, hbare⟩ := h.exists_class hold
    have hlisted := ClassNode.listedFunctions_eq_of_bare hbare
    exact ⟨node, hnode, (hmembers node).mpr (hlisted ▸ hmember)⟩

/-- The static methods that a class passes on. -/
def forwardersOf (d : Draft) (o : ClassId) : List Signature :=
  (d.sources[o]?.map (·.forwarders)).getD []

/-- A forwarder is stray when the companion has no member of its signature. -/
theorem mem_strayForwarders {node : ClassNode} (hnode : d.tree.class? c = some node)
    (hnamed : node.shape.IsNamed) :
    s ∈ d.strayForwarders o node ↔ s ∈ d.forwardersOf o ∧ ¬ d.tree.HasMember c s := by
  have hlisted : node.memberFunctions = node.listedFunctions := by
    rw [ClassNode.memberFunctions_eq, hnamed.initializers_eq_nil, List.append_nil]
  have hmember : d.tree.HasMember c s ↔
      s ∈ (node.memberFunctions.filterMap d.tree.function?).map (·.body.signature) := by
    rw [SourceTree.HasMember, hlisted, List.mem_map]
    simp only [hnode, Option.some.injEq, exists_eq_left', List.mem_filterMap]
    constructor
    · rintro ⟨f, hf, method, hmethod, hsignature⟩
      exact ⟨method, ⟨f, hf, hmethod⟩, hsignature⟩
    · rintro ⟨method, ⟨f, hf, hmethod⟩, hsignature⟩
      exact ⟨f, hf, method, hmethod, hsignature⟩
  rw [Draft.strayForwarders, List.mem_filter, hmember, forwardersOf]
  simp

/-- Under the strict policy, it is a fault if a member is missing. -/
theorem forwarderFault?_strict {node : ClassNode} (hnode : d.tree.class? c = some node)
    (hnamed : node.shape.IsNamed) : d.forwarderFault? .strict o c = none ↔
      ∀ s ∈ d.forwardersOf o, d.tree.HasMember c s := by
  have hstrays : d.forwarderFault? .strict o c = none ↔ d.strayForwarders o node = [] := by
    unfold forwarderFault?
    rw [hnode, Option.map_some]
    cases d.strayForwarders o node with
    | nil => simp
    | cons first others => simp
  rw [hstrays, List.eq_nil_iff_forall_not_mem]
  simp only [mem_strayForwarders hnode hnamed, not_and, not_not]

/-- The lenient policy overlooks the faults of forwarders, and nothing else. -/
theorem companionFault?_lenient (d : Draft) (o : ClassId) (fault : PlacementFault) :
    d.companionFault? .lenient o = some fault ↔ d.companionFault? .strict o = some fault ∧
      ∀ signatures, fault.message ≠ (PlacementFault.strayForwarders signatures).message := by
  have hopening {name : ClassName} {signatures : List Signature} :
      (PlacementFault.companionNotFound name).message
        ≠ (PlacementFault.strayForwarders signatures).message := fun hmessage =>
    absurd (PlacementFault.opening_eq_of_message_eq hmessage) (by simp [PlacementFault.opening])
  unfold companionFault?
  cases d.expected? o with
  | none => simp
  | some name =>
    rw [Option.bind_some, Option.bind_some]
    cases d.chosen? o with
    | none =>
      constructor
      · rintro ⟨⟩
        exact ⟨rfl, fun signatures => hopening⟩
      · exact fun h => h.1
    | some c =>
      dsimp only
      unfold forwarderFault?
      cases (d.tree.class? c).map (d.strayForwarders o) with
      | none => simp
      | some strays =>
        cases strays with
        | nil => simp
        | cons first others =>
          constructor
          · simp
          · rintro ⟨⟨⟩, hother⟩
            exact absurd rfl (hother (first :: others))

/-- The lenient policy blames a class for what the strict one does, but for forwarders. -/
theorem companionBlame?_lenient (d : Draft) (o : ClassId) (e : ClassFailure) :
    d.companionBlame? .lenient o = some e ↔
      d.companionBlame? .strict o = some e ∧ ¬ e.failure.IsAboutForwarders := by
  unfold companionBlame?
  cases d.tree.class? o with
  | none => simp
  | some node =>
    simp only [Option.bind_some, Option.map_eq_some_iff, companionFault?_lenient]
    constructor
    · rintro ⟨fault, ⟨hfault, hother⟩, rfl⟩
      refine ⟨⟨fault, hfault, rfl⟩, ?_⟩
      rintro ⟨name, signatures, hfailure⟩
      exact hother signatures (Failure.composition.inj hfailure).2
    · rintro ⟨⟨fault, hfault, rfl⟩, hother⟩
      exact ⟨fault, ⟨hfault, fun signatures hmessage =>
        hother ⟨node.jvmName, signatures, congrArg _ hmessage⟩⟩, rfl⟩

/-- What is chosen for the slot of a companion object has a name of its own. -/
theorem exists_named_of_chosen? (hchosen : d.chosen? o = some c) :
    ∃ node, d.tree.class? c = some node ∧ node.shape.IsNamed := by
  rw [chosen?_eq_find?] at hchosen
  obtain ⟨name, -, hfind⟩ := Option.bind_eq_some_iff.mp hchosen
  have hname : d.declaredName? c = some name := by simpa using List.find?_some hfind
  obtain ⟨node, hnode, hdeclared⟩ := Option.bind_eq_some_iff.mp hname
  refine ⟨node, hnode, ?_⟩
  cases hshape : node.shape with
  | named shape => exact ⟨shape, rfl⟩
  | localClass kind origin => simp [ClassNode.declaredName?, hshape] at hdeclared
  | facade init => simp [ClassNode.declaredName?, hshape] at hdeclared
  | defaultImpls => simp [ClassNode.declaredName?, hshape] at hdeclared

/-- All classes are in their places but the companion objects, and no two units have the same
name. -/
structure AwaitsCompanions (units : List (String × ResolvedUnit)) (present : List ResolvedUnit)
    (d d' : Draft) : Prop where
  /-- No two units have the same name. -/
  names : ((units.map Prod.snd).filterMap jvmName?).Nodup
  /-- Before, the classes were only added. -/
  prepared : Prepared d present (accepted units) []
  /-- Then they were put into their places. -/
  settles : Settles d.home? d.blame? d d' (Prepared.waiting d)
  /-- They have the forwarders of their units. -/
  sourced : Sourced units d
  /-- Nothing was found out about these yet. -/
  early : ∀ e ∈ d'.failures, ¬ e.failure.IsAboutForwarders

namespace AwaitsCompanions

variable {units : List (String × ResolvedUnit)} {present : List ResolvedUnit}
  {policy : AccountingPolicy} {node : ClassNode}

/-- Placing companions moves those of all classes with names of their own. -/
theorem moves (h : AwaitsCompanions units present d d') (policy : AccountingPolicy) :
    Moves policy d' (placeCompanions policy d').2 d.named := h.prepared.moves h.settles policy

/-- Placing companions keeps the members of classes. -/
theorem keeps (h : AwaitsCompanions units present d d') (policy : AccountingPolicy) :
    Keeps d (placeCompanions policy d').2 := h.settles.keeps.trans (h.moves policy).keeps

/-- Under both policies, the trees are the same but for what failed. -/
theorem unfailed_eq (h : AwaitsCompanions units present d d') :
    (placeCompanions .lenient d').2.tree.unfailed
      = (placeCompanions .strict d').2.tree.unfailed := by
  have hlenient := h.moves .lenient
  have hstrict := h.moves .strict
  have hslots (o : ClassId) : allSlotsOf (placeCompanions .lenient d').2.tree o
      = allSlotsOf (placeCompanions .strict d').2.tree o := by
    by_cases ho : o ∈ d.named
    · rw [hlenient.moved o ho, hstrict.moved o ho]
    · rw [hlenient.stayed o ho, hstrict.stayed o ho]
  have hclasses : (placeCompanions .lenient d').2.tree.unfailed.classes
      = (placeCompanions .strict d').2.tree.unfailed.classes := by
    refine List.ext_getElem? fun o => ?_
    rw [SourceTree.unfailed, SourceTree.unfailed, List.getElem?_map, List.getElem?_map]
    exact hlenient.keeps.map_unfailed_eq hstrict.keeps (hslots o)
  rw [SourceTree.unfailed, SourceTree.unfailed, SourceTree.mk.injEq]
  exact ⟨hlenient.keeps.path.trans hstrict.keeps.path.symm,
    hlenient.bodies.trans hstrict.bodies.symm, hclasses,
    hlenient.topLevel.trans hstrict.topLevel.symm,
    hlenient.keeps.facades.trans hstrict.keeps.facades.symm⟩

/-- The failures of the lenient policy are those of the strict one that are not about forwarders. -/
theorem mem_failures_lenient (h : AwaitsCompanions units present d d') (e : ClassFailure) :
    e ∈ (placeCompanions .lenient d').2.failures ↔
      e ∈ (placeCompanions .strict d').2.failures ∧ ¬ e.failure.IsAboutForwarders := by
  rw [(h.moves .lenient).blamed, (h.moves .strict).blamed]
  simp only [List.mem_append, List.mem_filterMap, companionBlame?_lenient]
  constructor
  · rintro (he | ⟨o, ho, hblame, hother⟩)
    · exact ⟨Or.inl he, h.early e he⟩
    · exact ⟨Or.inr ⟨o, ho, hblame⟩, hother⟩
  · rintro ⟨he | ⟨o, ho, hblame⟩, hother⟩
    · exact Or.inl he
    · exact Or.inr ⟨o, ho, hblame, hother⟩

/-- A class failed if a failure names it. -/
theorem isFailed_iff (h : AwaitsCompanions units present d d') (policy : AccountingPolicy)
    (o : ClassId) : (placeCompanions policy d').2.tree.isFailed o = true ↔
      ∃ name, d.nameAt? o = some name ∧ name ∈ namesOf (placeCompanions policy d').2.failures :=
  h.prepared.isFailed_iff (h.keeps policy) o

/-- Classes keep their internal names until companions are placed. -/
theorem nameAt?_eq (h : AwaitsCompanions units present d d')
    (hnode : d'.tree.class? o = some node) : d.nameAt? o = some node.jvmName := by
  rw [nameAt?, ← h.settles.keeps.class?_map ClassNode.jvmName (fun _ => rfl) o, hnode,
    Option.map_some]

/-- The units that are there are among those that were added. -/
theorem mem_units (h : AwaitsCompanions units present d d') {u : ResolvedUnit}
    (hu : present[o]? = some u) : u ∈ units.map Prod.snd :=
  (mem_of_mem_accepted (h.prepared.mem_kept hu)).1

/-- A class is that of the unit of its name. -/
theorem present_of_jvmName (h : AwaitsCompanions units present d d') {file : String}
    {u : ClassUnit} (hu : (file, .classUnit u) ∈ units) (hname : d.nameAt? o = some u.jvmName) :
    present[o]? = some (.classUnit u) := by
  obtain ⟨node, hnode, hjvm⟩ := Option.map_eq_some_iff.mp hname
  obtain ⟨v, hv, hstands⟩ := h.prepared.laid.exists_unit hnode
  rwa [eq_of_names_nodup h.names (h.mem_units hv) (List.mem_map_of_mem hu)
    (hstands.jvmName.trans (congrArg some hjvm)) rfl] at hv

/-- A class passes on the forwarders of its unit. -/
theorem forwardersOf_eq (h : AwaitsCompanions units present d d') {u : ClassUnit}
    (hu : present[o]? = some (.classUnit u)) :
    d'.forwardersOf o = u.members.forwarders.map (·.signature) := by
  obtain ⟨node, hnode, hstands⟩ := h.prepared.laid.exists_class hu
  obtain ⟨shape, hshape, -⟩ := ClassShape.exists_named_of_bare hstands.2
  obtain ⟨file, v, hv, hname, hsource⟩ := h.sourced.unit o node hnode ⟨shape, hshape⟩
  have hsame : ResolvedUnit.classUnit v = .classUnit u :=
    eq_of_names_nodup h.names (List.mem_map_of_mem hv) (h.mem_units hu) (congrArg some hname)
      hstands.jvmName
  obtain rfl := ResolvedUnit.classUnit.inj hsame
  rw [forwardersOf, h.settles.keeps.sources, hsource]
  rfl

/-- Nothing is wrong with the companion object of a class that did not fail. -/
theorem companionFault?_eq_none (h : AwaitsCompanions units present d d') (ho : o ∈ d.named)
    (hlive : (placeCompanions policy d').2.tree.isFailed o = false) :
    d'.companionFault? policy o = none := by
  cases hfault : d'.companionFault? policy o with
  | none => rfl
  | some fault =>
    obtain ⟨name, hexpected, -⟩ := Option.bind_eq_some_iff.mp hfault
    obtain ⟨node, hnode, -⟩ := Option.bind_eq_some_iff.mp hexpected
    have hblame : d'.companionBlame? policy o = some (d'.failureOf o node fault) := by
      rw [companionBlame?, hnode, Option.bind_some, hfault, Option.map_some]
    have hreported : d'.failureOf o node fault ∈ (placeCompanions policy d').2.failures := by
      rw [(h.moves policy).blamed]
      exact List.mem_append_right _ (List.mem_filterMap.mpr ⟨o, ho, hblame⟩)
    have hfailed := (h.isFailed_iff policy o).mpr
      ⟨_, h.nameAt?_eq hnode, List.mem_filterMap.mpr ⟨_, hreported, rfl⟩⟩
    rw [hlive] at hfailed
    simp at hfailed

/-- Under the strict policy, the companion object of a class that did not fail has a member for
every forwarder. -/
theorem confirms (h : AwaitsCompanions units present d d') {u : ClassUnit}
    (hu : present[o]? = some (.classUnit u))
    (hlive : (placeCompanions .strict d').2.tree.isFailed o = false)
    (hcompanion : u.companion ≠ none) :
    ∃ c, (placeCompanions .strict d').2.tree.companionOf o = [c] ∧
      ∀ body ∈ u.members.forwarders,
        (placeCompanions .strict d').2.tree.HasMember c body.signature := by
  have hfault := h.companionFault?_eq_none (h.prepared.mem_named.mpr ⟨u, hu⟩) hlive
  obtain ⟨name, hexpected⟩ : ∃ name, d'.expected? o = some name := by
    obtain ⟨old, hold, hstands⟩ := h.prepared.laid.exists_class hu
    obtain ⟨mid, hmid, hbare⟩ := h.settles.keeps.exists_class hold
    obtain ⟨own, hown, -, -, hsame⟩ :=
      ClassShape.exists_named_of_bare (hstands.of_bare hbare).2
    obtain ⟨companion, hsome⟩ := Option.ne_none_iff_exists'.mp hcompanion
    have hcompanionName : own.companionName = some companion := hsame.trans hsome
    exact ⟨own.declaredName.nested companion, by
      simp [Draft.expected?, hmid, ClassNode.expected?, hown, hcompanionName]⟩
  rw [companionFault?, hexpected, Option.bind_some] at hfault
  cases hchosen : d'.chosen? o with
  | none => simp [hchosen] at hfault
  | some c =>
    rw [hchosen] at hfault
    obtain ⟨companion, hclass, hnamed⟩ := exists_named_of_chosen? hchosen
    refine ⟨c, ?_, fun body hbody => ?_⟩
    · rw [h.prepared.companionOf_moved h.settles (h.moves .strict), hchosen]
      rfl
    · rw [(h.moves .strict).keeps.hasMember]
      refine (forwarderFault?_strict hclass hnamed).mp hfault _ ?_
      rw [h.forwardersOf_eq hu]
      exact List.mem_map_of_mem hbody

/-- A failure about forwarders is that of a class whose companion object has no member for one of
them. -/
theorem exists_stray_of_mem (h : AwaitsCompanions units present d d') {e : ClassFailure}
    (he : e ∈ (placeCompanions .strict d').2.failures) (habout : e.failure.IsAboutForwarders) :
    ∃ o u c, present[o]? = some (.classUnit u) ∧ e.className = d.nameAt? o ∧
      (placeCompanions .strict d').2.tree.companionOf o = [c] ∧
      ∃ body ∈ u.members.forwarders,
        ¬ (placeCompanions .strict d').2.tree.HasMember c body.signature := by
  rw [(h.moves .strict).blamed, List.mem_append, List.mem_filterMap] at he
  obtain ⟨o, ho, hblame⟩ := he.resolve_left fun hearly => h.early e hearly habout
  obtain ⟨u, hu⟩ := h.prepared.mem_named.mp ho
  obtain ⟨node, hnode, hblame⟩ := Option.bind_eq_some_iff.mp hblame
  obtain ⟨fault, hfault, rfl⟩ := Option.map_eq_some_iff.mp hblame
  obtain ⟨name, hexpected, hfault⟩ := Option.bind_eq_some_iff.mp hfault
  cases hchosen : d'.chosen? o with
  | none =>
    -- That there is no companion object is worded otherwise.
    rw [hchosen] at hfault
    obtain rfl := Option.some.inj hfault
    obtain ⟨other, signatures, hsame⟩ := habout
    have hopening := PlacementFault.opening_eq_of_message_eq (Failure.composition.inj hsame).2
    simp [PlacementFault.opening] at hopening
  | some c =>
    rw [hchosen] at hfault
    obtain ⟨companion, hclass, hnamed⟩ := exists_named_of_chosen? hchosen
    have hmissing : ¬ ∀ s ∈ d'.forwardersOf o, d'.tree.HasMember c s := fun hall => by
      have hnone := (forwarderFault?_strict hclass hnamed).mpr hall
      exact Option.some_ne_none fault (hfault.symm.trans hnone)
    rw [h.forwardersOf_eq hu, List.forall_mem_map] at hmissing
    push Not at hmissing
    obtain ⟨body, hbody, hstray⟩ := hmissing
    refine ⟨o, u, c, hu, (h.nameAt?_eq hnode).symm, ?_, body, hbody, ?_⟩
    · rw [h.prepared.companionOf_moved h.settles (h.moves .strict), hchosen]
      rfl
    · rwa [(h.moves .strict).keeps.hasMember]

/-- Where the strict policy fails a class and the lenient one does not, the companion object has no
member for a forwarder. -/
theorem exists_stray (h : AwaitsCompanions units present d d')
    (hstrict : (placeCompanions .strict d').2.tree.isFailed o = true)
    (hlenient : (placeCompanions .lenient d').2.tree.isFailed o = false) :
    ∃ u c, present[o]? = some (.classUnit u) ∧
      (placeCompanions .strict d').2.tree.companionOf o = [c] ∧
      ∃ body ∈ u.members.forwarders,
        ¬ (placeCompanions .strict d').2.tree.HasMember c body.signature := by
  obtain ⟨name, hname, hmem⟩ := (h.isFailed_iff .strict o).mp hstrict
  obtain ⟨e, he, hclass⟩ := List.mem_filterMap.mp hmem
  have habout : e.failure.IsAboutForwarders := by
    by_contra hother
    have hfailed := (h.isFailed_iff .lenient o).mpr ⟨name, hname,
      List.mem_filterMap.mpr ⟨e, (h.mem_failures_lenient e).mpr ⟨he, hother⟩, hclass⟩⟩
    rw [hlenient] at hfailed
    simp at hfailed
  obtain ⟨i, u, c, hu, hi, hstray⟩ := h.exists_stray_of_mem he habout
  obtain rfl := eq_of_nameAt? h.prepared.names_nodup hname (hi.symm.trans hclass)
  exact ⟨u, c, hu, hstray⟩

end AwaitsCompanions

/-- Before companion objects are placed, no failure is about forwarders. -/
theorem not_isAboutForwarders (path : String) (units : List (String × ResolvedUnit)) :
    ∀ e ∈ (placeNestedClasses (placeLocalClasses
        (placeHolders (addAll units (empty path))).2).2).2.failures,
      ¬ e.failure.IsAboutForwarders := by
  have hadding : Notes (·.pass ≠ .companions)
      (units.forM fun unit : String × ResolvedUnit => add unit.1 unit.2) :=
    notes_forM fun unit _ => (notes_add unit.1 unit.2).mono fun fault hpass => by simp [hpass]
  have hholders : Notes (·.pass ≠ .companions) placeHolders :=
    notes_placeHolders.mono fun fault hpass => by rcases hpass with hpass | hpass <;> simp [hpass]
  have hlocals : Notes (·.pass ≠ .companions) placeLocalClasses :=
    notes_placeLocalClasses.mono fun fault hpass => by simp [hpass]
  have hnested : Notes (·.pass ≠ .companions) placeNestedClasses :=
    notes_placeNestedClasses.mono fun fault hpass => by simp [hpass]
  obtain ⟨noted, hnoted, hfaults⟩ :=
    (((hadding (empty path)).trans (hholders _)).trans (hlocals _)).trans (hnested _)
  intro e he habout
  have hmem : e ∈ (empty path).failures ++ noted := hnoted ▸ he
  obtain ⟨name, fault, hfault, hfailure⟩ := hfaults e hmem
  obtain ⟨other, signatures, hsame⟩ := habout
  exact hfault (PlacementFault.pass_eq_of_message_eq
    (Failure.composition.inj (hfailure.symm.trans hsame)).2)

/-- A composition is a draft whose companion objects were placed last. -/
theorem exists_awaitsCompanions (path : String) {units : List (String × ResolvedUnit)}
    (hnames : ((units.map Prod.snd).filterMap jvmName?).Nodup) :
    ∃ present d d', AwaitsCompanions units present d d' ∧
      ∀ policy, SourceTree.compose path policy units
        = ⟨(placeCompanions policy d').2.tree, (placeCompanions policy d').2.failures⟩ := by
  have hadded : Added (addAll units (empty path)) (accepted units) (rejected units) :=
    (Added.empty path).all units
  obtain ⟨present, hprepared⟩ := hadded.prepared (accepted_names_nodup units)
  rw [(accepted_eq_of_nodup hnames).2] at hprepared
  exact ⟨present, _, _, ⟨hnames, hprepared, hprepared.settles, sourced_placeHolders path units,
    not_isAboutForwarders path units⟩, fun policy => rfl⟩

end Draft

namespace SourceTree

/-- Every class with forwarders that did not fail has a companion object with a member for each. -/
def ConfirmsForwarders (t : SourceTree) (units : List (String × ResolvedUnit)) : Prop :=
  ∀ o node file u, t.class? o = some node → node.failed = false →
    (file, .classUnit u) ∈ units → u.jvmName = node.jvmName → u.members.forwarders ≠ [] →
      ∃ c, t.companionOf o = [c] ∧ ∀ body ∈ u.members.forwarders, t.HasMember c body.signature

/-- A tree differs from a strict one in that classes did not fail that only forwarders made fail. -/
structure Spares (lenient strict : SourceTree) (units : List (String × ResolvedUnit))
    (failures : List ClassFailure) : Prop where
  /-- Nothing else differs. -/
  same : lenient.unfailed = strict.unfailed
  /-- What failed for something else failed all the same. -/
  failed : ∀ o node, strict.class? o = some node → (lenient.isFailed o = true ↔
    node.failed = true ∧ ∃ e ∈ failures, e.className = some node.jvmName ∧
      ¬ e.failure.IsAboutForwarders)
  /-- The companion objects of the others have no members for some forwarders. -/
  strays : ∀ o node, strict.class? o = some node → node.failed = true →
    lenient.isFailed o = false → ∃ file u c, (file, .classUnit u) ∈ units ∧
      u.jvmName = node.jvmName ∧ strict.companionOf o = [c] ∧
      ∃ body ∈ u.members.forwarders, ¬ strict.HasMember c body.signature

/-- Where no two units have the same name. -/
theorem compose_confirms (path : String) {units : List (String × ResolvedUnit)}
    (hnames : ((units.map Prod.snd).filterMap jvmName?).Nodup)
    (hforwards : ∀ u ∈ units.map Prod.snd, u.ForwardsToCompanion) :
    (compose path .strict units).tree.ConfirmsForwarders units ∧
      Spares (compose path .lenient units).tree (compose path .strict units).tree units
        (compose path .strict units).failures := by
  obtain ⟨present, d, d', h, hcompose⟩ := exists_awaitsCompanions path hnames
  rw [hcompose, hcompose]
  have hisFailed {policy : AccountingPolicy} {o : ClassId} {node : ClassNode}
      (hnode : (placeCompanions policy d').2.tree.class? o = some node) :
      (placeCompanions policy d').2.tree.isFailed o = node.failed := by
    rw [isFailed, hnode, Option.any_some]
  have hname {o : ClassId} {node : ClassNode}
      (hnode : (placeCompanions .strict d').2.tree.class? o = some node) :
      d.nameAt? o = some node.jvmName := by
    rw [nameAt?, ← (h.keeps .strict).class?_map ClassNode.jvmName (fun _ => rfl) o, hnode,
      Option.map_some]
  refine ⟨fun o node file u hnode hlive hu hjvm hforwarders => ?_, h.unfailed_eq,
    fun o node hnode => ?_, fun o node hnode hfailed hlenient => ?_⟩
  · refine h.confirms (h.present_of_jvmName hu (hjvm ▸ hname hnode)) ?_ fun hnone => ?_
    · rw [hisFailed hnode, hlive]
    · exact hforwarders (hforwards _ (List.mem_map_of_mem hu) hnone)
  · rw [h.isFailed_iff, ← hisFailed hnode, h.isFailed_iff, hname hnode]
    simp only [Option.some.injEq, exists_eq_left', namesOf, List.mem_filterMap,
      h.mem_failures_lenient]
    constructor
    · rintro ⟨e, ⟨he, hother⟩, hclass⟩
      exact ⟨⟨e, he, hclass⟩, e, he, hclass, hother⟩
    · rintro ⟨-, e, he, hclass, hother⟩
      exact ⟨e, ⟨he, hother⟩, hclass⟩
  · obtain ⟨u, c, hu, hcompanion, hstray⟩ :=
      h.exists_stray ((hisFailed hnode).trans hfailed) hlenient
    obtain ⟨⟨file, v⟩, hmem, rfl⟩ := List.mem_map.mp (h.mem_units hu)
    obtain ⟨old, hold, hstands⟩ := h.prepared.laid.exists_class hu
    have hjvm : d.nameAt? o = some u.jvmName :=
      (congrArg (Option.map ClassNode.jvmName) hold).trans hstands.jvmName.symm
    exact ⟨file, u, c, hmem, Option.some.inj (hjvm.symm.trans (hname hnode)), hcompanion, hstray⟩

/-- What is composed of class files has no forwarders that a companion object does not confirm, if
the policy is strict. If it is lenient, the classes that have some do not fail for them, and
that is all. The failures of repeats do not count: they bear the name of an earlier unit, whose
class they do not fail. -/
theorem compose_confirmsForwarders (path : String) {added : List (String × ResolvedUnit)}
    (hresolved : ∀ u ∈ added.map Prod.snd, u.IsResolved) :
    (compose path .strict added).tree.ConfirmsForwarders (withoutRepeats added) ∧
      Spares (compose path .lenient added).tree (compose path .strict added).tree
        (withoutRepeats added) (compose path .strict (withoutRepeats added)).failures := by
  have htree (policy : AccountingPolicy) :
      (compose path policy added).tree = (compose path policy (withoutRepeats added)).tree := by
    obtain ⟨found, hcompose, -⟩ := compose_eq_withFailures path policy added
    rw [hcompose]
  rw [htree, htree]
  refine compose_confirms path (withoutRepeats_nodup added) fun u hu => ?_
  exact (hresolved u (List.map_subset _ (withoutRepeats_subset added) hu)).forwardsToCompanion

/-- A static method with a line. -/
def staticCreate : Method := ⟨0x9, ⟨"create", "()V"⟩, .ofList [4]⟩

/-- A companion object with a function `create`. -/
def creatingCompanion : ClassFile :=
  { name := "A$B", superName := some "java/lang/Object", interfaces := [], access := 0x21
    sourceFile := none, enclosing := none, fields := []
    methods := [⟨0x1, ⟨"create", "()V"⟩, .ofList [4]⟩]
    annotations := [⟨"Lkotlin/Metadata;", [("k", .int 1), ("mv", .array [.int 1, .int 9]),
      ("d1", .array [.string
        "\x00\x00\x08\x06\x18\x00J\x0bH\x06\x10\x01¢\x06\x04\x08\x01\x10\x02"]),
      ("d2", .array [.string "A.B", .string "create", .string "()V"])]⟩] }

/-- A class with a static method `create`, and its companion object. -/
def creatingClass : List (String × ResolvedUnit) :=
  [("A.class", .classUnit ⟨"A", ⟨"", "A"⟩, false, false, false, some "B",
      { forwarders := [staticCreate.body] }⟩),
    ("A$B.class", .classUnit ⟨"A$B", ⟨"", "A.B"⟩, false, false, false, none,
      { functions := [⟨"create", some "()", false, staticCreate.body, none⟩] }⟩)]

/-- The units of `creatingClass` are what some class files contribute. -/
theorem creatingClass_isResolved : ∀ u ∈ creatingClass.map Prod.snd, u.IsResolved := by
  have hclass : (classUnit ⟨"A", ⟨"", "A"⟩, false, false, false, some "B",
      { forwarders := [staticCreate.body] }⟩).IsResolved :=
    (classFile "A" "A" (some "B") [staticCreate]).isResolved .strict (by decide +kernel)
  have hcompanion : (classUnit ⟨"A$B", ⟨"", "A.B"⟩, false, false, false, none,
      { functions := [⟨"create", some "()", false, staticCreate.body, none⟩] }⟩).IsResolved :=
    creatingCompanion.isResolved .strict (by decide +kernel)
  simpa [creatingClass] using ⟨hclass, hcompanion⟩

/-- The companion object confirms the static method, so the class does not fail. -/
theorem compose_confirmsForwarders_creatingClass :
    let strict := (compose "A.kt" .strict creatingClass).tree
    (∀ u ∈ creatingClass.map Prod.snd, u.IsResolved) ∧ strict.isFailed 0 = false ∧
      strict.ConfirmsForwarders (withoutRepeats creatingClass) ∧
      Spares (compose "A.kt" .lenient creatingClass).tree strict (withoutRepeats creatingClass)
        (compose "A.kt" .strict (withoutRepeats creatingClass)).failures := by
  have hlive : (compose "A.kt" .strict creatingClass).tree.isFailed 0 = false := by
    rw [compose_of_pairwise "A.kt" .strict rfl (by decide +kernel)]
    decide +kernel
  exact ⟨creatingClass_isResolved, hlive,
    compose_confirmsForwarders "A.kt" creatingClass_isResolved⟩

end SourceTree

end LineAtlas
