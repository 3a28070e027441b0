import LineAtlas.Proofs.Tree.Laid
import LineAtlas.Tree.Placement

/-!
# Adding units

Of several units with the same internal name the first is kept and the others are rejected.
After all units are added, there is a class for every kept unit but the holders, which wait for
their interfaces.
-/

namespace LineAtlas

namespace ResolvedUnit

/-- Whether a unit is a class with a name of its own. -/
def isClass : ResolvedUnit → Bool
  | .classUnit _ => true
  | _ => false

/-- Whether a unit is a local class. -/
def isLocal : ResolvedUnit → Bool
  | .localClass _ => true
  | _ => false

/-- Whether a unit is the top level of a file. -/
def isFacade : ResolvedUnit → Bool
  | .facade _ => true
  | _ => false

/-- Whether a unit is a holder of bodies. -/
def isHolder : ResolvedUnit → Bool
  | .defaultImpls _ => true
  | _ => false

/-- The declared name, when the unit has one. -/
def declaredName? : ResolvedUnit → Option ClassName
  | .classUnit u => some u.declaredName
  | _ => none

/-- The name of every local function continues the key of a member. Holders have no local
functions before they have their interfaces. -/
def LocalsFit : ResolvedUnit → Prop
  | .classUnit u => u.members.LocalsFit
  | .localClass u => u.members.LocalsFit
  | .facade u => u.members.LocalsFit
  | .defaultImpls _ | .opaqueUnit | .foreign => True

/-- A unit is a class exactly if it is made by that constructor. -/
theorem isClass_iff {u : ResolvedUnit} : u.isClass = true ↔ ∃ w, u = .classUnit w := by
  cases u <;> simp [isClass]

/-- A unit is a local class exactly if it is made by that constructor. -/
theorem isLocal_iff {u : ResolvedUnit} : u.isLocal = true ↔ ∃ w, u = .localClass w := by
  cases u <;> simp [isLocal]

/-- A unit is a facade exactly if it is made by that constructor. -/
theorem isFacade_iff {u : ResolvedUnit} : u.isFacade = true ↔ ∃ w, u = .facade w := by
  cases u <;> simp [isFacade]

/-- A unit is a holder exactly if it is made by that constructor. -/
theorem isHolder_iff {u : ResolvedUnit} : u.isHolder = true ↔ ∃ w, u = .defaultImpls w := by
  cases u <;> simp [isHolder]

/-- Only classes have declared names. -/
theorem declaredName?_eq_some_iff {u : ResolvedUnit} {name : ClassName} :
    u.declaredName? = some name ↔ ∃ w, u = .classUnit w ∧ w.declaredName = name := by
  cases u <;> simp [declaredName?]

end ResolvedUnit

/-- Only classes with names of their own have a shape with slots. -/
theorem ClassNode.StandsFor.exists_classUnit {node : ClassNode} {u : ResolvedUnit}
    (h : node.StandsFor u) (hnamed : node.shape.IsNamed) : ∃ w, u = .classUnit w := by
  obtain ⟨shape, hshape⟩ := hnamed
  cases u with
  | classUnit w => exact ⟨w, rfl⟩
  | localClass w => simp [h.2] at hshape
  | facade w =>
    obtain ⟨init, hinit⟩ := h.2.1
    simp [hinit] at hshape
  | defaultImpls w => simp [h.2] at hshape
  | opaqueUnit => exact h.elim
  | foreign => exact h.elim

/-- Only holders have the shape of holders. -/
theorem ClassNode.StandsFor.exists_defaultImpls {node : ClassNode} {u : ResolvedUnit}
    (h : node.StandsFor u) (hshape : node.shape = .defaultImpls) : ∃ w, u = .defaultImpls w := by
  cases u with
  | classUnit w =>
    have hbare := h.2
    simp [hshape, ClassShape.bare] at hbare
  | localClass w => simp [h.2] at hshape
  | facade w =>
    obtain ⟨init, hinit⟩ := h.2.1
    simp [hinit] at hshape
  | defaultImpls w => exact ⟨w, rfl⟩
  | opaqueUnit => exact h.elim
  | foreign => exact h.elim

namespace Draft

open ResolvedUnit

/-- The failures of a draft are about failed classes and about others. -/
def Reports (d : Draft) (others : List String) : Prop :=
  ∀ n, n ∈ namesOf d.failures ↔
    n ∈ others ∨ ∃ node ∈ d.tree.classes, node.failed = true ∧ node.jvmName = n

/-- A draft whose classes stand for units, in order, before any class is in a place. -/
structure Holds (d : Draft) (units : List ResolvedUnit) (others : List String) : Prop where
  /-- Every unit has a class with a block. -/
  laid : Laid d.tree.classes d.tree.functions units
  /-- Classes with names of their own. -/
  named : d.named = Lists.positions isClass units
  /-- Local classes. -/
  localClasses : d.localClasses = Lists.positions isLocal units
  /-- Top levels of the file. -/
  facades : d.tree.facades = Lists.positions isFacade units
  /-- No class is at the top level. -/
  topLevel : d.tree.topLevel = []
  /-- No class is nested in another one. -/
  slots : ∀ node ∈ d.tree.classes, node.shape.nested = [] ∧ node.shape.companion = []
  /-- Failed classes are reported. -/
  failures : Reports d others

/-- A draft with one more class, which stands for a unit. -/
def withUnit (d : Draft) (block : List FunctionNode) (node : ClassNode) (source : ClassSource)
    (new : List ClassFailure) (u : ResolvedUnit) : Draft :=
  let id := d.tree.classes.length
  { d.withClass block node source new with
    tree := { (d.withClass block node source new).tree with
      facades := d.tree.facades ++ if u.isFacade then [id] else [] }
    named := d.named ++ if u.isClass then [id] else []
    localClasses := d.localClasses ++ if u.isLocal then [id] else [] }

/-- Failures name classes part by part. -/
@[simp]
theorem namesOf_append (one two : List ClassFailure) :
    namesOf (one ++ two) = namesOf one ++ namesOf two := List.filterMap_append

/-- What a new class of a draft has to be. -/
structure Joins (d : Draft) (block : List FunctionNode) (node : ClassNode)
    (new : List ClassFailure) (u : ResolvedUnit) : Prop where
  /-- It stands for a unit. -/
  stands : node.StandsFor u
  /-- Its functions are a block. -/
  fills : Fills d.tree.functions.length node block u.placed
  /-- No class is nested in it. -/
  slots : node.shape.nested = [] ∧ node.shape.companion = []
  /-- It is reported if it failed. -/
  failures : namesOf new = if node.failed then [node.jvmName] else []

/-- A draft holds a unit that joins it behind those it held. -/
theorem Holds.withUnit {d : Draft} {units : List ResolvedUnit} {others : List String}
    (h : Holds d units others) {block : List FunctionNode} {node : ClassNode}
    {new : List ClassFailure} {u : ResolvedUnit} (hjoins : Joins d block node new u)
    (source : ClassSource) :
    Holds (d.withUnit block node source new u) (units ++ [u]) others where
  laid := h.laid.snoc hjoins.stands hjoins.fills
  named := by
    rw [Lists.positions_append_singleton, ← h.named, ← h.laid.length_eq]
    rfl
  localClasses := by
    rw [Lists.positions_append_singleton, ← h.localClasses, ← h.laid.length_eq]
    rfl
  facades := by
    rw [Lists.positions_append_singleton, ← h.facades, ← h.laid.length_eq]
    rfl
  topLevel := h.topLevel
  slots := fun other hother => by
    rcases List.mem_append.mp hother with hother | hother
    · exact h.slots other hother
    · rw [List.mem_singleton.mp hother]
      exact hjoins.slots
  failures := fun n => by
    have hnew : n ∈ namesOf new ↔ node.failed = true ∧ node.jvmName = n := by
      rw [hjoins.failures]
      by_cases hfailed : node.failed = true
      · simp [hfailed, eq_comm]
      · simp [hfailed]
    change n ∈ namesOf (d.failures ++ new) ↔ n ∈ others ∨ ∃ other ∈ d.tree.classes ++ [node], _
    rw [namesOf_append, List.mem_append, h.failures, hnew]
    constructor
    · rintro ((hother | ⟨other, hmem, hfailed⟩) | hfailed)
      · exact Or.inl hother
      · exact Or.inr ⟨other, List.mem_append_left _ hmem, hfailed⟩
      · exact Or.inr ⟨node, List.mem_append_right _ List.mem_cons_self, hfailed⟩
    · rintro (hother | ⟨other, hmem, hfailed⟩)
      · exact Or.inl (Or.inl hother)
      · rcases List.mem_append.mp hmem with hmem | hmem
        · exact Or.inl (Or.inr ⟨other, hmem, hfailed⟩)
        · rw [List.mem_singleton.mp hmem] at hfailed
          exact Or.inr hfailed

/-- A failure that is about no class of the draft. -/
theorem Holds.report {d : Draft} {units : List ResolvedUnit} {others : List String}
    (h : Holds d units others) (file className : String) (fault : PlacementFault) :
    Holds (report file className fault d).2 units (others ++ [className]) where
  laid := h.laid
  named := h.named
  localClasses := h.localClasses
  facades := h.facades
  topLevel := h.topLevel
  slots := h.slots
  failures := fun n => by
    change n ∈ namesOf (d.failures ++ [_]) ↔ n ∈ others ++ [className] ∨ ∃ node ∈ d.tree.classes, _
    rw [namesOf_append, List.mem_append, h.failures, List.mem_append]
    simp only [namesOf, List.filterMap_cons, List.filterMap_nil]
    rw [or_right_comm]

/-- Adding a unit that is no holder adds its class, which does not fail if the names of the local
functions fit. -/
theorem addUnit_withUnit (d : Draft) (file : String) {u : ResolvedUnit}
    (hu : u.isClass = true ∨ u.isLocal = true ∨ u.isFacade = true) :
    ∃ block node source new, addUnit file u d = ((), d.withUnit block node source new u)
      ∧ Joins d block node new u ∧ node.shape.holder = []
      ∧ (u.LocalsFit → node.failed = false ∧ new = []) := by
  cases u with
  | classUnit u =>
    obtain ⟨block, node, source, new, hrun, hfills, hnew, hname, -, hshape, -, hfit⟩ :=
      addClassWith_withClass d file u.jvmName (.named u.shape) u.members
    have hnode := hshape (by rintro ⟨init, hinit⟩; simp at hinit)
    refine ⟨block, node, source, new, ?_, ⟨⟨hname, by rw [hnode]; rfl⟩, hfills, ?_, hnew⟩, ?_, hfit⟩
    · have hadd : addUnit file (.classUnit u) d
          = ((), { (addClassWith file u.jvmName (.named u.shape) u.members d).2 with
            named := (addClassWith file u.jvmName (.named u.shape) u.members d).2.named
              ++ [(addClassWith file u.jvmName (.named u.shape) u.members d).1] }) := rfl
      rw [hadd, hrun]
      simp [withUnit, isClass, isLocal, isFacade, withClass]
    · rw [hnode]
      exact ⟨rfl, rfl⟩
    · rw [hnode]
      rfl
  | localClass u =>
    obtain ⟨block, node, source, new, hrun, hfills, hnew, hname, -, hshape, -, hfit⟩ :=
      addClassWith_withClass d file u.jvmName (.localClass u.kind u.origin) u.members
    have hnode := hshape (by rintro ⟨init, hinit⟩; simp at hinit)
    refine ⟨block, node, source, new, ?_, ⟨⟨hname, hnode⟩, hfills, ?_, hnew⟩, ?_, hfit⟩
    · have hadd : addUnit file (.localClass u) d
          = ((), { (addClassWith file u.jvmName (.localClass u.kind u.origin) u.members d).2 with
            localClasses := (addClassWith file u.jvmName (.localClass u.kind u.origin)
                u.members d).2.localClasses
              ++ [(addClassWith file u.jvmName (.localClass u.kind u.origin) u.members d).1] }) :=
        rfl
      rw [hadd, hrun]
      simp [withUnit, isClass, isLocal, isFacade, withClass]
    · rw [hnode]
      exact ⟨rfl, rfl⟩
    · rw [hnode]
      rfl
  | facade u =>
    obtain ⟨block, node, source, new, hrun, hfills, hnew, hname, hfacade, -, hempty, hfit⟩ :=
      addClassWith_withClass d file u.jvmName (.facade none) u.members
    have hshape := hfacade ⟨none, rfl⟩
    refine ⟨block, node, source, new, ?_, ⟨⟨hname, hshape, hempty⟩, hfills, ?_, hnew⟩, ?_, hfit⟩
    · have hadd : addUnit file (.facade u) d
          = ((), { (addClassWith file u.jvmName (.facade none) u.members d).2 with
            tree := { (addClassWith file u.jvmName (.facade none) u.members d).2.tree with
              facades := (addClassWith file u.jvmName (.facade none) u.members d).2.tree.facades
                ++ [(addClassWith file u.jvmName (.facade none) u.members d).1] } }) := rfl
      rw [hadd, hrun]
      simp [withUnit, isClass, isLocal, isFacade, withClass]
    · obtain ⟨init, hinit⟩ := hshape
      rw [hinit]
      exact ⟨rfl, rfl⟩
    · obtain ⟨init, hinit⟩ := hshape
      rw [hinit]
      rfl
  | defaultImpls u => simp [isClass, isLocal, isFacade] at hu
  | opaqueUnit => simp [isClass, isLocal, isFacade] at hu
  | foreign => simp [isClass, isLocal, isFacade] at hu

section Add

variable {d : Draft} {u : ResolvedUnit} {name : String}

/-- A unit without a name adds nothing. -/
theorem add_of_unnamed (d : Draft) (file : String) (hname : u.jvmName? = none) :
    add file u d = ((), d) := by
  cases u <;> simp [jvmName?] at hname <;> rfl

/-- A unit with a new name is added under it. -/
theorem add_of_new (file : String) (hname : u.jvmName? = some name) (hnew : name ∉ d.names) :
    add file u d = addUnit file u { d with names := d.names ++ [name] } := by
  have hcontains : ¬ d.names.contains name = true := by simpa using hnew
  rw [add, bind_apply, get_apply]
  dsimp only
  rw [hname]
  dsimp only
  rw [if_neg hcontains]
  rfl

/-- A unit whose name is taken is only reported. -/
theorem add_of_repeat (file : String) (hname : u.jvmName? = some name) (hold : name ∈ d.names) :
    add file u d = report file name (.duplicate d.tree.path) d := by
  have hcontains : d.names.contains name = true := by simpa using hold
  rw [add, bind_apply, get_apply]
  dsimp only
  rw [hname]
  dsimp only
  rw [if_pos hcontains]

end Add

/-- Units that are kept so far, and the names of those that are rejected, with one more unit. -/
def sortOut (sorted : List ResolvedUnit × List String) (u : ResolvedUnit) :
    List ResolvedUnit × List String :=
  match u.jvmName? with
  | none => sorted
  | some name =>
    if (sorted.1.filterMap jvmName?).contains name then (sorted.1, sorted.2 ++ [name])
    else (sorted.1 ++ [u], sorted.2)

/-- A draft after some units were kept and others rejected. -/
structure Added (d : Draft) (kept : List ResolvedUnit) (rejected : List String) : Prop where
  /-- There is a class for every kept unit but the holders. -/
  holds : Holds d (kept.filter (!·.isHolder)) rejected
  /-- The names of the kept units. -/
  names : d.names = kept.filterMap jvmName?
  /-- The holders wait. -/
  holders : d.holders.map (fun holder => defaultImpls holder.2) = kept.filter isHolder
  /-- No holder is in its slot. -/
  slots : ∀ node ∈ d.tree.classes, node.shape.holder = []

/-- The empty draft has no units added. -/
theorem Added.empty (path : String) : Added (empty path) [] [] :=
  ⟨⟨.nil, rfl, rfl, rfl, rfl, by simp [Draft.empty],
    by simp [Reports, Draft.empty, namesOf]⟩, rfl, rfl,
    by simp [Draft.empty]⟩

/-- Adding a unit keeps it, or rejects it if its name is taken. -/
theorem Added.next {d : Draft} {kept : List ResolvedUnit} {rejected : List String}
    (h : Added d kept rejected) (file : String) (u : ResolvedUnit) :
    Added (add file u d).2 (sortOut (kept, rejected) u).1 (sortOut (kept, rejected) u).2 := by
  cases hname : u.jvmName? with
  | none =>
    rw [add_of_unnamed d file hname, sortOut, hname]
    exact h
  | some name =>
    by_cases hold : name ∈ d.names
    · have hmem : (kept.filterMap jvmName?).contains name = true := by
        rwa [List.contains_iff_mem, ← h.names]
      rw [add_of_repeat file hname hold, sortOut, hname]
      dsimp only
      rw [if_pos hmem]
      exact ⟨h.holds.report file name _, h.names, h.holders, h.slots⟩
    · have hmem : ¬ (kept.filterMap jvmName?).contains name = true := by
        rwa [List.contains_iff_mem, ← h.names]
      have hnames : d.names ++ [name] = (kept ++ [u]).filterMap jvmName? := by
        rw [List.filterMap_append, ← h.names]
        simp [hname]
      have hholds : Holds { d with names := d.names ++ [name] } (kept.filter (!·.isHolder))
          rejected :=
        ⟨h.holds.laid, h.holds.named, h.holds.localClasses, h.holds.facades, h.holds.topLevel,
          h.holds.slots, h.holds.failures⟩
      rw [add_of_new file hname hold, sortOut, hname]
      dsimp only
      rw [if_neg hmem]
      by_cases hholder : u.isHolder = true
      · obtain ⟨u, rfl⟩ := isHolder_iff.mp hholder
        refine ⟨?_, hnames, ?_, h.slots⟩
        · rw [List.filter_append]
          simpa [isHolder] using (⟨hholds.laid, hholds.named, hholds.localClasses,
            hholds.facades, hholds.topLevel, hholds.slots, hholds.failures⟩ :
              Holds (addUnit file (.defaultImpls u) { d with names := d.names ++ [name] }).2 _ _)
        · rw [List.filter_append, ← h.holders]
          exact List.map_append
      · obtain ⟨block, node, source, new, hadd, hjoins, hslot, -⟩ :=
          addUnit_withUnit { d with names := d.names ++ [name] } file (u := u) (by
            cases u <;> simp_all [isClass, isLocal, isFacade, isHolder, jvmName?])
        rw [hadd]
        refine ⟨?_, hnames, ?_, ?_⟩
        · rw [List.filter_append]
          simpa [hholder] using hholds.withUnit hjoins source
        · rw [List.filter_append, ← h.holders]
          simp [hholder, Draft.withUnit, withClass]
        · intro other hother
          rcases List.mem_append.mp hother with hother | hother
          · exact h.slots other hother
          · rw [List.mem_singleton.mp hother]
            exact hslot

/-- Adding units keeps the first one of each name. -/
theorem Added.all {d : Draft} {sorted : List ResolvedUnit × List String}
    (h : Added d sorted.1 sorted.2) (units : List (String × ResolvedUnit)) :
    Added (units.forM (fun unit => add unit.1 unit.2) d).2
      ((units.map Prod.snd).foldl sortOut sorted).1
      ((units.map Prod.snd).foldl sortOut sorted).2 := by
  induction units generalizing d sorted with
  | nil => exact h
  | cons first rest ih => exact ih (h.next first.1 first.2)

section Sorting

variable {sorted : List ResolvedUnit × List String}

/-- Units that are kept have different names. -/
theorem sortOut_names_nodup (hnodup : (sorted.1.filterMap jvmName?).Nodup) (u : ResolvedUnit) :
    ((sortOut sorted u).1.filterMap jvmName?).Nodup := by
  unfold sortOut
  split
  · exact hnodup
  · next name hname =>
    split
    · exact hnodup
    · next hmem =>
      have hnot : name ∉ sorted.1.filterMap jvmName? := by simpa using hmem
      rw [List.filterMap_append, List.filterMap_cons_some hname, List.filterMap_nil]
      exact List.nodup_append.mpr ⟨hnodup, List.nodup_singleton name,
        fun a ha b hb hab => hnot (List.mem_singleton.mp hb ▸ hab ▸ ha)⟩

/-- Sorting out keeps what is kept, and what is rejected. -/
theorem sortOut_subset (sorted : List ResolvedUnit × List String) (u : ResolvedUnit) :
    sorted.1 ⊆ (sortOut sorted u).1 ∧ sorted.2 ⊆ (sortOut sorted u).2 := by
  unfold sortOut
  split
  · exact ⟨List.Subset.refl _, List.Subset.refl _⟩
  · split
    · exact ⟨List.Subset.refl _, List.subset_append_left _ _⟩
    · exact ⟨List.subset_append_left _ _, List.Subset.refl _⟩

/-- What is sorted out once stays sorted out. -/
theorem foldl_sortOut_subset (units : List ResolvedUnit)
    (sorted : List ResolvedUnit × List String) :
    sorted.1 ⊆ (units.foldl sortOut sorted).1 ∧ sorted.2 ⊆ (units.foldl sortOut sorted).2 := by
  induction units generalizing sorted with
  | nil => exact ⟨List.Subset.refl _, List.Subset.refl _⟩
  | cons u rest ih =>
    have hfirst := sortOut_subset sorted u
    have hrest := ih (sortOut sorted u)
    exact ⟨List.Subset.trans hfirst.1 hrest.1, List.Subset.trans hfirst.2 hrest.2⟩

end Sorting

/-- The units that are kept of several ones. -/
def accepted (units : List (String × ResolvedUnit)) : List ResolvedUnit :=
  ((units.map Prod.snd).foldl sortOut ([], [])).1

/-- The names of the units that are rejected. -/
def rejected (units : List (String × ResolvedUnit)) : List String :=
  ((units.map Prod.snd).foldl sortOut ([], [])).2

variable {units : List (String × ResolvedUnit)}

/-- The units that are accepted have different names. -/
theorem accepted_names_nodup (units : List (String × ResolvedUnit)) :
    ((accepted units).filterMap jvmName?).Nodup := by
  have hloop (us : List ResolvedUnit) (sorted : List ResolvedUnit × List String)
      (hnodup : (sorted.1.filterMap jvmName?).Nodup) :
      ((us.foldl sortOut sorted).1.filterMap jvmName?).Nodup := by
    induction us generalizing sorted with
    | nil => exact hnodup
    | cons u rest ih => exact ih _ (sortOut_names_nodup hnodup u)
  exact hloop _ ([], []) List.nodup_nil

/-- Only given units with names are kept. -/
theorem mem_of_mem_accepted {u : ResolvedUnit} (hu : u ∈ accepted units) :
    u ∈ units.map Prod.snd ∧ ∃ name, u.jvmName? = some name := by
  have hloop (us : List ResolvedUnit) (sorted : List ResolvedUnit × List String)
      (hmem : u ∈ (us.foldl sortOut sorted).1) :
      u ∈ sorted.1 ∨ u ∈ us ∧ ∃ name, u.jvmName? = some name := by
    induction us generalizing sorted with
    | nil => exact Or.inl hmem
    | cons v rest ih =>
      rcases ih _ hmem with hold | ⟨hrest, hname⟩
      · unfold sortOut at hold
        split at hold
        · exact Or.inl hold
        · next name hname =>
          split at hold
          · exact Or.inl hold
          · rcases List.mem_append.mp hold with hold | hnew
            · exact Or.inl hold
            · rw [List.mem_singleton.mp hnew]
              exact Or.inr ⟨List.mem_cons_self, name, hname⟩
      · exact Or.inr ⟨List.mem_cons_of_mem v hrest, hname⟩
  exact (hloop _ ([], []) hu).resolve_left List.not_mem_nil

/-- A given unit is kept, or its name is rejected. -/
theorem mem_accepted_or_mem_rejected {u : ResolvedUnit} (hu : u ∈ units.map Prod.snd)
    {name : String} (hname : u.jvmName? = some name) :
    u ∈ accepted units ∨ name ∈ rejected units := by
  obtain ⟨before, after, hsplit⟩ := List.append_of_mem hu
  rw [accepted, rejected, hsplit, List.foldl_append, List.foldl_cons]
  have hsubset := foldl_sortOut_subset after (sortOut (before.foldl sortOut ([], [])) u)
  have hnew : u ∈ (sortOut (before.foldl sortOut ([], [])) u).1 ∨
      name ∈ (sortOut (before.foldl sortOut ([], [])) u).2 := by
    rw [sortOut, hname]
    dsimp only
    split
    · exact Or.inr (List.mem_append_right _ List.mem_cons_self)
    · exact Or.inl (List.mem_append_right _ List.mem_cons_self)
  exact hnew.imp (fun h => hsubset.1 h) fun h => hsubset.2 h

/-- Units with different names are all kept. -/
theorem accepted_eq_of_nodup (hnodup : ((units.map Prod.snd).filterMap jvmName?).Nodup) :
    accepted units = (units.map Prod.snd).filter (·.jvmName?.isSome) ∧ rejected units = [] := by
  have hloop (us kept : List ResolvedUnit) (names : List String)
      (hnodup : ((kept ++ us).filterMap jvmName?).Nodup) :
      us.foldl sortOut (kept, names) = (kept ++ us.filter (·.jvmName?.isSome), names) := by
    induction us generalizing kept with
    | nil => simp
    | cons u rest ih =>
      rw [List.foldl_cons]
      cases hname : u.jvmName? with
      | none =>
        have hskip : sortOut (kept, names) u = (kept, names) := by rw [sortOut, hname]
        rw [hskip, ih kept (by simpa [List.filterMap_append, hname] using hnodup)]
        simp [hname]
      | some name =>
        have hnot : name ∉ kept.filterMap jvmName? := by
          rw [List.filterMap_append, List.filterMap_cons_some hname] at hnodup
          exact fun hmem => (List.nodup_append.mp hnodup).2.2 name hmem name
            List.mem_cons_self rfl
        have hkeep : sortOut (kept, names) u = (kept ++ [u], names) := by
          rw [sortOut, hname]
          dsimp only
          rw [if_neg (by simpa using hnot)]
        rw [hkeep, ih (kept ++ [u]) (by simpa using hnodup)]
        simp [hname]
  have hall := hloop (units.map Prod.snd) [] [] (by simpa using hnodup)
  rw [accepted, rejected, hall]
  exact ⟨List.nil_append _, rfl⟩

end Draft

end LineAtlas
