import LineAtlas.Proofs.Tree.Keeping

/-!
# Homes of classes

Every local class, and every class with a name of its own, has at most one place to go to. All
that placing does with it is to put it there, or to fail it when it has none.
-/

namespace LineAtlas.Draft

variable {d d' d'' : Draft}

/-- Changing the slots of a class leaves every other class. -/
theorem modifyNamed_class? (owner : ClassId) (change : NamedShape → NamedShape) (d : Draft)
    (c : ClassId) : (modifyNamed owner change d).2.tree.class? c = (d.tree.class? c).map
      fun node => if owner = c then node.onNamed change else node := by
  change (d.tree.classes.modify owner _)[c]? = _
  rw [List.getElem?_modify]
  change _ <$> d.tree.class? c = _
  cases d.tree.class? c with
  | none => rfl
  | some node => split <;> rfl

/-- The classes in the slots that companions and holders go to. -/
def slotsOf (t : SourceTree) (c : ClassId) : Option (List ClassId × List ClassId) :=
  (t.class? c).map fun node => (node.shape.companion, node.shape.holder)

/-- Putting a class into a slot adds it there, behind the others, and nowhere else. -/
theorem put_slot {s : Slot} (hs : d.tree.HasSlot s) (c : ClassId) (s' : Slot) :
    (put s c d).2.tree.slot s' = d.tree.slot s' ++ if s = s' then [c] else [] := by
  cases s with
  | topLevel =>
    cases s' with
    | topLevel => rfl
    | nested o => exact (List.append_nil _).symm
    | body f => exact (List.append_nil _).symm
  | nested owner =>
    cases s' with
    | topLevel => exact (List.append_nil _).symm
    | body f => exact (List.append_nil _).symm
    | nested o =>
      change (modifyNamed owner _ d).2.tree.nestedOf o = d.tree.nestedOf o ++ _
      rw [SourceTree.nestedOf, SourceTree.nestedOf, modifyNamed_class?]
      by_cases ho : owner = o
      · subst ho
        obtain ⟨node, hnode, shape, hshape⟩ := hs
        simp [hnode, ClassNode.onNamed, hshape, ClassShape.nested]
      · simp [ho]
  | body f =>
    cases s' with
    | topLevel => exact (List.append_nil _).symm
    | nested o => exact (List.append_nil _).symm
    | body g =>
      change ((d.tree.functions.modify f _)[g]?).toList.flatMap _
        = (d.tree.function? g).toList.flatMap _ ++ _
      rw [List.getElem?_modify]
      change (_ <$> d.tree.function? g).toList.flatMap _ = _
      by_cases hf : f = g
      · subst hf
        obtain ⟨node, hnode⟩ := hs
        simp [hnode]
      · simp [hf]

/-- Putting a class leaves the slots for companions and holders. -/
theorem put_slotsOf (s : Slot) (c : ClassId) (d : Draft) (o : ClassId) :
    slotsOf (put s c d).2.tree o = slotsOf d.tree o := by
  cases s with
  | topLevel => rfl
  | body f => rfl
  | nested owner =>
    change slotsOf (modifyNamed owner _ d).2.tree o = _
    rw [slotsOf, modifyNamed_class?, Option.map_map, slotsOf]
    refine congrArg (Option.map · _) (funext fun node => ?_)
    simp only [Function.comp_apply]
    split
    · unfold ClassNode.onNamed
      split
      · next shape hshape => simp [ClassShape.companion, ClassShape.holder, hshape]
      · rfl
    · rfl

/-- Failing a class marks it and leaves every other class. -/
theorem fail_class? (c : ClassId) (fault : PlacementFault) (d : Draft) (o : ClassId) :
    (fail c fault d).2.tree.class? o = (d.tree.class? o).map
      fun node => if c = o then { node with failed := true } else node := by
  cases hnode : d.tree.class? c with
  | none =>
    rw [fail_eq_self hnode]
    by_cases ho : c = o
    · subst ho
      simp [hnode]
    · simp [ho]
  | some node =>
    obtain ⟨e, hrun, -⟩ := fail_withFailed hnode fault
    rw [hrun, withFailed_class?]

/-- Failing a class moves none. -/
theorem fail_slot (c : ClassId) (fault : PlacementFault) (d : Draft) (s : Slot) :
    (fail c fault d).2.tree.slot s = d.tree.slot s := by
  have hnested (o : ClassId) : (fail c fault d).2.tree.nestedOf o = d.tree.nestedOf o := by
    rw [SourceTree.nestedOf, SourceTree.nestedOf, fail_class?]
    cases d.tree.class? o with
    | none => rfl
    | some node => by_cases ho : c = o <;> simp [ho]
  cases hnode : d.tree.class? c with
  | none => rw [fail_eq_self hnode]
  | some node =>
    obtain ⟨e, hrun, -⟩ := fail_withFailed hnode fault
    cases s with
    | nested o => exact hnested o
    | topLevel =>
      rw [hrun]
      rfl
    | body f =>
      rw [hrun]
      rfl

/-- Failing a class leaves the slots for companions and holders. -/
theorem fail_slotsOf (c : ClassId) (fault : PlacementFault) (d : Draft) (o : ClassId) :
    slotsOf (fail c fault d).2.tree o = slotsOf d.tree o := by
  rw [slotsOf, fail_class?, Option.map_map, slotsOf]
  refine congrArg (Option.map · _) (funext fun node => ?_)
  simp only [Function.comp_apply]
  split <;> rfl

/-- A class that is failed has failed. -/
theorem fail_isFailed {c : ClassId} {node : ClassNode} (hnode : d.tree.class? c = some node)
    (fault : PlacementFault) : (fail c fault d).2.tree.isFailed c = true := by
  rw [SourceTree.isFailed, fail_class?, hnode]
  simp

/-- Places are there whatever is in them. -/
theorem Keeps.hasSlot (h : Keeps d d') {s : Slot} (hs : d.tree.HasSlot s) :
    d'.tree.HasSlot s := by
  cases s with
  | topLevel => exact trivial
  | nested owner =>
    obtain ⟨node, hnode, shape, hshape⟩ := hs
    have hbare := h.class?_bare owner
    rw [hnode, Option.map_some] at hbare
    obtain ⟨new, hnew, hsame⟩ := Option.map_eq_some_iff.mp hbare
    have hshapes : new.shape.bare = node.shape.bare := by
      change new.bare.shape = node.bare.shape
      rw [hsame]
    rw [hshape] at hshapes
    obtain ⟨own, hown, -⟩ := ClassShape.exists_named_of_bare hshapes
    exact ⟨new, hnew, own, hown⟩
  | body f =>
    obtain ⟨node, hnode⟩ := hs
    have hbare := h.function?_bare f
    rw [hnode, Option.map_some] at hbare
    obtain ⟨new, hnew, -⟩ := Option.map_eq_some_iff.mp hbare
    exact ⟨new, hnew⟩

/-- A failure names the file and the class that it had at the start. -/
theorem Keeps.failureOf (h : Keeps d d') {c : ClassId} {node new : ClassNode}
    (hnode : d.tree.class? c = some node) (hnew : d'.tree.class? c = some new)
    (fault : PlacementFault) : d'.failureOf c new fault = d.failureOf c node fault := by
  have hname := h.class?_map ClassNode.jvmName (fun _ => rfl) c
  rw [hnode, hnew] at hname
  rw [Draft.failureOf, Draft.failureOf, h.sources, show new.jvmName = node.jvmName from
    Option.some.inj hname]

/-- A draft follows from another one by putting some classes into their homes, and failing those
that have none. -/
structure Settles (home : ClassId → Option Slot) (blame : ClassId → Option ClassFailure)
    (d d' : Draft) (ids : List ClassId) : Prop where
  /-- Nothing else changes. -/
  keeps : Keeps d d'
  /-- Places get the classes that have their homes there. -/
  slots : ∀ s, d'.tree.slot s = d.tree.slot s ++ ids.filter (home · == some s)
  /-- Companions and holders stay in their slots. -/
  others : ∀ o, slotsOf d'.tree o = slotsOf d.tree o
  /-- Classes without a home fail. -/
  failed : ∀ c ∈ ids, home c = none → d'.tree.isFailed c = true
  /-- That is reported. -/
  blamed : d'.failures = d.failures ++ ids.filterMap blame

section Settles

variable {home : ClassId → Option Slot} {blame : ClassId → Option ClassFailure}

/-- No classes are settled by doing nothing. -/
theorem Settles.refl (d : Draft) : Settles home blame d d [] :=
  ⟨Keeps.refl d, fun s => by simp, fun _ => rfl, by simp, by simp⟩

/-- Classes that are settled one after the other are settled together. -/
theorem Settles.trans {one two : List ClassId} (h : Settles home blame d d' one)
    (h' : Settles home blame d' d'' two) : Settles home blame d d'' (one ++ two) where
  keeps := h.keeps.trans h'.keeps
  slots := fun s => by rw [h'.slots, h.slots, List.filter_append, List.append_assoc]
  others := fun o => (h'.others o).trans (h.others o)
  failed := fun c hc hnone => by
    rcases List.mem_append.mp hc with hc | hc
    · exact h'.keeps.failed c (h.failed c hc hnone)
    · exact h'.failed c hc hnone
  blamed := by rw [h'.blamed, h.blamed, List.filterMap_append, List.append_assoc]

/-- Putting a class into its home settles it. -/
theorem put_settles {c : ClassId} {s : Slot} (hhome : home c = some s) (hblame : blame c = none)
    (hs : d.tree.HasSlot s) : Settles home blame d (put s c d).2 [c] where
  keeps := put_keeps s c d
  slots := fun s' => by
    rw [put_slot hs]
    by_cases hsame : s = s'
    · simp [hhome, hsame]
    · simp [hhome, hsame]
  others := put_slotsOf s c d
  failed := fun c' hc' hnone => by
    rw [List.mem_singleton.mp hc', hhome] at hnone
    simp at hnone
  blamed := by
    rw [List.filterMap_cons_none hblame, List.filterMap_nil, List.append_nil]
    cases s <;> rfl

/-- Failing a class that has no home settles it. -/
theorem fail_settles {c : ClassId} {node : ClassNode} {fault : PlacementFault}
    (hhome : home c = none) (hnode : d.tree.class? c = some node)
    (hblame : blame c = some (d.failureOf c node fault)) :
    Settles home blame d (fail c fault d).2 [c] where
  keeps := fail_keeps c fault d
  slots := fun s => by
    rw [fail_slot]
    simp [hhome]
  others := fail_slotsOf c fault d
  failed := fun c' hc' _ => by
    rw [List.mem_singleton.mp hc']
    exact fail_isFailed hnode fault
  blamed := by
    rw [fail_apply hnode, List.filterMap_cons_some hblame]
    rfl

/-- Steps that settle classes one after the other. -/
theorem forM_settles {α : Type} (step : α → Drafting Unit) (ids : α → List ClassId)
    (items : List α) (start : Draft)
    (hstep : ∀ a ∈ items, ∀ d, Keeps start d → Settles home blame d (step a d).2 (ids a))
    (hkeeps : Keeps start d) :
    Settles home blame d (items.forM step d).2 (items.flatMap ids) := by
  induction items generalizing d with
  | nil => exact Settles.refl d
  | cons a rest ih =>
    have hfirst := hstep a List.mem_cons_self d hkeeps
    rw [List.flatMap_cons]
    exact hfirst.trans (ih (fun b hb => hstep b (List.mem_cons_of_mem a hb))
      (hkeeps.trans hfirst.keeps))

/-- Steps that settle one class each settle all of them. -/
theorem forM_settles_each (step : ClassId → Drafting Unit) (ids : List ClassId) (start : Draft)
    (hstep : ∀ c ∈ ids, ∀ d, Keeps start d → Settles home blame d (step c d).2 [c])
    (hkeeps : Keeps start d) : Settles home blame d (ids.forM step d).2 ids := by
  have hall := forM_settles step (fun c => [c]) ids start hstep hkeeps
  rwa [List.flatMap_singleton'] at hall

end Settles

end LineAtlas.Draft
