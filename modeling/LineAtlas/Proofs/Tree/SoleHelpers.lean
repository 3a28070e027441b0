import LineAtlas.Proofs.Tree.Hanging

/-!
# Helpers of local functions

Once all local functions are placed, those that are shown as local functions take the only function
below them that can fill in their default arguments. They are looked at in the order of their
numbers, and a function that was taken is no longer shown as a local one. As everything that is
below a local function comes later, whether it takes a helper does not depend on what comes after
it.
-/

namespace LineAtlas

/-- Whether a function is shown as a local one. -/
def FunctionKind.isLocal : FunctionKind → Bool
  | .localFunction _ => true
  | _ => false

/-- A function is shown as a local one exactly if it is of that kind. -/
theorem FunctionKind.isLocal_iff {kind : FunctionKind} :
    kind.isLocal = true ↔ ∃ name, kind = .localFunction name := by
  cases kind <;> simp [isLocal]

namespace Draft

/-- The only function below another one that can fill in its default arguments. -/
def onlyHelper? (t : SourceTree) (id : FunctionId) : Option FunctionId :=
  (t.function? id).bind fun node =>
    match localHelpers t node with
    | [helper] => some helper
    | _ => none

/-- A helper is the only one exactly if no other local function is one. -/
theorem onlyHelper?_eq_some_iff {t : SourceTree} {id helper : FunctionId} :
    onlyHelper? t id = some helper ↔
      ∃ node, t.function? id = some node ∧ localHelpers t node = [helper] := by
  rw [onlyHelper?, Option.bind_eq_some_iff]
  refine exists_congr fun node => and_congr_right fun _ => ?_
  rcases localHelpers t node with _ | ⟨first, _ | ⟨second, rest⟩⟩ <;> simp

/-- Whether a function of a list is shown as a local one. -/
def isLocalAt (fs : List FunctionNode) (id : FunctionId) : Bool :=
  (fs[id]?).any (·.kind.isLocal)

/-- Functions after one of them takes a function below it as its helper. -/
def takeHelper (fs : List FunctionNode) (id helper : FunctionId) : List FunctionNode :=
  (fs.modify id fun node =>
    { node with locals := node.locals.erase helper, defaultValues := some helper }).modify helper
      fun node => { node with kind := .anonymous }

/-- A local function with one helper takes it. -/
theorem attachDefaultValues_of_some {id helper : FunctionId} {d : Draft}
    (hlocal : isLocalAt d.tree.functions id = true) (honly : onlyHelper? d.tree id = some helper) :
    attachDefaultValues id d = ((), d.withFunctions (takeHelper d.tree.functions id helper)) := by
  obtain ⟨node, hnode, hhelpers⟩ := onlyHelper?_eq_some_iff.mp honly
  obtain ⟨name, hkind⟩ : ∃ name, node.kind = .localFunction name := by
    have hget : d.tree.functions[id]? = some node := hnode
    rw [isLocalAt, hget] at hlocal
    exact FunctionKind.isLocal_iff.mp hlocal
  rw [attachDefaultValues, bind_apply, get_apply]
  dsimp only
  rw [hnode]
  dsimp only
  rw [hkind, hhelpers]
  rfl

/-- A function that is not local, or has not just one helper, takes none. -/
theorem attachDefaultValues_of_none {id : FunctionId} {d : Draft}
    (h : isLocalAt d.tree.functions id = true → onlyHelper? d.tree id = none) :
    attachDefaultValues id d = ((), d) := by
  rcases attachDefaultValues_cases id d with hrun | ⟨node, name, helper, hnode, hkind, hhelpers, -⟩
  · exact hrun
  · have hlocal : isLocalAt d.tree.functions id = true := by
      have hget : d.tree.functions[id]? = some node := hnode
      rw [isLocalAt, hget]
      exact FunctionKind.isLocal_iff.mpr ⟨name, hkind⟩
    have honly : onlyHelper? d.tree id = some helper :=
      onlyHelper?_eq_some_iff.mpr ⟨node, hnode, hhelpers⟩
    simp [h hlocal] at honly

/-- Functions after some of them took helpers. -/
def takeHelpers (taken : List (FunctionId × FunctionId)) (fs : List FunctionNode) :
    List FunctionNode :=
  fs.mapIdx fun i node =>
    { node with
      kind := if i ∈ taken.map Prod.snd then .anonymous else node.kind
      locals := (taken.lookup i).elim node.locals node.locals.erase
      defaultValues := (taken.lookup i).or node.defaultValues }

variable {taken : List (FunctionId × FunctionId)} {fs : List FunctionNode} {id helper : FunctionId}

/-- A function that took a helper has it, and one that was taken has no name. -/
theorem getElem?_takeHelpers (taken : List (FunctionId × FunctionId)) (fs : List FunctionNode)
    (i : Nat) : (takeHelpers taken fs)[i]? = (fs[i]?).map fun node =>
      { node with
        kind := if i ∈ taken.map Prod.snd then .anonymous else node.kind
        locals := (taken.lookup i).elim node.locals node.locals.erase
        defaultValues := (taken.lookup i).or node.defaultValues } := by
  rw [takeHelpers, List.getElem?_mapIdx]

/-- Taking no helpers changes nothing. -/
@[simp]
theorem takeHelpers_nil (fs : List FunctionNode) : takeHelpers [] fs = fs := by
  refine List.ext_getElem? fun i => ?_
  rw [getElem?_takeHelpers]
  cases fs[i]? <;> simp

/-- Taking helpers leaves the methods of functions. -/
theorem map_body_takeHelpers (taken : List (FunctionId × FunctionId)) (fs : List FunctionNode) :
    (takeHelpers taken fs).map FunctionNode.body = fs.map FunctionNode.body := by
  refine List.ext_getElem? fun i => ?_
  rw [List.getElem?_map, getElem?_takeHelpers, Option.map_map, List.getElem?_map]
  rfl

/-- A function that is not on the list took no helper. -/
theorem lookup_eq_none (hid : id ∉ taken.map Prod.fst) : taken.lookup id = none := by
  rw [List.lookup_eq_none_iff]
  intro p hp
  rw [bne_iff_ne]
  rintro rfl
  exact hid (List.mem_map_of_mem hp)

/-- One more function takes a helper. -/
theorem takeHelpers_snoc (hid : id ∉ taken.map Prod.fst) :
    takeHelpers (taken ++ [(id, helper)]) fs = takeHelper (takeHelpers taken fs) id helper := by
  have hnone := lookup_eq_none hid
  refine List.ext_getElem? fun i => ?_
  have hkind (kind : FunctionKind) :
      (if i ∈ (taken ++ [(id, helper)]).map Prod.snd then .anonymous else kind)
        = if helper = i then .anonymous
          else if i ∈ taken.map Prod.snd then .anonymous else kind := by
    by_cases hhelper : helper = i
    · simp [hhelper]
    · rw [if_neg hhelper]
      refine if_congr ?_ rfl rfl
      rw [List.map_append, List.mem_append]
      exact or_iff_left (by simpa [eq_comm] using hhelper)
  have hlookup : (taken ++ [(id, helper)]).lookup i
      = if id = i then some helper else taken.lookup i := by
    rw [List.lookup_append]
    by_cases hi : id = i
    · simp [← hi, hnone]
    · have hne : (i == id) = false := beq_eq_false_iff_ne.mpr (Ne.symm hi)
      simp [hi, List.lookup_cons, hne]
  rw [takeHelper, List.getElem?_modify, List.getElem?_modify, getElem?_takeHelpers,
    getElem?_takeHelpers, hlookup]
  cases fs[i]? with
  | none => rfl
  | some node =>
    simp only [Option.map_some, hkind]
    by_cases hi : id = i
    · subst hi
      by_cases hhelper : helper = id <;> simp [hnone, hhelper]
    · by_cases hhelper : helper = i <;> simp [hi, hhelper]

/-- Which local functions are helpers is told by the methods alone. -/
theorem localHelpers_eq (t : SourceTree) (node : FunctionNode) :
    localHelpers t node = node.locals.filter fun id =>
      ((t.functions.map FunctionNode.body)[id]?).any fun helper =>
        DefaultHelper.isOfFunction helper.signature node.body.signature none := by
  refine List.filter_congr fun id _ => ?_
  rw [List.getElem?_map, Option.any_map]
  rfl

/-- A function that took no helper yet can take the same one as before. -/
theorem onlyHelper?_takeHelpers (d : Draft) (hid : id ∉ taken.map Prod.fst) :
    onlyHelper? (d.withFunctions (takeHelpers taken d.tree.functions)).tree id
      = onlyHelper? d.tree id := by
  have hnone := lookup_eq_none hid
  have hnode : (d.withFunctions (takeHelpers taken d.tree.functions)).tree.function? id
      = (d.tree.function? id).map fun node =>
        { node with kind := if id ∈ taken.map Prod.snd then .anonymous else node.kind } := by
    refine (getElem?_takeHelpers taken d.tree.functions id).trans ?_
    rw [hnone]
    rfl
  rw [onlyHelper?, hnode, onlyHelper?, Option.bind_map]
  refine congrArg _ (funext fun node => ?_)
  have hbodies : (d.withFunctions (takeHelpers taken d.tree.functions)).tree.functions.map
      FunctionNode.body = d.tree.functions.map FunctionNode.body := map_body_takeHelpers _ _
  rw [Function.comp_apply, localHelpers_eq, localHelpers_eq, hbodies]

/-- Which functions took helpers: those from a start to an end that are shown as local functions
and have one function below them that can fill in their default arguments. -/
def Took (t : SourceTree) (start finish : Nat) (taken : List (FunctionId × FunctionId)) : Prop :=
  ∀ id helper, (id, helper) ∈ taken ↔ (start ≤ id ∧ id < finish) ∧
    isLocalAt (takeHelpers taken t.functions) id = true ∧ onlyHelper? t id = some helper

variable {t : SourceTree} {d : Draft} {start finish : Nat}

/-- Only functions that were looked at took a helper. -/
theorem Took.lt (h : Took t start finish taken) (hid : id ∈ taken.map Prod.fst) : id < finish := by
  obtain ⟨⟨o, helper⟩, hmem, rfl⟩ := List.mem_map.mp hid
  exact ((h o helper).mp hmem).1.2

/-- The list tells for each function the helper it took. -/
theorem Took.lookup_eq_some_iff (h : Took t start finish taken) :
    taken.lookup id = some helper ↔ (id, helper) ∈ taken := by
  have hmem {other : FunctionId} (hother : taken.lookup id = some other) :
      (id, other) ∈ taken := by
    obtain ⟨before, after, rfl, -⟩ := List.lookup_eq_some_iff.mp hother
    exact List.mem_append_right _ List.mem_cons_self
  refine ⟨hmem, fun hhelper => ?_⟩
  obtain ⟨other, hother⟩ : ∃ other, taken.lookup id = some other := by
    rw [← Option.isSome_iff_exists, List.lookup_isSome_iff]
    exact ⟨(id, helper), hhelper, beq_self_eq_true id⟩
  -- A function takes at most one helper.
  have hsame := ((h id other).mp (hmem hother)).2.2
  rw [((h id helper).mp hhelper).2.2] at hsame
  rw [hother, Option.some.inj hsame]

/-- Only a function that is taken is shown differently. -/
theorem isLocalAt_takeHelper {other : FunctionId} (hne : other ≠ helper) :
    isLocalAt (takeHelper fs id helper) other = isLocalAt fs other := by
  rw [isLocalAt, isLocalAt, takeHelper, List.getElem?_modify, List.getElem?_modify]
  cases fs[other]? with
  | none => rfl
  | some node => by_cases hid : id = other <;> simp [hid, Ne.symm hne]

/-- Looking at one more function lets it take its helper, if it can. -/
theorem attachDefaultValues_took (h : Took d.tree start finish taken) (hstart : start ≤ finish)
    (hlater : ∀ helper, onlyHelper? d.tree finish = some helper → finish < helper) :
    ∃ taken', attachDefaultValues finish (d.withFunctions (takeHelpers taken d.tree.functions))
        = ((), d.withFunctions (takeHelpers taken' d.tree.functions)) ∧
      Took d.tree start (finish + 1) taken' := by
  have hfresh : finish ∉ taken.map Prod.fst := fun hmem => lt_irrefl _ (h.lt hmem)
  have honly := onlyHelper?_takeHelpers d hfresh
  by_cases htakes : isLocalAt (takeHelpers taken d.tree.functions) finish = true ∧
      ∃ helper, onlyHelper? d.tree finish = some helper
  · obtain ⟨hlocal, helper, hhelper⟩ := htakes
    have hsnoc : takeHelpers (taken ++ [(finish, helper)]) d.tree.functions
        = takeHelper (takeHelpers taken d.tree.functions) finish helper := takeHelpers_snoc hfresh
    refine ⟨taken ++ [(finish, helper)], ?_, fun id other => ?_⟩
    · rw [attachDefaultValues_of_some hlocal (honly.trans hhelper), hsnoc]
      rfl
    · -- The helper comes after all functions that were looked at.
      have hkind (hid : id < finish + 1) : isLocalAt (takeHelpers (taken ++ [(finish, helper)])
          d.tree.functions) id = isLocalAt (takeHelpers taken d.tree.functions) id := by
        rw [hsnoc, isLocalAt_takeHelper]
        exact ((Nat.le_of_lt_succ hid).trans_lt (hlater helper hhelper)).ne
      rw [List.mem_append, List.mem_singleton, h id other]
      constructor
      · rintro (⟨⟨hid, hlt⟩, hshown⟩ | heq)
        · exact ⟨⟨hid, hlt.trans (Nat.lt_succ_self _)⟩, by
            rwa [hkind (hlt.trans (Nat.lt_succ_self _))]⟩
        · obtain ⟨rfl, rfl⟩ := Prod.mk.inj heq
          exact ⟨⟨hstart, Nat.lt_succ_self _⟩, by rwa [hkind (Nat.lt_succ_self _)], hhelper⟩
      · rintro ⟨⟨hid, hlt⟩, hshown⟩
        rw [hkind hlt] at hshown
        rcases Nat.lt_succ_iff_lt_or_eq.mp hlt with hlt | rfl
        · exact Or.inl ⟨⟨hid, hlt⟩, hshown⟩
        · rw [hhelper] at hshown
          exact Or.inr (by rw [Option.some.inj hshown.2])
  · have hnone (hlocal : isLocalAt (takeHelpers taken d.tree.functions) finish = true) :
        onlyHelper? d.tree finish = none := by
      rw [Option.eq_none_iff_forall_ne_some]
      exact fun helper hhelper => htakes ⟨hlocal, helper, hhelper⟩
    refine ⟨taken, attachDefaultValues_of_none fun hlocal => honly.trans (hnone hlocal),
      fun id other => ?_⟩
    rw [h id other]
    refine and_congr_left fun ⟨hlocal, hhelper⟩ => and_congr_right fun _ => ?_
    have hne : id ≠ finish := by
      rintro rfl
      simp [hnone hlocal] at hhelper
    exact ⟨fun hlt => hlt.trans (Nat.lt_succ_self _),
      fun hlt => lt_of_le_of_ne (Nat.le_of_lt_succ hlt) hne⟩

/-- Looking at functions one after the other lets those take their helpers that can. -/
theorem attachAll_took (count : Nat) (h : Took d.tree start finish taken) (hstart : start ≤ finish)
    (hlater : ∀ id helper, start ≤ id → onlyHelper? d.tree id = some helper → id < helper) :
    ∃ taken', (List.range' finish count).forM attachDefaultValues
        (d.withFunctions (takeHelpers taken d.tree.functions))
          = ((), d.withFunctions (takeHelpers taken' d.tree.functions)) ∧
      Took d.tree start (finish + count) taken' := by
  induction count generalizing finish taken with
  | zero => exact ⟨taken, rfl, h⟩
  | succ count ih =>
    obtain ⟨taken₁, hfirst, htook₁⟩ :=
      attachDefaultValues_took h hstart fun helper => hlater finish helper hstart
    obtain ⟨taken₂, hrest, htook₂⟩ := ih htook₁ (hstart.trans (Nat.le_succ _))
    refine ⟨taken₂, ?_, ?_⟩
    · rw [List.range'_succ, forM_cons_apply, hfirst]
      exact hrest
    · rwa [Nat.add_assoc, Nat.add_comm 1 count] at htook₂

end Draft

end LineAtlas
