import LineAtlas.Proofs.Tree.Keeping

/-!
# Functions at other positions

Two drafts may have the same functions at different positions. What a class adds is then the
same in both, at different positions: nothing depends on the positions themselves.
-/

namespace LineAtlas

/-- A function whose neighbours are at other positions. -/
def FunctionNode.rename (ρ : FunctionId → FunctionId) (node : FunctionNode) : FunctionNode :=
  { node with defaultValues := node.defaultValues.map ρ, locals := node.locals.map ρ }

/-- A property whose accessors are at other positions. -/
def PropertyNode.rename (ρ : FunctionId → FunctionId) (p : PropertyNode) : PropertyNode :=
  { p with getter := p.getter.map ρ, setter := p.setter.map ρ }

/-- A shape whose initializer is at another position. -/
def ClassShape.rename (ρ : FunctionId → FunctionId) : ClassShape → ClassShape
  | .facade init => .facade (init.map ρ)
  | shape => shape

/-- A class whose functions are at other positions. -/
def ClassNode.rename (ρ : FunctionId → FunctionId) (node : ClassNode) : ClassNode :=
  { node with
    shape := node.shape.rename ρ
    functions := node.functions.map ρ
    constructors := node.constructors.map ρ
    properties := node.properties.map (PropertyNode.rename ρ) }

/-- Keys that stand for functions at other positions. -/
def LocalKeys.rename (ρ : FunctionId → FunctionId) (keys : LocalKeys) : LocalKeys :=
  keys.map (Prod.map id ρ)

section Rename

variable (ρ : FunctionId → FunctionId)

/-- A function may be renamed before its classes are left out, or after. -/
@[simp]
theorem FunctionNode.rename_bare (node : FunctionNode) :
    (node.rename ρ).bare = node.bare.rename ρ := rfl

/-- Below a renamed function are the renamed ones. -/
theorem FunctionNode.rename_below (node : FunctionNode) :
    (node.rename ρ).below = node.below.map ρ := by
  simp [FunctionNode.below, FunctionNode.rename, Option.toList_map]

/-- A renamed property has the renamed accessors. -/
theorem PropertyNode.rename_accessors (p : PropertyNode) :
    (p.rename ρ).accessors = p.accessors.map ρ := by
  simp [PropertyNode.accessors, PropertyNode.rename, Option.toList_map]

/-- A renamed shape has the renamed initializers. -/
theorem ClassShape.rename_initializers (s : ClassShape) :
    (s.rename ρ).initializers = s.initializers.map ρ := by
  match s with
  | .facade none | .facade (some init) | .named shape | .localClass kind origin
  | .defaultImpls => rfl

/-- The classes in slots stay where they are. -/
theorem ClassShape.rename_children (s : ClassShape) : (s.rename ρ).children = s.children := by
  cases s <;> rfl

/-- A renamed class has the renamed functions. -/
theorem ClassNode.rename_memberFunctions (node : ClassNode) :
    (node.rename ρ).memberFunctions = node.memberFunctions.map ρ := by
  simp only [ClassNode.memberFunctions_eq, ClassNode.listedFunctions, ClassNode.rename,
    ClassShape.rename_initializers, List.flatMap_map, PropertyNode.rename_accessors,
    List.map_append, List.map_flatMap]

/-- A renamed class has the renamed initializer. -/
theorem ClassNode.rename_initializer? (node : ClassNode) :
    (node.rename ρ).initializer? = node.initializer?.map ρ := by
  cases hshape : node.shape <;>
    simp [ClassNode.initializer?, ClassNode.rename, ClassShape.rename, hshape, List.head?_map]

/-- A class may be renamed before its slots are left out, or after. -/
theorem ClassNode.rename_bare (node : ClassNode) :
    (node.rename ρ).bare = node.bare.rename ρ := by
  cases hshape : node.shape <;>
    simp [ClassNode.bare, ClassNode.rename, ClassShape.bare, ClassShape.rename, hshape]

end Rename

namespace LocalKeys

variable (ρ : FunctionId → FunctionId)

/-- The least image is the image of the item whose image is least. -/
theorem leastBy?_map {α β : Type} (f : α → β) (measure : β → LineNumber) (items : List α) :
    leastBy? measure (items.map f) = (leastBy? (measure ∘ f) items).map f := by
  cases items with
  | nil => rfl
  | cons first others =>
    simp only [leastBy?, List.map_cons, Option.map_some, Option.some.injEq]
    induction others generalizing first with
    | nil => rfl
    | cons next others ih =>
      rw [List.map_cons, List.foldl_cons, List.foldl_cons, ← ih]
      congr 1
      simp only [Function.comp_apply]
      split <;> rfl

/-- The choice among candidates is made by their lines. -/
theorem enclosing?_map (candidates : List (FunctionId × LineSet)) (lines : LineSet) :
    enclosing? (candidates.map (Prod.map ρ id)) lines = (enclosing? candidates lines).map ρ := by
  unfold enclosing?
  split
  · simp only [List.filter_map, List.find?_map, leastBy?_map, List.head?_map, Function.comp_def,
      Prod.map_snd, id_eq, Option.map_map]
    simp only [Option.orElse_eq_orElse, Option.orElse_eq_or, ← Option.map_or, Option.map_map]
    rfl
  · simp [List.head?_map, Option.map_map, Function.comp_def]

/-- The longest key for a name does not depend on positions. -/
theorem rename_longestKey? (keys : LocalKeys) (name : String) :
    (keys.rename ρ).longestKey? name = keys.longestKey? name := by
  simp [longestKey?, rename, Function.comp_def]

/-- The outer key for a name does not depend on positions. -/
theorem rename_outerKey? (keys : LocalKeys) (name : String) :
    (keys.rename ρ).outerKey? name = keys.outerKey? name := by
  simp only [outerKey?, rename_longestKey?]
  simp [rename, Function.comp_def]

/-- The candidates for a key are renamed with the keys. -/
theorem rename_candidates (keys : LocalKeys) (key : String) :
    (keys.rename ρ).candidates key = (keys.candidates key).map ρ := by
  simp [candidates, rename, List.filter_map, Function.comp_def]

end LocalKeys

namespace Draft

/-- The functions of a draft are in another one too, at other positions. What comes after them is
at the end of both. -/
structure Embeds (ρ : FunctionId → FunctionId) (d d' : Draft) : Prop where
  /-- No two functions come to the same position. -/
  injective : Function.Injective ρ
  /-- New functions come to the end. -/
  fresh : ∀ j, ρ (d.tree.functions.length + j) = d'.tree.functions.length + j
  /-- Functions are the same but for the classes in them. -/
  functions : ∀ f, (d'.tree.function? (ρ f)).map FunctionNode.bare
    = (d.tree.function? f).map fun node => (node.rename ρ).bare

variable {ρ : FunctionId → FunctionId} {d d' : Draft}

namespace Embeds

/-- What a function has besides classes and positions is the same. -/
theorem function?_map {β : Type} (h : Embeds ρ d d') (g : FunctionNode → β)
    (hg : ∀ node, g node.bare = g node) (f : FunctionId) :
    (d'.tree.function? (ρ f)).map g = (d.tree.function? f).map fun node => g (node.rename ρ) := by
  have hbare := congrArg (Option.map g) (h.functions f)
  simpa only [Option.map_map, Function.comp_def, hg] using hbare

/-- A position is that of a function in one draft exactly if its image is in the other. -/
theorem lt_iff (h : Embeds ρ d d') (f : FunctionId) :
    ρ f < d'.tree.functions.length ↔ f < d.tree.functions.length := by
  have hnone : d'.tree.function? (ρ f) = none ↔ d.tree.function? f = none := by
    rw [← Option.map_eq_none_iff, h.functions f, Option.map_eq_none_iff]
  rw [SourceTree.function?, SourceTree.function?, List.getElem?_eq_none_iff,
    List.getElem?_eq_none_iff] at hnone
  simpa only [not_le] using not_congr hnone

/-- Both drafts may get more functions at their ends. -/
theorem grow (h : Embeds ρ d d') (block : List FunctionNode) :
    Embeds ρ (d.grow block) (d'.grow (block.map (FunctionNode.rename ρ))) where
  injective := h.injective
  fresh := fun j => by
    rw [grow_length, grow_length, List.length_map, Nat.add_assoc, h.fresh, Nat.add_assoc]
  functions := fun f => by
    rcases Nat.lt_or_ge f d.tree.functions.length with hf | hf
    · rw [SourceTree.function?, SourceTree.function?, Draft.grow, Draft.grow,
        List.getElem?_append_left ((h.lt_iff f).mpr hf), List.getElem?_append_left hf]
      exact h.functions f
    · obtain ⟨j, rfl⟩ := Nat.exists_eq_add_of_le hf
      rw [h.fresh, grow_function?, grow_function?, List.getElem?_map, Option.map_map]
      rfl

/-- A function may change in the same way in both drafts. -/
theorem modify (h : Embeds ρ d d') (f : FunctionId) {change change' : FunctionNode → FunctionNode}
    (hbare : ∀ node, (change node).bare = change node.bare)
    (hbare' : ∀ node, (change' node).bare = change' node.bare)
    (hchange : ∀ node, change' (node.rename ρ) = (change node).rename ρ) :
    Embeds ρ (modifyFunction f change d).2 (modifyFunction (ρ f) change' d').2 where
  injective := h.injective
  fresh := fun j => by
    change ρ ((d.tree.functions.modify f change).length + j)
      = (d'.tree.functions.modify (ρ f) change').length + j
    rw [List.length_modify, List.length_modify, h.fresh]
  functions := fun g => by
    change ((d'.tree.functions.modify (ρ f) change')[ρ g]?).map _
      = ((d.tree.functions.modify f change)[g]?).map _
    have hsame := h.functions g
    rw [List.getElem?_modify, List.getElem?_modify]
    simp only [h.injective.eq_iff]
    change Option.map _ (Option.map _ (d'.tree.function? (ρ g)))
      = Option.map _ (Option.map _ (d.tree.function? g))
    cases hnew : d'.tree.function? (ρ g) with
    | none =>
      rw [hnew] at hsame
      rw [Option.map_eq_none_iff.mp hsame.symm]
      rfl
    | some node' =>
      rw [hnew] at hsame
      obtain ⟨node, hnode, heq⟩ := Option.map_eq_some_iff.mp hsame.symm
      rw [hnode]
      simp only [Option.map_some, Option.some.injEq]
      split
      · rw [hbare', ← heq, FunctionNode.rename_bare, FunctionNode.rename_bare, hbare, hchange]
      · exact heq.symm

end Embeds

/-- A draft without its functions. -/
def rest (d : Draft) : Draft := { d with tree := { d.tree with functions := [] } }

/-- Two drafts change in the same way, and only in their functions. -/
structure Together (ρ : FunctionId → FunctionId) (d d' e e' : Draft) : Prop where
  /-- The functions are still the same. -/
  embeds : Embeds ρ e e'
  /-- Nothing else changes in the one draft. -/
  rest : e.rest = d.rest
  /-- Nothing else changes in the other draft. -/
  rest' : e'.rest = d'.rest

/-- Two steps do the same to drafts with the same functions. Their answers correspond to each
other. -/
def Follows {α : Type} (ρ : FunctionId → FunctionId) (g : α → α) (step step' : Drafting α) :
    Prop :=
  ∀ d d', Embeds ρ d d' →
    (step' d').1 = g (step d).1 ∧ Together ρ d d' (step d).2 (step' d').2

namespace Follows

variable {α β : Type} {g : α → α} {h : β → β}

/-- Giving values that correspond to each other does the same. -/
theorem pure {a a' : α} (ha : a' = g a) : Follows ρ g (Pure.pure a) (Pure.pure a') :=
  fun _ _ hembeds => ⟨ha, hembeds, rfl, rfl⟩

/-- Steps that follow one another do the same when both do. -/
theorem bind {step step' : Drafting α} {next next' : α → Drafting β}
    (hstep : Follows ρ g step step') (hnext : ∀ a, Follows ρ h (next a) (next' (g a))) :
    Follows ρ h (step >>= next) (step' >>= next') := by
  intro d d' hembeds
  obtain ⟨hanswer, hembeds₁, hrest, hrest'⟩ := hstep d d' hembeds
  rw [bind_apply, bind_apply, hanswer]
  obtain ⟨hanswer₁, hembeds₂, hrest₁, hrest₁'⟩ := hnext (step d).1 _ _ hembeds₁
  exact ⟨hanswer₁, hembeds₂, hrest₁.trans hrest, hrest₁'.trans hrest'⟩

/-- What is done with the answers does the same when it respects their correspondence. -/
theorem map {step step' : Drafting α} {f f' : α → β} (hstep : Follows ρ g step step')
    (hf : ∀ a, f' (g a) = h (f a)) : Follows ρ h (f <$> step) (f' <$> step') := by
  rw [← bind_pure_comp, ← bind_pure_comp]
  exact hstep.bind fun a => pure (hf a)

/-- Steps that look at the draft. -/
theorem get_bind {next next' : Draft → Drafting α}
    (hnext : ∀ d d', Embeds ρ d d' → Follows ρ g (next d) (next' d')) :
    Follows ρ g (get >>= next) (get >>= next') :=
  fun d d' hembeds => hnext d d' hembeds d d' hembeds

/-- A step that is done for each item does the same when it does for one. -/
theorem mapM {γ : Type} {step : γ → Drafting α} (hstep : ∀ c, Follows ρ g (step c) (step c))
    (items : List γ) : Follows ρ (List.map g) (items.mapM step) (items.mapM step) := by
  induction items with
  | nil => exact pure rfl
  | cons c rest ih =>
    rw [List.mapM_cons]
    exact (hstep c).bind fun _ => ih.bind fun _ => pure rfl

/-- A step that is done for each position does the same for the renamed positions. -/
theorem forM {step : FunctionId → Drafting Unit}
    (hstep : ∀ f, Follows ρ id (step f) (step (ρ f))) (ids : List FunctionId) :
    Follows ρ id (ids.forM step) ((ids.map ρ).forM step) := by
  induction ids with
  | nil => exact pure rfl
  | cons f rest ih => exact (hstep f).bind fun _ => ih

end Follows

/-- Adding a function and adding the renamed one do the same. -/
theorem addFunction_follows (node : FunctionNode) :
    Follows ρ ρ (addFunction node) (addFunction (node.rename ρ)) :=
  fun _ _ h => ⟨(h.fresh 0).symm, h.grow [node], rfl, rfl⟩

/-- Changing a function does the same at its new position, when the change looks at no class. -/
theorem modifyFunction_follows (f : FunctionId) {change change' : FunctionNode → FunctionNode}
    (hbare : ∀ node, (change node).bare = change node.bare)
    (hbare' : ∀ node, (change' node).bare = change' node.bare)
    (hchange : ∀ node, change' (node.rename ρ) = (change node).rename ρ) :
    Follows ρ id (modifyFunction f change) (modifyFunction (ρ f) change') :=
  fun _ _ h => ⟨rfl, h.modify f hbare hbare' hchange, rfl, rfl⟩

/-- Adding a function without a name does the same in both drafts. -/
theorem addAnonymous_follows (body : Body) :
    Follows ρ ρ (addAnonymous body) (addAnonymous body) :=
  addFunction_follows { kind := .anonymous, body }

/-- Adding a function without a name, if there is one, does the same in both drafts. -/
theorem addAnonymous?_follows (body : Option Body) :
    Follows ρ (Option.map ρ) (addAnonymous? body) (addAnonymous? body) := by
  cases body with
  | none => exact Follows.pure rfl
  | some body => exact (addAnonymous_follows body).map fun _ => rfl

/-- Adding a function with its helper does the same in both drafts. -/
theorem addBound_follows (f : BoundFunction) : Follows ρ ρ (addBound f) (addBound f) :=
  (addAnonymous?_follows f.defaultValues).bind fun defaultValues => addFunction_follows
    { kind := .declared f.name f.descriptor f.isConstructor, body := f.body, defaultValues }

/-- Adding a property does the same in both drafts. -/
theorem addProperty_follows (p : BoundProperty) :
    Follows ρ (PropertyNode.rename ρ) (addProperty p) (addProperty p) :=
  (addAnonymous?_follows p.getter).bind fun _ =>
    (addAnonymous?_follows p.setter).bind fun _ => Follows.pure rfl

/-- Adding an initializer does the same in both drafts. -/
theorem addInitializer_follows (init : Option Body) (shape : ClassShape) :
    Follows ρ (ClassShape.rename ρ) (addInitializer init shape) (addInitializer init shape) := by
  cases shape with
  | facade _ => exact (addAnonymous?_follows init).map fun _ => rfl
  | named shape => exact Follows.pure rfl
  | localClass kind origin => exact Follows.pure rfl
  | defaultImpls => exact Follows.pure rfl

/-- The function around a local one is found by its key and its lines. -/
theorem Embeds.outer? (h : Embeds ρ d d') (keys : LocalKeys) (body : Body) :
    d'.outer? (keys.rename ρ) body = (d.outer? keys body).map (Prod.map id ρ) := by
  have hcandidates (key : String) : ((keys.rename ρ).candidates key).filterMap (fun id =>
        (d'.tree.function? id).map fun node => (id, node.body.lines))
      = ((keys.candidates key).filterMap fun id =>
        (d.tree.function? id).map fun node => (id, node.body.lines)).map (Prod.map ρ id) := by
    rw [LocalKeys.rename_candidates, List.filterMap_map, List.map_filterMap]
    refine List.filterMap_congr fun id _ => ?_
    have hlines := h.function?_map (fun node => (ρ id, node.body.lines)) (fun _ => rfl) id
    rw [Function.comp_apply, hlines, Option.map_map]
    rfl
  unfold Draft.outer?
  rw [LocalKeys.rename_outerKey?]
  cases keys.outerKey? body.signature.name with
  | none => rfl
  | some key =>
    simp only [Option.bind_eq_bind, Option.bind_some]
    rw [hcandidates, LocalKeys.enclosing?_map]
    cases LocalKeys.enclosing? _ body.lines <;> rfl

/-- Placing local functions does the same under the renamed keys. -/
theorem placeEach_follows (locals : List Body) (keys : LocalKeys) :
    Follows ρ (Except.map (List.map ρ)) (placeEach keys locals)
      (placeEach (keys.rename ρ) locals) := by
  induction locals generalizing keys with
  | nil => exact Follows.pure rfl
  | cons body rest ih =>
    refine Follows.get_bind fun d d' h => ?_
    rw [h.outer?]
    cases d.outer? keys body with
    | none => exact Follows.pure rfl
    | some found =>
      obtain ⟨key, outer⟩ := found
      refine Follows.bind (g := ρ) (addFunction_follows _) fun f => Follows.bind (g := id)
        (modifyFunction_follows outer (fun _ => ?_) (fun _ => ?_) fun node => ?_) fun _ => ?_
      · rfl
      · rfl
      · simp [FunctionNode.rename]
      · have hkeys : LocalKeys.rename ρ (keys ++ [(body.signature.name, f)])
            = keys.rename ρ ++ [(body.signature.name, ρ f)] := by
          simp [LocalKeys.rename]
        rw [← hkeys]
        refine (ih _).bind fun answer => ?_
        cases answer with
        | ok placed => exact Follows.pure rfl
        | error signature => exact Follows.pure rfl

/-- The helpers below a local function are found by their signatures. -/
theorem Embeds.localHelpers (h : Embeds ρ d d') {node node' : FunctionNode}
    (hbare : node'.bare = (node.rename ρ).bare) :
    localHelpers d'.tree node' = (localHelpers d.tree node).map ρ := by
  have hlocals : node'.bare.locals = (node.rename ρ).bare.locals := by rw [hbare]
  have hbody : node'.bare.body = (node.rename ρ).bare.body := by rw [hbare]
  change node'.locals = node.locals.map ρ at hlocals
  change node'.body = node.body at hbody
  rw [Draft.localHelpers, Draft.localHelpers, hlocals, hbody, List.filter_map]
  refine congrArg (List.map ρ) (List.filter_congr fun id _ => ?_)
  have hsame := congrArg (Option.any fun is => is) (h.function?_map
    (fun helper => DefaultHelper.isOfFunction helper.body.signature node.body.signature none)
    (fun _ => rfl) id)
  rw [Option.any_map, Option.any_map] at hsame
  exact hsame

/-- Attaching a helper does the same at the new position. -/
theorem attachDefaultValues_follows (f : FunctionId) :
    Follows ρ id (attachDefaultValues f) (attachDefaultValues (ρ f)) := by
  refine Follows.get_bind fun d d' h => ?_
  have hsame := h.functions f
  dsimp only
  cases hnew : d'.tree.function? (ρ f) with
  | none =>
    rw [hnew] at hsame
    rw [Option.map_eq_none_iff.mp hsame.symm]
    exact Follows.pure rfl
  | some node' =>
    rw [hnew] at hsame
    obtain ⟨node, hnode, hbare⟩ := Option.map_eq_some_iff.mp hsame.symm
    have hkind : node'.bare.kind = (node.rename ρ).bare.kind := by rw [hbare]
    change node'.kind = node.kind at hkind
    rw [hnode]
    dsimp only
    rw [hkind, h.localHelpers hbare.symm]
    cases node.kind with
    | declared name descriptor isConstructor => exact Follows.pure rfl
    | anonymous => exact Follows.pure rfl
    | localFunction name =>
      match localHelpers d.tree node with
      | [] | _ :: _ :: _ => exact Follows.pure rfl
      | [helper] =>
        refine Follows.bind (g := id) (modifyFunction_follows f (fun _ => ?_) (fun _ => ?_)
          fun node => ?_) fun _ => modifyFunction_follows helper (fun _ => ?_) (fun _ => ?_)
            fun _ => ?_
        · rfl
        · rfl
        · simp [FunctionNode.rename, List.map_erase h.injective]
        · rfl
        · rfl
        · rfl

/-- Placing local functions with their helpers does the same under the renamed keys. -/
theorem placeLocals_follows (keys : LocalKeys) (locals : List Body) :
    Follows ρ id (placeLocals keys locals) (placeLocals (keys.rename ρ) locals) := by
  refine (placeEach_follows (byNameLength locals) keys).bind fun answer => ?_
  cases answer with
  | error signature => exact Follows.pure rfl
  | ok placed =>
    exact (Follows.forM attachDefaultValues_follows placed).bind fun _ => Follows.pure rfl

/-- Every class of a draft has a source. -/
def HasSources (d : Draft) : Prop := d.sources.length = d.tree.classes.length

namespace Together

variable {e e' f f' : Draft}

/-- Changes that follow one another are the same when both are. -/
theorem trans (h : Together ρ d d' e e') (h' : Together ρ e e' f f') : Together ρ d d' f f' :=
  ⟨h'.embeds, h'.rest.trans h.rest, h'.rest'.trans h.rest'⟩

/-- Neither draft changes in its classes. -/
theorem classes_eq (h : Together ρ d d' e e') :
    e.tree.classes = d.tree.classes ∧ e'.tree.classes = d'.tree.classes :=
  ⟨congrArg (·.tree.classes) h.rest, congrArg (·.tree.classes) h.rest'⟩

/-- Every class keeps its source in both drafts. -/
theorem hasSources (h : Together ρ d d' e e') (hd : HasSources d) (hd' : HasSources d') :
    HasSources e ∧ HasSources e' := by
  have hsources : e.sources = d.sources := congrArg (·.sources) h.rest
  have hsources' : e'.sources = d'.sources := congrArg (·.sources) h.rest'
  rw [HasSources, HasSources, hsources, hsources', h.classes_eq.1, h.classes_eq.2]
  exact ⟨hd, hd'⟩

end Together

/-- Two steps add the same class, after the same functions. -/
def AddsAlike (ρ : FunctionId → FunctionId) (d d' : Draft) (step step' : Drafting ClassId) :
    Prop :=
  ∃ e e' node source new, Together ρ d d' e e'
    ∧ step d = (d.tree.classes.length, e.withClass [] node source new)
    ∧ step' d' = (d'.tree.classes.length, e'.withClass [] (node.rename ρ) source new)

/-- A class that is added after steps that do the same is the same. -/
theorem Follows.bind_addsAlike {α : Type} {g : α → α} {step step' : Drafting α}
    {next next' : α → Drafting ClassId} (hstep : Follows ρ g step step') (h : Embeds ρ d d')
    (hnext : ∀ a e e', Together ρ d d' e e' → AddsAlike ρ e e' (next a) (next' (g a))) :
    AddsAlike ρ d d' (step >>= next) (step' >>= next') := by
  obtain ⟨hanswer, htogether⟩ := hstep d d' h
  obtain ⟨e, e', node, source, new, hmore, hrun, hrun'⟩ :=
    hnext (step d).1 _ _ htogether
  refine ⟨e, e', node, source, new, htogether.trans hmore, ?_, ?_⟩
  · rw [bind_apply, hrun, htogether.classes_eq.1]
  · rw [bind_apply, hanswer, hrun', htogether.classes_eq.2]

/-- A class that is added after a look at the draft is the same when it is for both drafts. -/
theorem AddsAlike.get_bind {next next' : Draft → Drafting ClassId}
    (h : AddsAlike ρ d d' (next d) (next' d')) :
    AddsAlike ρ d d' (get >>= next) (get >>= next') := h

/-- How a local function below no function is reported. -/
def strayFailure (source : ClassSource) (node : ClassNode) (signature : Signature) :
    ClassFailure :=
  ⟨source.file, some node.jvmName,
    .composition node.jvmName (PlacementFault.noOuterFunction signature).message⟩

/-- A class goes after its local functions. It fails if one of them is left over. -/
theorem addPlaced_apply {e : Draft} {unplaced : Option Signature} {keys : LocalKeys}
    {locals : List Body} (hrun : placeLocals keys locals d = (unplaced, e))
    (hsources : HasSources e) (node : ClassNode) (hfailed : node.failed = false)
    (source : ClassSource) :
    addPlaced node source keys locals d = (e.tree.classes.length,
      e.withClass [] { node with failed := unplaced.isSome } source
        (unplaced.toList.map (strayFailure source node))) := by
  cases unplaced with
  | none =>
    have hnode : { node with failed := false } = node := by rw [← hfailed]
    rw [addPlaced_of_none hrun]
    simp [addClass, withClass, hnode]
  | some signature =>
    have hsource : (addClass node source e).2.sources[e.tree.classes.length]? = some source := by
      change (e.sources ++ [source])[e.tree.classes.length]? = some source
      rw [← show e.sources.length = e.tree.classes.length from hsources]
      exact List.getElem?_concat_length
    rw [addPlaced_of_some hrun, failureOf, hsource]
    simp [addClass, withClass, withFailed, Lists.modify_append_last, strayFailure]

/-- Adding a class with its local functions adds the same class under the renamed keys. -/
theorem addPlaced_addsAlike (h : Embeds ρ d d') (hd : HasSources d) (hd' : HasSources d')
    (node : ClassNode) (hfailed : node.failed = false) (source : ClassSource) (keys : LocalKeys)
    (locals : List Body) :
    AddsAlike ρ d d' (addPlaced node source keys locals)
      (addPlaced (node.rename ρ) source (keys.rename ρ) locals) := by
  obtain ⟨hanswer, htogether⟩ := placeLocals_follows keys locals d d' h
  obtain ⟨he, he'⟩ := htogether.hasSources hd hd'
  have hrun := addPlaced_apply Prod.mk.eta.symm he node hfailed source
  have hrun' := addPlaced_apply Prod.mk.eta.symm he' (node.rename ρ) hfailed source
  rw [htogether.classes_eq.1] at hrun
  rw [htogether.classes_eq.2, hanswer] at hrun'
  exact ⟨_, _, _, source, _, htogether, hrun, hrun'⟩

/-- The keys of functions are renamed with their positions. -/
theorem functionKeys_rename (functions : List BoundFunction) (ids : List FunctionId) :
    functionKeys functions (ids.map ρ) = (functionKeys functions ids).rename ρ := by
  rw [functionKeys, functionKeys, LocalKeys.rename, List.zip_map_right, List.flatMap_map,
    List.map_flatMap]
  refine List.flatMap_congr fun entry _ => ?_
  simp

/-- The keys of a property are renamed with its accessors. -/
theorem propertyKeys_rename (p : PropertyNode) :
    propertyKeys (p.rename ρ) = LocalKeys.rename ρ (propertyKeys p) := by
  simp [propertyKeys, LocalKeys.rename, PropertyNode.rename, Option.toList_map,
    Function.comp_def]

/-- The keys of properties are renamed with their accessors. -/
theorem flatMap_propertyKeys_rename (properties : List PropertyNode) :
    (properties.map (PropertyNode.rename ρ)).flatMap propertyKeys
      = LocalKeys.rename ρ (properties.flatMap propertyKeys) := by
  simp only [List.flatMap_map, propertyKeys_rename, LocalKeys.rename, List.map_flatMap]

/-- A class with its members. -/
theorem addClassWith_addsAlike (h : Embeds ρ d d') (hd : HasSources d) (hd' : HasSources d')
    (file jvmName : String) (shape : ClassShape) (m : Members) :
    AddsAlike ρ d d' (addClassWith file jvmName shape m)
      (addClassWith file jvmName shape m) := by
  refine (Follows.mapM addBound_follows m.functions).bind_addsAlike h fun functions d₁ d₁' h₁ => ?_
  refine (Follows.mapM addBound_follows m.constructors).bind_addsAlike h₁.embeds
    fun constructors d₂ d₂' h₂ => ?_
  refine (Follows.mapM addProperty_follows m.properties).bind_addsAlike h₂.embeds
    fun properties d₃ d₃' h₃ => ?_
  refine (addInitializer_follows m.init shape).bind_addsAlike h₃.embeds fun shape d₄ d₄' h₄ => ?_
  obtain ⟨hs, hs'⟩ := (((h₁.trans h₂).trans h₃).trans h₄).hasSources hd hd'
  have hkeys : functionKeys m.functions (functions.map ρ)
      ++ functionKeys m.constructors (constructors.map ρ)
      ++ (properties.map (PropertyNode.rename ρ)).flatMap propertyKeys
      = LocalKeys.rename ρ (functionKeys m.functions functions
        ++ functionKeys m.constructors constructors ++ properties.flatMap propertyKeys) := by
    rw [functionKeys_rename, functionKeys_rename, flatMap_propertyKeys_rename]
    simp only [LocalKeys.rename, List.map_append]
  have hplaced := addPlaced_addsAlike h₄.embeds hs hs'
    { jvmName, shape, functions, constructors, properties } rfl
    ⟨file, m.forwarders.map (·.signature)⟩ (functionKeys m.functions functions
      ++ functionKeys m.constructors constructors ++ properties.flatMap propertyKeys) m.locals
  rw [← hkeys] at hplaced
  exact hplaced

/-- What the body of an interface function is found and named by. -/
def heading (f : FunctionNode) : String × Signature := (f.name, f.body.signature)

/-- Adding the body of a function does the same for functions of one name and signature. -/
theorem addFunctionBody_follows (interfaceName : String) {f f' : FunctionNode}
    (hheading : heading f' = heading f) (bodies : List Body) :
    Follows ρ (Prod.map (Option.map ρ) id) (addFunctionBody interfaceName f bodies)
      (addFunctionBody interfaceName f' bodies) := by
  obtain ⟨hname, hsignature⟩ := Prod.mk.inj hheading
  unfold addFunctionBody
  rw [hsignature, hname]
  dsimp only
  cases takeBody? (·.signature == f.body.signature.inDefaultImpls interfaceName) bodies with
  | none => exact Follows.pure rfl
  | some taken =>
    obtain ⟨body, bodies⟩ := taken
    refine Follows.bind (g := ρ) (addFunction_follows _) fun id => ?_
    cases takeBody? (DefaultHelper.isOfFunction ·.signature f.body.signature none) bodies with
    | none => exact Follows.pure rfl
    | some taken =>
      obtain ⟨helper, bodies⟩ := taken
      refine (addAnonymous_follows helper).bind fun helper => Follows.bind (g := fun u => u)
        (modifyFunction_follows id (fun _ => ?_) (fun _ => ?_) fun _ => ?_) fun _ => ?_
      · rfl
      · rfl
      · rfl
      · exact Follows.pure rfl

/-- Adding the bodies of functions does the same for functions of the same names and signatures. -/
theorem addFunctionBodies_follows (interfaceName : String) {fs fs' : List FunctionNode}
    (hheadings : fs'.map heading = fs.map heading) (bodies : List Body) :
    Follows ρ (Prod.map (LocalKeys.rename ρ) id) (addFunctionBodies interfaceName fs bodies)
      (addFunctionBodies interfaceName fs' bodies) := by
  induction fs generalizing fs' bodies with
  | nil =>
    rw [List.map_nil, List.map_eq_nil_iff] at hheadings
    rw [hheadings]
    exact Follows.pure rfl
  | cons f rest ih =>
    obtain ⟨f', rest', rfl, hheading, hrest⟩ := List.map_eq_cons_iff.mp hheadings
    have hname : f'.name = f.name := congrArg Prod.fst hheading
    refine (addFunctionBody_follows interfaceName hheading bodies).bind fun (found, left) => ?_
    refine (ih hrest left).bind fun (others, left) => Follows.pure ?_
    rw [hname]
    cases found <;> simp [LocalKeys.rename]

/-- Adding the body of an accessor does the same for the renamed accessor. -/
theorem addAccessorBody_follows (interfaceName : String) (accessor : Option FunctionId)
    (bodies : List Body) :
    Follows ρ (Prod.map (Option.map ρ) id) (addAccessorBody interfaceName accessor bodies)
      (addAccessorBody interfaceName (accessor.map ρ) bodies) := by
  refine Follows.get_bind fun d d' h => ?_
  have hsame : ((accessor.map ρ).bind d'.tree.function?).map (·.body.signature)
      = (accessor.bind d.tree.function?).map (·.body.signature) := by
    cases accessor with
    | none => rfl
    | some f => exact h.function?_map (·.body.signature) (fun _ => rfl) f
  cases hnew : (accessor.map ρ).bind d'.tree.function? with
  | none =>
    rw [hnew] at hsame
    rw [Option.map_eq_none_iff.mp hsame.symm]
    exact Follows.pure rfl
  | some f' =>
    rw [hnew] at hsame
    obtain ⟨f, hf, hsignature⟩ := Option.map_eq_some_iff.mp hsame.symm
    rw [hf]
    dsimp only
    rw [hsignature]
    cases takeBody? (·.signature == f'.body.signature.inDefaultImpls interfaceName) bodies with
    | none => exact Follows.pure rfl
    | some taken => exact (addAnonymous_follows taken.1).bind fun _ => Follows.pure rfl

/-- Adding the bodies of accessors does the same for the renamed properties. -/
theorem addPropertyBodies_follows (interfaceName : String) (properties : List PropertyNode)
    (bodies : List Body) :
    Follows ρ (Prod.map (List.map (PropertyNode.rename ρ)) id)
      (addPropertyBodies interfaceName properties bodies)
      (addPropertyBodies interfaceName (properties.map (PropertyNode.rename ρ)) bodies) := by
  induction properties generalizing bodies with
  | nil => exact Follows.pure rfl
  | cons p rest ih =>
    refine (addAccessorBody_follows interfaceName p.getter bodies).bind fun (getter, left) => ?_
    refine (addAccessorBody_follows interfaceName p.setter left).bind fun (setter, left) => ?_
    refine (ih left).bind fun (others, left) => Follows.pure ?_
    cases getter <;> cases setter <;> rfl

/-- A holder whose interface is in both drafts. -/
theorem addHolder_addsAlike (h : Embeds ρ d d') (hd : HasSources d) (hd' : HasSources d')
    (file : String) (u : DefaultImplsUnit) {interface interface' : ClassNode}
    (hbare : interface'.bare = (interface.rename ρ).bare) :
    AddsAlike ρ d d' (addHolder file u interface) (addHolder file u interface') := by
  have hfunctions : interface'.bare.functions = (interface.rename ρ).bare.functions := by rw [hbare]
  have hproperties : interface'.bare.properties = (interface.rename ρ).bare.properties := by
    rw [hbare]
  change interface'.functions = interface.functions.map ρ at hfunctions
  change interface'.properties = interface.properties.map (PropertyNode.rename ρ) at hproperties
  have hheadings : ((interface.functions.map ρ).filterMap d'.tree.function?).map heading
      = (interface.functions.filterMap d.tree.function?).map heading := by
    rw [List.filterMap_map, List.map_filterMap, List.map_filterMap]
    exact List.filterMap_congr fun f _ => h.function?_map heading (fun _ => rfl) f
  refine AddsAlike.get_bind ?_
  dsimp only
  rw [hfunctions, hproperties]
  refine (addFunctionBodies_follows u.interfaceName hheadings u.methods).bind_addsAlike h
    fun (keyed, left) d₁ d₁' h₁ => ?_
  refine (addPropertyBodies_follows u.interfaceName interface.properties left).bind_addsAlike
    h₁.embeds fun (properties, left) d₂ d₂' h₂ => ?_
  have hkeys : LocalKeys.rename ρ keyed
      ++ (properties.map (PropertyNode.rename ρ)).flatMap propertyKeys
      = LocalKeys.rename ρ (keyed ++ properties.flatMap propertyKeys) := by
    rw [flatMap_propertyKeys_rename]
    simp only [LocalKeys.rename, List.map_append]
  dsimp only [Prod.map, id_eq]
  rw [hkeys, List.partition_eq_filter_filter, List.partition_eq_filter_filter]
  simp only [LocalKeys.rename_longestKey?]
  refine (Follows.mapM (fun _ => addFunction_follows _) _).bind_addsAlike h₂.embeds
    fun others d₃ d₃' h₃ => ?_
  obtain ⟨hs, hs'⟩ := ((h₁.trans h₂).trans h₃).hasSources hd hd'
  have hnode : (⟨u.jvmName, .defaultImpls, (LocalKeys.rename ρ keyed).map Prod.snd ++ others.map ρ,
      [], properties.map (PropertyNode.rename ρ), false⟩ : ClassNode) = ClassNode.rename ρ
        ⟨u.jvmName, .defaultImpls, keyed.map Prod.snd ++ others, [], properties, false⟩ := by
    simp [ClassNode.rename, ClassShape.rename, LocalKeys.rename]
  rw [hnode]
  exact addPlaced_addsAlike h₃.embeds hs hs' _ rfl _ _ _

end Draft

end LineAtlas
