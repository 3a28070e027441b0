import LineAtlas.Proofs.Tree.Renaming

/-!
# Trees with nodes at other positions

Two trees correspond to each other when a permutation of positions takes one to the other, up to
the order of classes in their places. Drafts correspond when their trees do and the same classes
wait.
-/

namespace LineAtlas

section Rename

variable {ρ σ : FunctionId → FunctionId}

/-- Renaming a function depends only on what is right below it. -/
theorem FunctionNode.rename_congr {node : FunctionNode} (h : ∀ f ∈ node.below, ρ f = σ f) :
    node.rename ρ = node.rename σ := by
  have hvalues : node.defaultValues.map ρ = node.defaultValues.map σ :=
    Option.map_congr fun f hf => h f (List.mem_append_left _ (Option.mem_toList.mpr hf))
  have hlocals : node.locals.map ρ = node.locals.map σ :=
    List.map_congr_left fun f hf => h f (List.mem_append_right _ hf)
  rw [rename, rename, hvalues, hlocals]

/-- A function is the same under its own positions. -/
theorem FunctionNode.rename_id (node : FunctionNode) : node.rename id = node := by
  simp [rename]

/-- A function is renamed in two steps as in one. -/
theorem FunctionNode.rename_rename (node : FunctionNode) :
    (node.rename ρ).rename σ = node.rename (σ ∘ ρ) := by
  simp [rename]

/-- Renaming a property depends only on its accessors. -/
theorem PropertyNode.rename_congr {p : PropertyNode} (h : ∀ f ∈ p.accessors, ρ f = σ f) :
    p.rename ρ = p.rename σ := by
  have hgetter : p.getter.map ρ = p.getter.map σ :=
    Option.map_congr fun f hf => h f (List.mem_append_left _ (Option.mem_toList.mpr hf))
  have hsetter : p.setter.map ρ = p.setter.map σ :=
    Option.map_congr fun f hf => h f (List.mem_append_right _ (Option.mem_toList.mpr hf))
  rw [rename, rename, hgetter, hsetter]

/-- Renaming a shape depends only on its initializers. -/
theorem ClassShape.rename_congr {s : ClassShape} (h : ∀ f ∈ s.initializers, ρ f = σ f) :
    s.rename ρ = s.rename σ := by
  match s with
  | .facade (some init) => simp [rename, h init List.mem_cons_self]
  | .facade none | .named shape | .localClass kind origin | .defaultImpls => rfl

/-- Renaming a class depends only on its members. -/
theorem ClassNode.rename_congr {node : ClassNode} (h : ∀ f ∈ node.memberFunctions, ρ f = σ f) :
    node.rename ρ = node.rename σ := by
  simp only [ClassNode.memberFunctions_eq, ClassNode.listedFunctions, List.mem_append] at h
  have hproperties : node.properties.map (PropertyNode.rename ρ)
      = node.properties.map (PropertyNode.rename σ) :=
    List.map_congr_left fun p hp => PropertyNode.rename_congr fun f hf =>
      h f (Or.inl (Or.inr (List.mem_flatMap.mpr ⟨p, hp, hf⟩)))
  rw [rename, rename, hproperties, ClassShape.rename_congr fun f hf => h f (Or.inr hf),
    List.map_congr_left fun f hf => h f (Or.inl (Or.inl (Or.inl hf))),
    List.map_congr_left fun f hf => h f (Or.inl (Or.inl (Or.inr hf)))]

/-- A property is renamed in two steps as in one. -/
theorem PropertyNode.rename_rename (p : PropertyNode) :
    (p.rename ρ).rename σ = p.rename (σ ∘ ρ) := by
  simp [rename]

/-- A shape is renamed in two steps as in one. -/
theorem ClassShape.rename_rename (s : ClassShape) :
    (s.rename ρ).rename σ = s.rename (σ ∘ ρ) := by
  cases s <;> simp [rename]

/-- A class is the same under its own positions. -/
theorem ClassNode.rename_id (node : ClassNode) : node.rename id = node := by
  have hproperty : PropertyNode.rename id = id := funext fun p => by simp [PropertyNode.rename]
  obtain ⟨jvmName, shape, functions, constructors, properties, failed⟩ := node
  cases shape <;> simp [rename, ClassShape.rename, hproperty]

/-- A class is renamed in two steps as in one. -/
theorem ClassNode.rename_rename (node : ClassNode) :
    (node.rename ρ).rename σ = node.rename (σ ∘ ρ) := by
  simp [rename, ClassShape.rename_rename, Function.comp_def, PropertyNode.rename_rename]

end Rename

/-- A place in a tree whose nodes are at other positions. -/
def Slot.rename (ρ : FunctionId → FunctionId) (κ : ClassId → ClassId) : Slot → Slot
  | .topLevel => .topLevel
  | .nested owner => .nested (κ owner)
  | .body f => .body (ρ f)

namespace SourceTree

/-- A tree is another one whose functions and classes are at other positions. The same classes are
in every place, but their order may differ. -/
structure Corresponds (ρ : Equiv.Perm FunctionId) (κ : Equiv.Perm ClassId)
    (t t' : SourceTree) : Prop where
  /-- The path is the same. -/
  path : t'.path = t.path
  /-- A function is of the same kind and has the same method. It has the same helper for default
  arguments, and the same local functions in the same order. -/
  functions : ∀ f, (t'.function? (ρ f)).map FunctionNode.bare
    = (t.function? f).map fun node => (node.rename ρ).bare
  /-- A class has the same name and shape, and the same members in the same order. -/
  classes : ∀ c, (t'.class? (κ c)).map ClassNode.bare
    = (t.class? c).map fun node => (node.rename ρ).bare
  /-- The same classes failed. -/
  failed : ∀ c, t'.isFailed (κ c) = t.isFailed c
  /-- The same classes are at the top level, nested in a class or in the body of a function. -/
  slots : ∀ s : Slot, (t'.slot (s.rename ρ κ)).Perm ((t.slot s).map κ)
  /-- A class has the same companion object. -/
  companion : ∀ c, t'.companionOf (κ c) = (t.companionOf c).map κ
  /-- An interface has the same holder of bodies. -/
  holder : ∀ c, t'.holderOf (κ c) = (t.holderOf c).map κ
  /-- The file has the same top levels. -/
  facades : t'.facades.Perm (t.facades.map κ)

namespace Corresponds

variable {t t' t'' : SourceTree} {ρ σ : Equiv.Perm FunctionId} {κ τ : Equiv.Perm ClassId}

/-- A tree corresponds to itself. -/
theorem refl (t : SourceTree) : Corresponds (Equiv.refl _) (Equiv.refl _) t t where
  path := rfl
  functions := fun f => by simp [FunctionNode.rename_id]
  classes := fun c => by simp [ClassNode.rename_id]
  failed := fun _ => rfl
  slots := fun s => by cases s <;> simp [Slot.rename]
  companion := fun c => by simp
  holder := fun c => by simp
  facades := by simp

/-- A tree corresponds to what corresponds to one it corresponds to. -/
theorem trans (h : Corresponds ρ κ t t') (h' : Corresponds σ τ t' t'') :
    Corresponds (ρ.trans σ) (κ.trans τ) t t'' where
  path := h'.path.trans h.path
  functions := fun f => by
    have hmap := congrArg (Option.map (FunctionNode.rename σ)) (h.functions f)
    rw [Option.map_map, Option.map_map] at hmap
    rw [Equiv.trans_apply, h'.functions]
    refine hmap.trans (congrArg (Option.map · _) (funext fun node => ?_))
    exact congrArg FunctionNode.bare (FunctionNode.rename_rename node)
  classes := fun c => by
    have hmap := congrArg (Option.map (ClassNode.rename σ)) (h.classes c)
    rw [Option.map_map, Option.map_map] at hmap
    rw [Equiv.trans_apply, h'.classes]
    simp only [Function.comp_def, ← ClassNode.rename_bare, ClassNode.rename_rename] at hmap
    exact hmap
  failed := fun c => (h'.failed (κ c)).trans (h.failed c)
  slots := fun s => by
    have hslot : s.rename (ρ.trans σ) (κ.trans τ) = (s.rename ρ κ).rename σ τ := by
      cases s <;> rfl
    rw [hslot]
    refine (h'.slots _).trans (((h.slots s).map τ).trans (List.Perm.of_eq ?_))
    rw [List.map_map]
    rfl
  companion := fun c => by
    rw [Equiv.trans_apply, h'.companion, h.companion, List.map_map]
    rfl
  holder := fun c => by
    rw [Equiv.trans_apply, h'.holder, h.holder, List.map_map]
    rfl
  facades := by
    refine h'.facades.trans ((h.facades.map τ).trans (List.Perm.of_eq ?_))
    rw [List.map_map]
    rfl

/-- Failed classes by their positions. -/
theorem class?_failed (h : Corresponds ρ κ t t') (c : ClassId) :
    (t'.class? (κ c)).map ClassNode.failed = (t.class? c).map ClassNode.failed := by
  have hfailed := h.failed c
  have hclass := h.classes c
  simp only [isFailed] at hfailed
  cases hold : t.class? c with
  | none =>
    rw [hold] at hclass
    rw [Option.map_eq_none_iff.mp hclass, Option.map_none]
  | some node =>
    rw [hold] at hclass hfailed
    obtain ⟨node', hnode', -⟩ := Option.map_eq_some_iff.mp hclass
    rw [hnode'] at hfailed ⊢
    exact congrArg some hfailed

end Corresponds

/-- Failed classes at their positions. -/
theorem isFailed_eq_of_map_failed {t t' : SourceTree} {c c' : ClassId}
    (h : (t'.class? c').map ClassNode.failed = (t.class? c).map ClassNode.failed) :
    t'.isFailed c' = t.isFailed c := by
  have hany := congrArg (Option.any id) h
  rwa [Option.any_map, Option.any_map] at hany

end SourceTree

namespace Draft

/-- A draft is another one whose functions and classes are at other positions. The order of what
waits and of what went wrong may differ. -/
structure Corresponds (ρ : Equiv.Perm FunctionId) (κ : Equiv.Perm ClassId) (d d' : Draft) :
    Prop where
  /-- The trees correspond. -/
  tree : d.tree.Corresponds ρ κ d'.tree
  /-- They have as many functions. -/
  functionsLength : d'.tree.functions.length = d.tree.functions.length
  /-- New functions come to the end. -/
  functionsFixed : ∀ f, d.tree.functions.length ≤ f → ρ f = f
  /-- They have as many classes. -/
  classesLength : d'.tree.classes.length = d.tree.classes.length
  /-- New classes come to the end. -/
  classesFixed : ∀ c, d.tree.classes.length ≤ c → κ c = c
  /-- Classes come from the same files. -/
  sources : ∀ c, d'.sources[κ c]? = d.sources[c]?
  /-- The same was added. -/
  names : d'.names.Perm d.names
  /-- The same classes have names of their own. -/
  named : d'.named.Perm (d.named.map κ)
  /-- The same classes are local. -/
  localClasses : d'.localClasses.Perm (d.localClasses.map κ)
  /-- The same holders wait. -/
  holders : d'.holders.Perm d.holders
  /-- The same went wrong. -/
  failures : d'.failures.Perm d.failures

/-- A draft is another one but for positions and order. -/
def Alike (d d' : Draft) : Prop := ∃ ρ κ, Corresponds ρ κ d d'

namespace Corresponds

variable {d d' d'' : Draft} {ρ σ : Equiv.Perm FunctionId} {κ τ : Equiv.Perm ClassId}

/-- A draft corresponds to itself. -/
theorem refl (d : Draft) : Corresponds (Equiv.refl _) (Equiv.refl _) d d where
  tree := .refl d.tree
  functionsLength := rfl
  functionsFixed := fun _ _ => rfl
  classesLength := rfl
  classesFixed := fun _ _ => rfl
  sources := fun _ => rfl
  names := .refl _
  named := by simp
  localClasses := by simp
  holders := .refl _
  failures := .refl _

/-- A draft corresponds to what corresponds to one it corresponds to. -/
theorem trans (h : Corresponds ρ κ d d') (h' : Corresponds σ τ d' d'') :
    Corresponds (ρ.trans σ) (κ.trans τ) d d'' where
  tree := h.tree.trans h'.tree
  functionsLength := h'.functionsLength.trans h.functionsLength
  functionsFixed := fun f hf => by
    rw [Equiv.trans_apply, h.functionsFixed f hf, h'.functionsFixed f (h.functionsLength ▸ hf)]
  classesLength := h'.classesLength.trans h.classesLength
  classesFixed := fun c hc => by
    rw [Equiv.trans_apply, h.classesFixed c hc, h'.classesFixed c (h.classesLength ▸ hc)]
  sources := fun c => (h'.sources (κ c)).trans (h.sources c)
  names := h'.names.trans h.names
  named := by
    refine h'.named.trans ((h.named.map τ).trans (List.Perm.of_eq ?_))
    rw [List.map_map]
    rfl
  localClasses := by
    refine h'.localClasses.trans ((h.localClasses.map τ).trans (List.Perm.of_eq ?_))
    rw [List.map_map]
    rfl
  holders := h'.holders.trans h.holders
  failures := h'.failures.trans h.failures

/-- The functions of a draft are in every draft that corresponds to it. -/
theorem embeds (h : Corresponds ρ κ d d') : Embeds ρ d d' where
  injective := ρ.injective
  fresh := fun j => by
    rw [h.functionsFixed _ (Nat.le_add_right _ j), h.functionsLength]
  functions := h.tree.functions

end Corresponds

/-- A draft is like itself. -/
theorem Alike.refl (d : Draft) : Alike d d := ⟨_, _, .refl d⟩

/-- A draft is like whatever is like one that it is like. -/
theorem Alike.trans {d d' d'' : Draft} (h : Alike d d') (h' : Alike d' d'') : Alike d d'' := by
  obtain ⟨ρ, κ, h⟩ := h
  obtain ⟨σ, τ, h'⟩ := h'
  exact ⟨_, _, h.trans h'⟩

/-- What is done item by item, on alike drafts, does not depend on the order of the items, if that
of two items next to each other does not matter. A draft has to be ready for the items. -/
theorem forM_alike {α : Type} {step : α → Drafting Unit} {Ready : Draft → List α → Prop}
    (hperm : ∀ {d items items'}, items.Perm items' → Ready d items → Ready d items')
    (hnext : ∀ {d a items}, Ready d (a :: items) → Ready (step a d).2 items)
    (hstep : ∀ {d d' a items}, Ready d (a :: items) → Ready d' (a :: items) → Alike d d' →
      Alike (step a d).2 (step a d').2)
    (hswap : ∀ {d a b items}, Ready d (a :: b :: items) →
      Alike (step b (step a d).2).2 (step a (step b d).2).2)
    {items items' : List α} (h : items.Perm items') {d d' : Draft} (hready : Ready d items)
    (hready' : Ready d' items) (halike : Alike d d') :
    Alike (items.forM step d).2 (items'.forM step d').2 := by
  have hsame (items : List α) {d d' : Draft} (hready : Ready d items) (hready' : Ready d' items)
      (halike : Alike d d') : Alike (items.forM step d).2 (items.forM step d').2 := by
    induction items generalizing d d' with
    | nil => exact halike
    | cons a rest ih =>
      exact ih (hnext hready) (hnext hready') (hstep hready hready' halike)
  induction h generalizing d d' with
  | nil => exact halike
  | cons a _ ih => exact ih (hnext hready) (hnext hready') (hstep hready hready' halike)
  | swap a b rest =>
    have hready₁ := hnext hready
    have hready₂ := hnext hready'
    have htwo := hstep hready₁ hready₂ (hstep hready hready' halike)
    refine hsame rest (hnext hready₁) (hnext (hnext (hperm (.swap a b rest) hready'))) ?_
    exact htwo.trans (hswap hready')
  | trans hone _ ih ih' =>
    exact (ih hready hready' halike).trans
      (ih' (hperm hone hready') (hperm hone hready') (Alike.refl d'))

end Draft

end LineAtlas
