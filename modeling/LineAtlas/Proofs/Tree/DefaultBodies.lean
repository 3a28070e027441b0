import LineAtlas.Proofs.Tree.Members
import LineAtlas.Tree.DefaultBodies

/-!
# Blocks of holders

A holder adds the bodies of interface methods as members of a class of its own. Every body goes
to a member of the interface, is local in one, or is a member by itself.
-/

namespace LineAtlas.Draft

variable {d d' : Draft} {bodies left : List Body}

/-- The order of the roots does not matter for what has grown. -/
theorem Grown.perm_roots {roots roots' unnamed : List FunctionId}
    (h : Grown d d' roots unnamed bodies) (hperm : roots.Perm roots') :
    Grown d d' roots' unnamed bodies := by
  obtain ⟨block, hblock, hrooted, hunnamed⟩ := h
  exact ⟨block, hblock, hrooted.perm_roots hperm, hunnamed⟩

/-- A step that takes some bodies out of a list and adds them as functions. -/
def Takes (d d' : Draft) (roots unnamed : List FunctionId) (bodies left : List Body) : Prop :=
  ∃ taken, Grown d d' roots unnamed taken ∧ bodies.Perm (taken ++ left)

/-- Taking no bodies leaves all of them. -/
theorem Takes.refl (d : Draft) (bodies : List Body) : Takes d d [] [] bodies bodies :=
  ⟨[], Grown.refl d, List.Perm.refl _⟩

/-- Bodies that are taken one after the other are taken together. -/
theorem Takes.trans {d'' : Draft} {roots roots' unnamed unnamed' : List FunctionId}
    {left' : List Body} (h : Takes d d' roots unnamed bodies left)
    (h' : Takes d' d'' roots' unnamed' left left') :
    Takes d d'' (roots ++ roots') (unnamed ++ unnamed') bodies left' := by
  obtain ⟨taken, hgrown, hperm⟩ := h
  obtain ⟨taken', hgrown', hperm'⟩ := h'
  refine ⟨taken ++ taken', hgrown.trans hgrown', ?_⟩
  rw [List.append_assoc]
  exact hperm.trans (hperm'.append_left taken)

/-- A body that is taken and those that are left are all of them. -/
theorem takeBody?_perm {kind : Body → Bool} {body : Body}
    (h : takeBody? kind bodies = some (body, left)) : bodies.Perm (body :: left) := by
  unfold takeBody? at h
  split at h
  · next found hfound =>
    obtain ⟨rfl, rfl⟩ := Prod.mk.inj (Option.some.inj h)
    exact Lists.perm_cons_eraseP hfound
  · simp at h

/-- A body that is taken is of the kind, and the others stay in order. -/
theorem takeBody?_sublist {kind : Body → Bool} {body : Body}
    (h : takeBody? kind bodies = some (body, left)) :
    kind body = true ∧ left.Sublist bodies := by
  unfold takeBody? at h
  split at h
  · next found hfound =>
    obtain ⟨rfl, rfl⟩ := Prod.mk.inj (Option.some.inj h)
    exact ⟨List.find?_some hfound, List.eraseP_sublist⟩
  · simp at h

section FunctionBody

variable {interfaceName : String} {f : FunctionNode} {body : Body} {rest : List Body}

/-- The body of an interface function that has no helper. -/
theorem addFunctionBody_alone
    (hbody : takeBody? (·.signature == f.body.signature.inDefaultImpls interfaceName) bodies
      = some (body, rest))
    (hhelper : takeBody? (DefaultHelper.isOfFunction ·.signature f.body.signature none) rest
      = none) (d : Draft) :
    addFunctionBody interfaceName f bodies d = ((some d.tree.functions.length, rest),
      d.grow [{ kind := .declared f.name none false, body := body }]) := by
  rw [addFunctionBody, hbody]
  dsimp only
  rw [bind_apply, hhelper]
  rfl

/-- The body of an interface function and its helper. -/
theorem addFunctionBody_withHelper {helper : Body}
    (hbody : takeBody? (·.signature == f.body.signature.inDefaultImpls interfaceName) bodies
      = some (body, rest))
    (hhelper : takeBody? (DefaultHelper.isOfFunction ·.signature f.body.signature none) rest
      = some (helper, left)) (d : Draft) :
    addFunctionBody interfaceName f bodies d = ((some d.tree.functions.length, left), d.grow
      [{ kind := .declared f.name none false
         body := body
         defaultValues := some (d.tree.functions.length + 1) },
        { kind := .anonymous, body := helper }]) := by
  have hmodify := modifyFunction_grow d
    [{ kind := .declared f.name none false, body := body },
      { kind := .anonymous, body := helper }] 0
    fun node => { node with defaultValues := some (d.tree.functions.length + 1) }
  rw [Nat.add_zero] at hmodify
  rw [addFunctionBody, hbody]
  dsimp only
  rw [bind_apply, hhelper, addNamed, addFunction_apply]
  dsimp only
  rw [bind_apply, addAnonymous, addFunction_grow]
  dsimp only [List.length_singleton, List.singleton_append]
  rw [bind_apply, hmodify]
  rfl

end FunctionBody

/-- The body of a function becomes a root, and its helper goes below it. -/
theorem addFunctionBody_takes (interfaceName : String) (f : FunctionNode) (bodies : List Body)
    (d : Draft) :
    Takes d (addFunctionBody interfaceName f bodies d).2
      (addFunctionBody interfaceName f bodies d).1.1.toList [] bodies
      (addFunctionBody interfaceName f bodies d).1.2 := by
  cases hbody : takeBody? (·.signature == f.body.signature.inDefaultImpls interfaceName)
    bodies with
  | none =>
    rw [addFunctionBody, hbody]
    exact Takes.refl d bodies
  | some found =>
    obtain ⟨body, rest⟩ := found
    have hperm := takeBody?_perm hbody
    cases hhelper : takeBody? (DefaultHelper.isOfFunction ·.signature f.body.signature none)
      rest with
    | none =>
      rw [addFunctionBody_alone hbody hhelper]
      exact ⟨[body], addFunction_grown d _ body, hperm⟩
    | some more =>
      obtain ⟨helper, left⟩ := more
      rw [addFunctionBody_withHelper hbody hhelper]
      exact ⟨[body, helper], ⟨_, rfl, Rooted.beforeHelper _ _ body helper (by simp), by simp⟩,
        hperm.trans ((takeBody?_perm hhelper).cons body)⟩

/-- The bodies of functions become roots, one after the other. -/
theorem addFunctionBodies_takes (interfaceName : String) (members : List FunctionNode)
    (bodies : List Body) (d : Draft) :
    Takes d (addFunctionBodies interfaceName members bodies d).2
      ((addFunctionBodies interfaceName members bodies d).1.1.map Prod.snd) [] bodies
      (addFunctionBodies interfaceName members bodies d).1.2 := by
  induction members generalizing bodies d with
  | nil => exact Takes.refl d bodies
  | cons f rest ih =>
    have hfirst := addFunctionBody_takes interfaceName f bodies d
    rw [addFunctionBodies, bind_apply]
    rcases hrun : addFunctionBody interfaceName f bodies d with ⟨⟨id, left⟩, d₁⟩
    rw [hrun] at hfirst
    have hrest := hfirst.trans (ih left d₁)
    dsimp only at hrest ⊢
    rw [bind_apply]
    rcases hmore : addFunctionBodies interfaceName rest left d₁ with ⟨⟨others, left'⟩, d₂⟩
    rw [hmore] at hrest
    have hids : (id.toList.map fun id => (f.name, id)).map Prod.snd = id.toList := by
      rw [List.map_map]
      exact List.map_id _
    simpa [pure_apply, hids] using hrest

/-- The body of an accessor becomes a root without a name. -/
theorem addAccessorBody_takes (interfaceName : String) (accessor : Option FunctionId)
    (bodies : List Body) (d : Draft) :
    Takes d (addAccessorBody interfaceName accessor bodies d).2
      (addAccessorBody interfaceName accessor bodies d).1.1.toList
      (addAccessorBody interfaceName accessor bodies d).1.1.toList bodies
      (addAccessorBody interfaceName accessor bodies d).1.2 := by
  rw [addAccessorBody, bind_apply, get_apply]
  dsimp only
  cases accessor.bind d.tree.function? with
  | none => exact Takes.refl d bodies
  | some f =>
    dsimp only
    cases hbody : takeBody?
        (·.signature == f.body.signature.inDefaultImpls interfaceName) bodies with
    | none => exact Takes.refl d bodies
    | some found => exact ⟨[found.1], addAnonymous_grown d found.1, takeBody?_perm hbody⟩

/-- The bodies of accessors become roots without names, property by property. -/
theorem addPropertyBodies_takes (interfaceName : String) (properties : List PropertyNode)
    (bodies : List Body) (d : Draft) :
    Takes d (addPropertyBodies interfaceName properties bodies d).2
      ((addPropertyBodies interfaceName properties bodies d).1.1.flatMap PropertyNode.accessors)
      ((addPropertyBodies interfaceName properties bodies d).1.1.flatMap PropertyNode.accessors)
      bodies (addPropertyBodies interfaceName properties bodies d).1.2 := by
  induction properties generalizing bodies d with
  | nil => exact Takes.refl d bodies
  | cons p rest ih =>
    have hgetter := addAccessorBody_takes interfaceName p.getter bodies d
    rw [addPropertyBodies, bind_apply]
    rcases hone : addAccessorBody interfaceName p.getter bodies d with ⟨⟨getter, left₁⟩, d₁⟩
    rw [hone] at hgetter
    have hsetter := hgetter.trans (addAccessorBody_takes interfaceName p.setter left₁ d₁)
    dsimp only at hsetter ⊢
    rw [bind_apply]
    rcases htwo : addAccessorBody interfaceName p.setter left₁ d₁ with ⟨⟨setter, left₂⟩, d₂⟩
    rw [htwo] at hsetter
    have hrest := hsetter.trans (ih left₂ d₂)
    dsimp only at hrest ⊢
    rw [bind_apply]
    rcases hmore : addPropertyBodies interfaceName rest left₂ d₂ with ⟨⟨others, left₃⟩, d₃⟩
    rw [hmore] at hrest
    have hfound : (if getter.isSome || setter.isSome then
        [({ p with getter, setter } : PropertyNode)] else []).flatMap PropertyNode.accessors
        = getter.toList ++ setter.toList := by
      cases getter <;> cases setter <;> rfl
    rw [pure_apply]
    dsimp only
    rw [List.flatMap_append, hfound]
    exact hrest

/-- A holder searches for the bodies of functions, then for those of properties. What is left and
continues none of their keys becomes a function of its own, and the rest is local. -/
theorem addHolder_apply {d d₁ d₂ d₃ : Draft} {file : String} {u : DefaultImplsUnit}
    {interface : ClassNode} {keyed : LocalKeys} {properties : List PropertyNode}
    {others : List FunctionId} {left₁ left₂ : List Body}
    (hfunctions : addFunctionBodies u.interfaceName
      (interface.functions.filterMap d.tree.function?) u.methods d = ((keyed, left₁), d₁))
    (hproperties : addPropertyBodies u.interfaceName interface.properties left₁ d₁
      = ((properties, left₂), d₂))
    (hothers : ((left₂.filter (not ∘ fun body => ((keyed ++ properties.flatMap
        propertyKeys).longestKey? body.signature.name).isSome)).mapM
          fun body => addNamed body.signature.name body) d₂ = (others, d₃)) :
    addHolder file u interface d = addPlaced
      { jvmName := u.jvmName, shape := .defaultImpls
        functions := keyed.map Prod.snd ++ others, properties }
      ⟨file, []⟩ (keyed ++ properties.flatMap propertyKeys)
      (left₂.filter fun body => ((keyed ++ properties.flatMap propertyKeys).longestKey?
        body.signature.name).isSome) d₃ := by
  rw [addHolder, bind_apply, get_apply]
  dsimp only
  rw [bind_apply, hfunctions]
  dsimp only
  rw [bind_apply, hproperties]
  dsimp only
  rw [List.partition_eq_filter_filter]
  dsimp only
  rw [bind_apply, hothers]

/-- A holder adds a class whose block stands for all its bodies. It never fails. -/
theorem addHolder_withClass (d : Draft) (file : String) (u : DefaultImplsUnit)
    (interface : ClassNode) :
    ∃ block node source, addHolder file u interface d
        = (d.tree.classes.length, d.withClass block node source [])
      ∧ Fills d.tree.functions.length node block u.methods
      ∧ node.jvmName = u.jvmName ∧ node.shape = .defaultImpls ∧ node.failed = false := by
  rcases hone : addFunctionBodies u.interfaceName (interface.functions.filterMap d.tree.function?)
    u.methods d with ⟨⟨keyed, left₁⟩, d₁⟩
  have hfunctions := addFunctionBodies_takes u.interfaceName
    (interface.functions.filterMap d.tree.function?) u.methods d
  rcases htwo : addPropertyBodies u.interfaceName interface.properties left₁ d₁
    with ⟨⟨properties, left₂⟩, d₂⟩
  have hproperties := addPropertyBodies_takes u.interfaceName interface.properties left₁ d₁
  rw [hone] at hfunctions
  rw [htwo] at hproperties
  obtain ⟨taken, htaken, hperm⟩ := hfunctions.trans hproperties
  dsimp only at htaken hperm
  obtain ⟨keys, hkeys⟩ : ∃ keys, keys = keyed ++ properties.flatMap propertyKeys := ⟨_, rfl⟩
  have hothers := mapM_grown (fun id => [id]) (fun _ => [])
    (fun (body : Body) d => addFunction_grown d (.declared body.signature.name none false) body)
    (left₂.filter (not ∘ fun body => (keys.longestKey? body.signature.name).isSome)) d₂
  rcases hthree : (left₂.filter (not ∘ fun body =>
      (keys.longestKey? body.signature.name).isSome)).mapM
    (fun body => addFunction { kind := .declared body.signature.name none false, body }) d₂
    with ⟨others, d₃⟩
  rw [hthree] at hothers
  have hgrown := htaken.trans hothers
  simp only [List.flatMap_singleton'] at hgrown
  obtain ⟨node, hnode⟩ : ∃ node : ClassNode, node =
    { jvmName := u.jvmName, shape := .defaultImpls
      functions := keyed.map Prod.snd ++ others, properties } := ⟨_, rfl⟩
  have hmembers : node.memberFunctions = keyed.map Prod.snd ++ others
      ++ properties.flatMap PropertyNode.accessors := by
    simp [hnode, ClassNode.memberFunctions_eq, ClassNode.listedFunctions, ClassShape.initializers]
  have hroots : (keyed.map Prod.snd ++ properties.flatMap PropertyNode.accessors ++ others).Perm
      node.memberFunctions := by
    rw [hmembers, List.append_assoc, List.append_assoc]
    exact List.perm_append_comm.append_left _
  have hentries : ∀ entry ∈ keys, entry.2 ∈ node.memberFunctions := by
    intro entry hentry
    rw [hmembers]
    rw [hkeys] at hentry
    rcases List.mem_append.mp hentry with hentry | hentry
    · exact List.mem_append_left _ (List.mem_append_left _ (List.mem_map_of_mem hentry))
    · obtain ⟨p, hp, hentry⟩ := List.mem_flatMap.mp hentry
      exact List.mem_append_right _ (List.mem_flatMap.mpr ⟨p, hp, propertyKeys_mem hentry⟩)
  obtain ⟨block, failed, new, hrun, hfills, -, hfit⟩ :=
    addPlaced_withClass (hgrown.perm_roots hroots)
    (by rw [hnode]) (fun f hf => by simpa [hnode, ClassShape.initializers] using hf) ⟨file, []⟩ keys
    (left₂.filter fun body => (keys.longestKey? body.signature.name).isSome) hentries
  have hbodies : (taken ++ left₂.filter (not ∘ fun body =>
        (keys.longestKey? body.signature.name).isSome)
      ++ left₂.filter fun body => (keys.longestKey? body.signature.name).isSome).Perm
      u.methods := by
    rw [List.append_assoc]
    refine List.Perm.trans (List.Perm.append_left _ ?_) hperm.symm
    exact List.perm_append_comm.trans (List.filter_append_perm _ left₂)
  -- Only bodies that continue a key are taken as local ones.
  obtain ⟨rfl, rfl⟩ := hfit fun body hbody =>
    LocalKeys.longestKey?_isSome_iff.mp (List.mem_filter.mp hbody).2
  subst hnode hkeys
  refine ⟨block, _, ⟨file, []⟩, ?_, hfills.perm hbodies, rfl, rfl, rfl⟩
  rw [addHolder_apply hone htwo hthree]
  exact hrun

/-- The class that a holder looks for has the name of its interface. -/
theorem exists_class_of_namedWith? {d : Draft} {name : String} {o : ClassId}
    (ho : d.namedWith? name = some o) :
    ∃ node, d.tree.class? o = some node ∧ node.jvmName = name := by
  have hany := List.find?_some ho
  rw [Option.any_eq_true] at hany
  obtain ⟨node, hnode, hname⟩ := hany
  exact ⟨node, hnode, by simpa using hname⟩

section PlaceHolder

variable {d d' : Draft} {u : DefaultImplsUnit}

/-- A holder without an interface is reported. -/
theorem placeHolder_apply_of_none (file : String) (hnone : d.namedWith? u.interfaceName = none) :
    placeHolder file u d = report file u.jvmName (.interfaceNotFound u.interfaceName) d := by
  rw [placeHolder, bind_apply, get_apply]
  dsimp only
  rw [hnone]

/-- A holder with an interface is added as a class and put into its slot. -/
theorem placeHolder_apply_of_some (file : String) {o id : ClassId}
    (ho : d.namedWith? u.interfaceName = some o) {interface : ClassNode}
    (hclass : d.tree.class? o = some interface)
    (hrun : addHolder file u interface d = (id, d')) : placeHolder file u d
      = modifyNamed o (fun shape => { shape with defaultImpls := some id }) d' := by
  rw [placeHolder, bind_apply, get_apply]
  dsimp only
  rw [ho, Option.bind_some, hclass]
  dsimp only
  rw [bind_apply, hrun]

end PlaceHolder

end LineAtlas.Draft
