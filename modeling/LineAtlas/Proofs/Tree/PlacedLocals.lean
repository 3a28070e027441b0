import LineAtlas.Proofs.Resolution.ExactBinding
import LineAtlas.Proofs.Tree.Composed
import LineAtlas.Proofs.Tree.HolderListing
import LineAtlas.Proofs.Tree.Strays

/-!
# Local functions in a tree

In the tree of a source file every class has the local functions of its unit below the functions
that their names tell, or there is a failure that tells a local function that is below none. The
local functions of a holder are those of its methods that continue the name of a body.
-/

namespace LineAtlas

open ResolvedUnit

/-- There is a failure about a local function of a class with some keys: it is below no function,
and none that it could be below is among the members and the local functions of the class. -/
def Strands (failures : List ClassFailure) (jvmName : String) (keys : LocalKeys)
    (locals : List Body) : Prop :=
  ∃ body ∈ locals, LocalKeys.IsStray (keys.map Prod.fst ++ locals.map (·.signature.name))
      body.signature.name ∧
    ∃ e ∈ failures, e.className = some jvmName ∧
      e.failure = .composition jvmName (PlacementFault.noOuterFunction body.signature).message

/-- A local function that is stranded stays so when more failures are noted. -/
theorem Strands.mono {failures failures' : List ClassFailure} {jvmName : String}
    {keys : LocalKeys} {locals : List Body} (h : Strands failures jvmName keys locals)
    (hsubset : failures ⊆ failures') : Strands failures' jvmName keys locals := by
  obtain ⟨body, hbody, hstray, e, he, hfailure⟩ := h
  exact ⟨body, hbody, hstray, e, hsubset he, hfailure⟩

namespace SourceTree

variable {t t' : SourceTree} {kept kept' : List ResolvedUnit} {node node' : ClassNode}
  {keys : LocalKeys} {locals : List Body}

/-- The keys and the local functions of a class. Those of a class with members come from its unit,
and those of a holder from what it finds for the members of its interface. -/
inductive Registers (t : SourceTree) (kept : List ResolvedUnit) (node : ClassNode) :
    LocalKeys → List Body → Prop
  /-- A class with members. -/
  | members {u : ResolvedUnit} {m : Members} (hu : u ∈ kept) (hm : u.members? = some m)
    (hstands : node.StandsFor u) (hlists : t.ListsMembers node m) :
    Registers t kept node (Draft.localKeys node m) m.locals
  /-- A holder and its interface. -/
  | holder {u : DefaultImplsUnit} {v : ResolvedUnit} {m : Members} {keyed : LocalKeys}
    {others : List FunctionId} {left : List Body} (hu : .defaultImpls u ∈ kept) (hv : v ∈ kept)
    (hname : v.jvmName? = some u.interfaceName) (hm : v.members? = some m)
    (hstands : node.StandsFor (.defaultImpls u))
    (hdivides : Draft.Divides t m u node keyed others left) :
    Registers t kept node (Draft.holderKeys keyed node.properties)
      (left.filter (Draft.isLocalTo (Draft.holderKeys keyed node.properties)))

/-- The local functions of a class are in their places, or a failure tells one that is in none. -/
def Houses (t : SourceTree) (kept : List ResolvedUnit) (failures : List ClassFailure)
    (node : ClassNode) : Prop :=
  ∃ keys locals, t.Registers kept node keys locals ∧
    (Strands failures node.jvmName keys locals ∨ t.PlacesLocals keys locals)

/-- The keys of a class do not depend on what was made later, nor on its slots. -/
theorem Registers.later (h : t.Registers kept node keys locals)
    (hretains : Retains FunctionNode.core t t') (hkept : kept ⊆ kept')
    (hbare : node'.bare = node.bare) : t'.Registers kept' node' keys locals := by
  have hfunctions : node'.functions = node.functions := (congrArg ClassNode.functions hbare :)
  have hconstructors : node'.constructors = node.constructors :=
    (congrArg ClassNode.constructors hbare :)
  have hproperties : node'.properties = node.properties := (congrArg ClassNode.properties hbare :)
  cases h with
  | @members u m hu hm hstands hlists =>
    have hkeys : Draft.localKeys node' m = Draft.localKeys node m := by
      rw [Draft.localKeys, Draft.localKeys, hfunctions, hconstructors, hproperties]
    have hlater := hlists.retains (hretains.map fun core => (core.1, core.2.1))
    rw [← hkeys]
    exact .members (hkept hu) hm (hstands.of_bare hbare)
      ⟨hfunctions ▸ hlater.functions, hconstructors ▸ hlater.constructors,
        hproperties ▸ hlater.properties⟩
  | @holder u v m keyed others left hu hv hname hm hstands hdivides =>
    obtain ⟨hown, hnone, hfound, hhelpers, hrest, hall, hothers⟩ := hdivides.retains hretains
    have hkeys : Draft.holderKeys keyed node.properties
        = Draft.holderKeys keyed node'.properties := by rw [hproperties]
    rw [hkeys]
    rw [← hproperties] at hfound hhelpers hall hothers
    exact .holder (hkept hu) (hkept hv) hname hm (hstands.of_bare hbare)
      ⟨hfunctions ▸ hown, hconstructors ▸ hnone, hfound, hhelpers, hrest, hall, hothers⟩

/-- Local functions stay in their places. -/
theorem Houses.later {failures failures' : List ClassFailure} (h : t.Houses kept failures node)
    (hretains : Retains FunctionNode.bare t t') (hkept : kept ⊆ kept')
    (hfailures : failures ⊆ failures') (hbare : node'.bare = node.bare) :
    t'.Houses kept' failures' node' := by
  obtain ⟨keys, locals, hregisters, hplaces⟩ := h
  have hname : node'.jvmName = node.jvmName := (congrArg ClassNode.jvmName hbare :)
  refine ⟨keys, locals, hregisters.later (hretains.map FunctionNode.core) hkept hbare,
    hplaces.imp ?_ fun hplaced => hplaced.retains hretains⟩
  exact fun hstrands => hname ▸ hstrands.mono hfailures

/-- The keys of a class that lists members stand for functions. -/
theorem ListsMembers.bound {m : Members} (h : t.ListsMembers node m) :
    ∀ entry ∈ Draft.localKeys node m, entry.2 < t.functions.length := by
  have hlt {f : FunctionId} {f' : FunctionNode} (hf : t.function? f = some f') :
      f < t.functions.length := (List.getElem?_eq_some_iff.mp hf).1
  have hfunctions {ids : List FunctionId} {functions : List BoundFunction}
      (hall : List.Forall₂ t.HasFunction ids functions) : ∀ f ∈ ids, f < t.functions.length := by
    refine ((List.forall₂_and_left _ _).mp (hall.imp fun f g hhas => ⟨?_, hhas⟩)).1
    obtain ⟨f', hf', -⟩ := Option.map_eq_some_iff.mp hhas
    exact hlt hf'
  have hbodies {ids : List FunctionId} {bodies : List Body}
      (hall : List.Forall₂ t.HasBody ids bodies) : ∀ f ∈ ids, f < t.functions.length := by
    refine ((List.forall₂_and_left _ _).mp (hall.imp fun f g hhas => ⟨?_, hhas⟩)).1
    obtain ⟨f', hf', -⟩ := Option.map_eq_some_iff.mp hhas
    exact hlt hf'
  have hproperties : ∀ p ∈ node.properties, ∀ f ∈ p.accessors, f < t.functions.length := by
    refine ((List.forall₂_and_left _ _).mp (h.properties.imp fun p q hhas => ⟨?_, hhas⟩)).1
    intro f hf
    exact (List.mem_append.mp hf).elim (hbodies hhas.getter f) (hbodies hhas.setter f)
  intro entry hentry
  rcases List.mem_append.mp hentry with hentry | hentry
  · rcases List.mem_append.mp hentry with hentry | hentry
    · exact hfunctions h.functions _ (Draft.functionKeys_mem hentry)
    · exact hfunctions h.constructors _ (Draft.functionKeys_mem hentry)
  · obtain ⟨p, hp, hentry⟩ := List.mem_flatMap.mp hentry
    exact hproperties p hp _ (Draft.propertyKeys_mem hentry)

/-- The keys of a holder stand for functions. -/
theorem bound_of_divides {m : Members} {u : DefaultImplsUnit} {keyed : LocalKeys}
    {others : List FunctionId} {left : List Body} (h : Draft.Divides t m u node keyed others left) :
    ∀ entry ∈ Draft.holderKeys keyed node.properties, entry.2 < t.functions.length := by
  intro entry hentry
  obtain ⟨found, hserves⟩ := h.found
  have hmem : entry.2 ∈ Draft.implementing keyed node.properties := by
    rcases List.mem_append.mp hentry with hentry | hentry
    · exact List.mem_append_left _ (List.mem_map_of_mem hentry)
    · obtain ⟨p, hp, hentry⟩ := List.mem_flatMap.mp hentry
      exact List.mem_append_right _ (List.mem_flatMap.mpr ⟨p, hp, Draft.propertyKeys_mem hentry⟩)
  obtain ⟨s, hs⟩ := hserves.exists_signature _ hmem
  obtain ⟨f', hf', -⟩ := hs.exists_core
  exact (List.getElem?_eq_some_iff.mp hf').1

/-- The keys of a class stand for functions. -/
theorem Registers.bound (h : t.Registers kept node keys locals) :
    ∀ entry ∈ keys, entry.2 < t.functions.length := by
  cases h with
  | members hu hm hstands hlists => exact hlists.bound
  | holder hu hv hname hm hstands hdivides => exact bound_of_divides hdivides

end SourceTree

namespace Draft

open SourceTree

variable {d d' : Draft} {kept : List ResolvedUnit} {rejected others : List String}

/-- A class is added behind its local functions. -/
theorem addPlaced_houses {node : ClassNode} {keys : LocalKeys} {locals : List Body}
    (h : d.tree.Registers kept node keys locals) (source : ClassSource) :
    (addPlaced node source keys locals d).2.tree.Houses kept
      (addPlaced node source keys locals d).2.failures node := by
  rcases placeLocals_nests keys locals h.bound with
    ⟨body, hbody, hstray, placed, hrun⟩ | ⟨placed, taken, hrun, hnests, hbodies⟩
  · rw [addPlaced_of_some hrun]
    have hregisters : (d.withLocals placed).tree.Registers kept node keys locals :=
      h.later (withLocals_retains d placed) (List.Subset.refl _) rfl
    refine ⟨keys, locals, hregisters.later (fun _ _ hf => hf) (List.Subset.refl _) rfl,
      Or.inl ⟨body, hbody, hstray, _, List.mem_append_right _ List.mem_cons_self, rfl, rfl⟩⟩
  · rw [addPlaced_of_none hrun]
    have hregisters : (d.withHelpers placed taken).tree.Registers kept node keys locals :=
      h.later hnests.retains (List.Subset.refl _) rfl
    exact ⟨keys, locals, hregisters.later (fun _ _ hf => hf) (List.Subset.refl _) rfl,
      Or.inr ((hnests.placesLocals hbodies).retains fun _ _ hf => hf)⟩

/-- Adding a unit with members adds a class behind its local functions. -/
theorem addUnit_steps (d : Draft) (file : String) {u : ResolvedUnit} {m : Members}
    (hm : u.members? = some m) : ∃ (node : ClassNode) (source : ClassSource) (d' : Draft),
      d'.tree.ListsMembers node m ∧
      (addUnit file u d).2.tree.functions
        = (addPlaced node source (localKeys node m) m.locals d').2.tree.functions ∧
      (addUnit file u d).2.tree.classes
        = (addPlaced node source (localKeys node m) m.locals d').2.tree.classes ∧
      (addUnit file u d).2.failures
        = (addPlaced node source (localKeys node m) m.locals d').2.failures := by
  have hsteps (jvmName : String) (shape : ClassShape) :
      ∃ (node : ClassNode) (source : ClassSource) (d' : Draft), d'.tree.ListsMembers node m ∧
        addClassWith file jvmName shape m d
          = addPlaced node source (localKeys node m) m.locals d' := by
    obtain ⟨node, d', hrun, -, -, hlists⟩ := addClassWith_steps d file jvmName shape m
    exact ⟨node, _, d', hlists, hrun⟩
  cases u with
  | classUnit u =>
    obtain rfl := Option.some.inj hm
    obtain ⟨node, source, d', hlists, hrun⟩ := hsteps u.jvmName (.named u.shape)
    exact ⟨node, source, d', hlists, hrun ▸ ⟨rfl, rfl, rfl⟩⟩
  | localClass u =>
    obtain rfl := Option.some.inj hm
    obtain ⟨node, source, d', hlists, hrun⟩ := hsteps u.jvmName (.localClass u.kind u.origin)
    exact ⟨node, source, d', hlists, hrun ▸ ⟨rfl, rfl, rfl⟩⟩
  | facade u =>
    obtain rfl := Option.some.inj hm
    obtain ⟨node, source, d', hlists, hrun⟩ := hsteps u.jvmName (.facade none)
    exact ⟨node, source, d', hlists, hrun ▸ ⟨rfl, rfl, rfl⟩⟩
  | defaultImpls u | opaqueUnit | foreign => simp [members?] at hm

/-- Local functions whose names continue keys are all placed, each below the function that its name
and its lines tell. -/
theorem placeLocals_of_fits {keys : LocalKeys} {locals : List Body}
    (hkeys : ∀ entry ∈ keys, entry.2 < d.tree.functions.length)
    (hfits : ∀ body ∈ locals, LocalKeys.Fits (keys.map Prod.fst) body.signature.name) :
    ∃ d', placeLocals keys locals d = (none, d') ∧ d'.tree.PlacesLocals keys locals := by
  rcases placeLocals_nests keys locals hkeys with
    ⟨body, hbody, hstray, -⟩ | ⟨placed, taken, hrun, hnests, hbodies⟩
  · exact absurd hstray ((hfits body hbody).mono (List.subset_append_left _ _)).not_isStray
  · exact ⟨_, hrun, hnests.placesLocals hbodies⟩

/-- When what a class file contributes is added, no local function is left over, and each is below
the function that its name and its lines tell. -/
theorem addUnit_placesLocals (d : Draft) (file : String) {u : ResolvedUnit} {m : Members}
    (hresolved : IsPlainlyResolved u) (hm : u.members? = some m) :
    ∃ (node : ClassNode) (d' d'' : Draft), d'.tree.ListsMembers node m ∧
      placeLocals (localKeys node m) m.locals d' = (none, d'') ∧
      d''.tree.PlacesLocals (localKeys node m) m.locals ∧
      (addUnit file u d).2.tree.functions = d''.tree.functions ∧
      (addUnit file u d).2.tree.classes = d''.tree.classes ++ [node] := by
  have hlocals : m.LocalsFit := by
    have hfits := hresolved.localsFit
    cases u with
    | classUnit u | localClass u | facade u => exact Option.some.inj hm ▸ hfits
    | defaultImpls u | opaqueUnit | foreign => simp [members?] at hm
  obtain ⟨node, source, d', hlists, hfunctions, hclasses, -⟩ := addUnit_steps d file hm
  obtain ⟨d'', hrun, hplaces⟩ := placeLocals_of_fits hlists.bound fun body hbody =>
    map_fst_localKeys hlists ▸ hlocals body hbody
  rw [addPlaced_of_none hrun] at hfunctions hclasses
  exact ⟨node, d', d'', hlists, hrun, hplaces, hfunctions, hclasses⟩

/-- When a holder meets its interface, none of its methods that continue the name of a body is left
over, and each is below the function that its name and its lines tell. -/
theorem addHolder_placesLocals (d : Draft) (file : String) (u : DefaultImplsUnit)
    {interface : ClassNode} {m : Members} (hinterface : d.tree.ListsMembers interface m) :
    ∃ (node : ClassNode) (keys : LocalKeys) (left : List Body) (d' d'' : Draft),
      placeLocals keys (left.filter (isLocalTo keys)) d' = (none, d'') ∧
      d''.tree.PlacesLocals keys (left.filter (isLocalTo keys)) ∧
      (addHolder file u interface d).2.tree.functions = d''.tree.functions ∧
      (addHolder file u interface d).2.tree.classes = d''.tree.classes ++ [node] := by
  obtain ⟨node, source, keyed, others, left, d', hrun, -, -, hdivides⟩ :=
    addHolder_steps d file u hinterface
  obtain ⟨d'', hplaced, hplaces⟩ := placeLocals_of_fits (bound_of_divides hdivides)
    fun body (hbody : body ∈ left.filter (isLocalTo (holderKeys keyed node.properties))) =>
      LocalKeys.longestKey?_isSome_iff.mp (List.mem_filter.mp hbody).2
  refine ⟨node, _, left, d', d'', hplaced, hplaces, ?_⟩
  rw [hrun, addPlaced_of_none hplaced]
  exact ⟨rfl, rfl⟩

/-- In every class of a draft, local functions are in their places or a failure tells why not. -/
def HousesAll (d : Draft) (kept : List ResolvedUnit) : Prop :=
  ∀ node ∈ d.tree.classes, d.tree.Houses kept d.failures node

/-- The class behind its local functions is the last one. -/
theorem bare_eq_of_addPlaced {node node' : ClassNode} {source : ClassSource} {keys : LocalKeys}
    {locals : List Body} {before : List ClassNode}
    (h : before ++ [node] = (addPlaced node' source keys locals d).2.tree.classes) :
    node.bare = node'.bare := by
  obtain ⟨failed, -, hplaced⟩ := addPlaced_tree node' source keys locals d
  have hlast : [node] = [{ node' with failed }] := (List.append_inj' (h.trans hplaced) rfl).2
  rw [List.singleton_inj.mp hlast]
  rfl

/-- A class with its local functions behind the others leaves theirs in their places. -/
theorem HousesAll.addPlaced (h : HousesAll d kept) {kept' : List ResolvedUnit}
    (hkept : kept ⊆ kept') {block : List FunctionNode} {node node' : ClassNode}
    {source source' : ClassSource} {new : List ClassFailure} {keys : LocalKeys}
    {locals : List Body} (hregisters : d'.tree.Registers kept' node' keys locals)
    (hfunctions : (d.withClass block node source new).tree.functions
      = (addPlaced node' source' keys locals d').2.tree.functions)
    (hclasses : (d.withClass block node source new).tree.classes
      = (addPlaced node' source' keys locals d').2.tree.classes)
    (hfailures : (d.withClass block node source new).failures
      = (addPlaced node' source' keys locals d').2.failures) :
    HousesAll (d.withClass block node source new) kept' := by
  intro other hother
  rcases List.mem_append.mp hother with hold | hnew
  · refine (h other hold).later (Retains.of_prefix ?_) hkept (List.subset_append_left _ _) rfl
    rw [withClass, List.map_append]
    exact List.prefix_append _ _
  · obtain rfl := List.mem_singleton.mp hnew
    exact (addPlaced_houses hregisters source').later
      (Retains.of_prefix (hfunctions ▸ List.prefix_rfl)) (List.Subset.refl _)
      (fun e he => hfailures ▸ he) (bare_eq_of_addPlaced hclasses)

/-- Adding a unit places its local functions. -/
theorem HousesAll.addUnit (h : HousesAll d kept) (file : String) {u : ResolvedUnit}
    (hu : u.isClass = true ∨ u.isLocal = true ∨ u.isFacade = true) :
    HousesAll (addUnit file u d).2 (kept ++ [u]) := by
  obtain ⟨m, hm⟩ : ∃ m, u.members? = some m := by
    cases u with
    | classUnit u | localClass u | facade u => exact ⟨u.members, rfl⟩
    | defaultImpls u | opaqueUnit | foreign => simp [isClass, isLocal, isFacade] at hu
  obtain ⟨block, node, source, new, hadd, ⟨hstands, -, -, -⟩, -, -⟩ := addUnit_withUnit d file hu
  obtain ⟨node', source', d', hlists, hfunctions, hclasses, hfailures⟩ := addUnit_steps d file hm
  rw [hadd] at hfunctions hclasses hfailures
  have hregisters : d'.tree.Registers (kept ++ [u]) node' (localKeys node' m) m.locals :=
    .members (List.mem_append_right _ List.mem_cons_self) hm
      (hstands.of_bare (bare_eq_of_addPlaced hclasses).symm) hlists
  have hall : HousesAll (d.withClass block node source new) (kept ++ [u]) :=
    h.addPlaced (List.subset_append_left _ _) hregisters hfunctions hclasses hfailures
  rw [hadd]
  exact fun other hother => (hall other hother).later (fun _ _ hf => hf) (List.Subset.refl _)
    (List.Subset.refl _) rfl

/-- Adding a unit, or reporting it, leaves all classes with their local functions in place. -/
theorem HousesAll.add (h : HousesAll d kept) (hadded : Added d kept rejected) (file : String)
    (u : ResolvedUnit) : HousesAll (add file u d).2 (sortOut (kept, rejected) u).1 := by
  cases hname : u.jvmName? with
  | none =>
    rw [add_of_unnamed d file hname, sortOut, hname]
    exact h
  | some name =>
    rw [sortOut, hname]
    dsimp only
    rw [← hadded.names]
    by_cases hmem : name ∈ d.names
    · rw [if_pos (List.contains_iff_mem.mpr hmem), add_of_repeat file hname hmem]
      exact fun node hnode => (h node hnode).later (fun _ _ hf => hf) (List.Subset.refl _)
        (List.subset_append_left _ _) rfl
    · rw [if_neg (by simpa using hmem), add_of_new file hname hmem]
      have hstart : HousesAll { d with names := d.names ++ [name] } kept := h
      by_cases hholder : u.isHolder = true
      · obtain ⟨u, rfl⟩ := isHolder_iff.mp hholder
        exact fun node hnode => (hstart node hnode).later (fun _ _ hf => hf)
          (List.subset_append_left _ _) (List.Subset.refl _) rfl
      · exact hstart.addUnit file (by
          cases u <;> simp_all [isClass, isLocal, isFacade, isHolder, jvmName?])

/-- Adding units one after the other leaves all classes with their local functions in place. -/
theorem HousesAll.all (sorted : List ResolvedUnit × List String) (h : HousesAll d sorted.1)
    (hadded : Added d sorted.1 sorted.2) (units : List (String × ResolvedUnit)) :
    HousesAll (units.forM (fun unit => Draft.add unit.1 unit.2) d).2
      ((units.map Prod.snd).foldl sortOut sorted).1 := by
  induction units generalizing d sorted with
  | nil => exact h
  | cons first rest ih =>
    exact ih _ (h.add hadded first.1 first.2) (hadded.next first.1 first.2)

/-- Placing a holder places those of its methods that continue the name of a body. -/
theorem HousesAll.placeHolder {units : List ResolvedUnit} (h : HousesAll d kept)
    (hholds : Holds d units others) (file : String) {u : DefaultImplsUnit}
    (hu : .defaultImpls u ∈ kept) : HousesAll (placeHolder file u d).2 kept := by
  cases hfind : d.namedWith? u.interfaceName with
  | none =>
    rw [placeHolder_apply_of_none file hfind]
    exact fun node hnode => (h node hnode).later (fun _ _ hf => hf) (List.Subset.refl _)
      (List.subset_append_left _ _) rfl
  | some o =>
    obtain ⟨interface, v, ho, hjvm, hunit, -⟩ := hholds.namedWith?_eq_some hfind
    obtain ⟨w, hw, hstands⟩ := hholds.laid.exists_unit ho
    obtain rfl := Option.some.inj (hw.symm.trans hunit)
    obtain ⟨own, hown, -⟩ := ClassShape.exists_named_of_bare hstands.2
    -- An interface is no holder, so its members are those of a unit.
    obtain ⟨x, m, hx, hm, hname, hlists⟩ : ∃ x m, x ∈ kept ∧ x.members? = some m ∧
        x.jvmName? = some u.interfaceName ∧ d.tree.ListsMembers interface m := by
      obtain ⟨_, _, hregisters, -⟩ := h interface (List.mem_of_getElem? ho)
      cases hregisters with
      | @members x m hx hm hx' hlists => exact ⟨x, m, hx, hm, hjvm ▸ hx'.jvmName, hlists⟩
      | holder _ _ _ _ hholder _ => simp [hown, ClassNode.StandsFor] at hholder
    obtain ⟨block, node, source, hadd, -, hjvmName, hshape, -⟩ :=
      addHolder_withClass d file u interface
    obtain ⟨node', source', keyed, others, left, d', hsteps, -, -, hdivides⟩ :=
      addHolder_steps d file u hlists
    have hsame := congrArg Prod.snd (hadd.symm.trans hsteps)
    have hclasses := congrArg (fun e : Draft => e.tree.classes) hsame
    have hstands' : node.StandsFor (.defaultImpls u) := ⟨hjvmName, hshape⟩
    have hall : HousesAll (d.withClass block node source []) kept :=
      h.addPlaced (List.Subset.refl _) (.holder hu hx hname hm
        (hstands'.of_bare (bare_eq_of_addPlaced hclasses).symm) hdivides)
        (congrArg (fun e : Draft => e.tree.functions) hsame) hclasses
        (congrArg Draft.failures hsame)
    rw [placeHolder_apply_of_some file hfind ho hadd]
    intro other hother
    obtain ⟨i, hi⟩ := List.getElem?_of_mem hother
    obtain ⟨old, hold, rfl⟩ := Lists.getElem?_modify_eq_some hi
    refine (hall old (List.mem_of_getElem? hold)).later (fun _ _ hf => hf) (List.Subset.refl _)
      (List.Subset.refl _) ?_
    split
    · exact ClassNode.onNamed_bare (fun shape => ⟨_, _, _, rfl⟩) old
    · rfl

/-- Placing all holders places theirs. -/
theorem HousesAll.placeHolders (h : HousesAll d kept) (hadded : Added d kept rejected) :
    HousesAll (placeHolders d).2 kept := by
  have hloop (holders : List (String × DefaultImplsUnit)) (d : Draft) (units : List ResolvedUnit)
      (others : List String) (h : HousesAll d kept) (hholds : Holds d units others)
      (hfit : HoldersFit d units) (hholders : ∀ holder ∈ holders, .defaultImpls holder.2 ∈ kept) :
      HousesAll (holders.forM (fun holder => Draft.placeHolder holder.1 holder.2) d).2 kept := by
    induction holders generalizing d units others with
    | nil => exact h
    | cons first rest ih =>
      obtain ⟨hholds', hfit'⟩ := placeHolder_next hholds hfit first.1 first.2
      have hfirst := h.placeHolder hholds first.1 (hholders first List.mem_cons_self)
      exact ih _ _ _ hfirst hholds' hfit' fun holder hholder =>
        hholders holder (List.mem_cons_of_mem first hholder)
  refine hloop d.holders d _ _ h hadded.holds hadded.holdersFit fun holder hholder => ?_
  have hmem : ResolvedUnit.defaultImpls holder.2 ∈ kept.filter isHolder := by
    rw [← hadded.holders]
    exact List.mem_map_of_mem hholder
  exact List.mem_of_mem_filter hmem

/-- Placing classes leaves local functions in their places. -/
theorem HousesAll.keeps (h : HousesAll d kept) (hkeeps : Keeps d d') {new : List ClassFailure}
    (hfailures : d'.failures = d.failures ++ new) : HousesAll d' kept := by
  intro node hnode
  have hmem : node.bare ∈ d.tree.classes.map ClassNode.bare := by
    rw [← hkeeps.classes]
    exact List.mem_map_of_mem hnode
  obtain ⟨old, hold, hbare⟩ := List.mem_map.mp hmem
  exact (h old hold).later (Retains.of_prefix (hkeeps.functions ▸ List.prefix_rfl))
    (List.Subset.refl _) (hfailures ▸ List.subset_append_left _ _) hbare.symm

end Draft

namespace SourceTree

open Draft

/-- In a composed tree, local functions are in their places or a failure tells why not. -/
theorem compose_houses (path : String) (policy : AccountingPolicy)
    (added : List (String × ResolvedUnit)) :
    ∀ node ∈ (compose path policy added).tree.classes, (compose path policy added).tree.Houses
      (accepted added) (compose path policy added).failures node := by
  have hadded : Added (added.forM (fun unit => add unit.1 unit.2) (empty path)).2
      (accepted added) (rejected added) := (Added.empty path).all added
  have hempty : HousesAll (empty path) [] := by simp [HousesAll, Draft.empty]
  have hhouses : HousesAll (added.forM (fun unit => add unit.1 unit.2) (empty path)).2
      (accepted added) := HousesAll.all ([], []) hempty (Added.empty path) added
  obtain ⟨units, hprepared⟩ := hadded.prepared (accepted_names_nodup added)
  have hsettles := hprepared.settles
  have hmoves := hprepared.moves hsettles policy
  exact ((hhouses.placeHolders hadded).keeps hsettles.keeps hsettles.blamed).keeps
    hmoves.keeps hmoves.blamed

/-- Local functions of every class of a composed tree are placed by their names: below the function
with the longest key that the name continues, or a lambda below the function that it is named
after. Among functions with this key, one is chosen that encloses the lines, if any does. They are
shown there by the rest of the name, as lambdas, or as the helper of the local function around
them. The order of keys and of methods plays no part. Only if a local function is below none, and a
failure tells so, some of its class may have no place. -/
theorem compose_placesLocals (path : String) (policy : AccountingPolicy)
    (added : List (String × ResolvedUnit)) :
    ∀ node ∈ (compose path policy added).tree.classes, ∃ keys locals,
      (compose path policy added).tree.Registers (accepted added) node keys locals ∧
      (Strands (compose path policy added).failures node.jvmName keys locals ∨
        ∀ keys' locals', keys.Perm keys' → locals.Perm locals' →
          (compose path policy added).tree.PlacesLocals keys' locals') := by
  intro node hnode
  obtain ⟨keys, locals, hregisters, hplaces⟩ := compose_houses path policy added node hnode
  refine ⟨keys, locals, hregisters, hplaces.imp_right ?_⟩
  exact fun hplaced keys' locals' hkeys hlocals => hplaced.perm hkeys hlocals

/-- A file with two overloads of a function. In the second one there are a local function with its
helper and another one inside, and a lambda. -/
def overloads : FacadeUnit :=
  { jvmName := "MainKt"
    members :=
      { functions :=
          [⟨"f", some "I", false, ⟨⟨"f", "(I)V"⟩, .ofList [1, 3]⟩, none⟩,
            ⟨"f", some "", false, ⟨⟨"f", "()V"⟩, .ofList [5, 20]⟩, none⟩]
        locals :=
          [⟨⟨"f$inner$deeper", "()V"⟩, .ofList [8]⟩, ⟨⟨"f$lambda$0", "(I)I"⟩, .ofList [17]⟩,
            ⟨⟨"f$inner", "(I)V"⟩, .ofList [7, 9]⟩,
            ⟨⟨"f$inner$default", "(IILjava/lang/Object;)V"⟩, .ofList [7]⟩] } }

/-- All local functions of the file are in their places. -/
theorem compose_placesLocals_overloads :
    let c := compose "Main.kt" .strict [("MainKt.class", facade overloads)]
    ∃ node ∈ c.tree.classes, node.StandsFor (facade overloads) ∧
      ∃ keys locals, c.tree.Registers (accepted [("MainKt.class", facade overloads)]) node keys
          locals ∧
        ∀ keys' locals', keys.Perm keys' → locals.Perm locals' →
          c.tree.PlacesLocals keys' locals' := by
  intro c
  have haccepted : facade overloads ∈ accepted [("MainKt.class", facade overloads)] :=
    List.mem_cons_self
  obtain ⟨units, hreflects⟩ :=
    compose_reflects "Main.kt" .strict [("MainKt.class", facade overloads)]
  have hunit : facade overloads ∈ units := by
    by_contra hnot
    cases hreflects.arranged.left _ haccepted hnot
  obtain ⟨i, hi⟩ := List.getElem?_of_mem hunit
  obtain ⟨node, hnode, hstands⟩ := hreflects.arranged.exists_class hi
  have hmem : node ∈ c.tree.classes := List.mem_of_getElem? hnode
  have hfits : ∀ entry ∈ [("MainKt.class", facade overloads)], entry.2.LocalsFit := by
    intro entry hentry
    rw [List.mem_singleton.mp hentry]
    change ∀ body ∈ overloads.members.locals, ∃ key ∈ overloads.members.localKeys,
      (LocalKeys.rest? key body.signature.name).isSome = true
    decide +kernel
  obtain ⟨keys, locals, hregisters, hplaces⟩ :=
    compose_placesLocals "Main.kt" .strict [("MainKt.class", facade overloads)] node hmem
  refine ⟨node, hmem, hstands, keys, locals, hregisters, hplaces.resolve_left ?_⟩
  rintro ⟨body, -, -, e, he, -, hfailure⟩
  exact compose_noStray "Main.kt" .strict hfits e he _ _ hfailure

end SourceTree

end LineAtlas
