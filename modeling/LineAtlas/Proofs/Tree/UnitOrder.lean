import LineAtlas.Proofs.Tree.Parts

/-!
# Units in another order

A unit adds the same part to a draft whatever was added before, and waits in the same lists. So
two units may be added in either order.
-/

namespace LineAtlas

/-- What the class of a unit starts from: its name, its shape and its members. Holders have to
wait for their interfaces. -/
def ResolvedUnit.outline? : ResolvedUnit → Option (String × ClassShape × Members)
  | .classUnit u => some (u.jvmName, .named u.shape, u.members)
  | .localClass u => some (u.jvmName, .localClass u.kind u.origin, u.members)
  | .facade u => some (u.jvmName, .facade none, u.members)
  | .defaultImpls _ | .opaqueUnit | .foreign => none

/-- Nothing is in the slots of a class at its start. -/
theorem ResolvedUnit.children_of_outline? {u : ResolvedUnit} {jvmName : String}
    {shape : ClassShape} {m : Members} (h : u.outline? = some (jvmName, shape, m)) :
    shape.children = [] := by
  cases u with
  | classUnit u =>
    obtain ⟨rfl, rfl, rfl⟩ := by simpa [outline?] using h
    rfl
  | localClass u =>
    obtain ⟨rfl, rfl, rfl⟩ := by simpa [outline?] using h
    rfl
  | facade u =>
    obtain ⟨rfl, rfl, rfl⟩ := by simpa [outline?] using h
    rfl
  | defaultImpls u => simp [outline?] at h
  | opaqueUnit => simp [outline?] at h
  | foreign => simp [outline?] at h

/-- A unit as a holder of bodies. -/
def ResolvedUnit.asHolder : ResolvedUnit → List DefaultImplsUnit
  | .defaultImpls u => [u]
  | _ => []

namespace Draft

open ResolvedUnit

variable {d d' : Draft} {ρ : FunctionId → FunctionId}

/-- What was added can be told from the draft that has it. -/
theorem withClass_inj {block block' : List FunctionNode} {node node' : ClassNode}
    {source source' : ClassSource} {new new' : List ClassFailure} {e : Draft}
    (hrest : e.rest = d.rest)
    (h : e.withClass block node source new = d.withClass block' node' source' new') :
    e.tree.functions ++ block = d.tree.functions ++ block' ∧ node = node' ∧ source = source'
      ∧ new = new' := by
  have hclasses : e.tree.classes = d.tree.classes := congrArg (·.tree.classes) hrest
  have hsources : e.sources = d.sources := congrArg (·.sources) hrest
  have hfailures : e.failures = d.failures := congrArg (·.failures) hrest
  have hnodes : e.tree.classes ++ [node] = d.tree.classes ++ [node'] :=
    congrArg (·.tree.classes) h
  have hsource : e.sources ++ [source] = d.sources ++ [source'] := congrArg (·.sources) h
  have hnew : e.failures ++ new = d.failures ++ new' := congrArg (·.failures) h
  rw [hclasses, List.append_cancel_left_eq] at hnodes
  rw [hsources, List.append_cancel_left_eq] at hsource
  rw [hfailures, List.append_cancel_left_eq] at hnew
  exact ⟨congrArg (·.tree.functions) h, List.cons.inj hnodes |>.1, List.cons.inj hsource |>.1, hnew⟩

/-- Steps that add the same class add the same block before it. -/
theorem AddsAlike.same {step step' : Drafting ClassId} (h : AddsAlike ρ d d' step step')
    {block block' : List FunctionNode} {node node' : ClassNode} {source source' : ClassSource}
    {new new' : List ClassFailure}
    (hrun : step d = (d.tree.classes.length, d.withClass block node source new))
    (hrun' : step' d' = (d'.tree.classes.length, d'.withClass block' node' source' new'))
    (hfresh : ∀ j, ρ (d.tree.functions.length + j) = d'.tree.functions.length + j)
    (hblank : ∀ node ∈ block, node.classes = []) (hblank' : ∀ node ∈ block', node.classes = []) :
    block' = block.map (FunctionNode.rename ρ) ∧ node' = node.rename ρ ∧ source' = source
      ∧ new' = new := by
  obtain ⟨e, e', own, origin, more, htogether, hown, hown'⟩ := h
  obtain ⟨hfunctions, rfl, rfl, rfl⟩ :=
    withClass_inj htogether.rest (Prod.mk.inj (hown.symm.trans hrun)).2
  obtain ⟨hfunctions', rfl, rfl, rfl⟩ :=
    withClass_inj htogether.rest' (Prod.mk.inj (hown'.symm.trans hrun')).2
  refine ⟨?_, rfl, rfl, rfl⟩
  rw [List.append_nil] at hfunctions hfunctions'
  have hbare {block : List FunctionNode} (h : ∀ node ∈ block, node.classes = []) :
      block.map FunctionNode.bare = block := by
    refine (List.map_congr_left fun node hnode => ?_).trans (List.map_id block)
    rw [FunctionNode.bare, ← h node hnode]
    rfl
  rw [← hbare hblank']
  refine List.ext_getElem? fun j => ?_
  have hsame := htogether.embeds.functions (d.tree.functions.length + j)
  rw [hfresh, SourceTree.function?, SourceTree.function?, hfunctions, hfunctions',
    List.getElem?_append_right (Nat.le_add_right _ _), Nat.add_sub_cancel_left,
    List.getElem?_append_right (Nat.le_add_right _ _), Nat.add_sub_cancel_left] at hsame
  rw [List.getElem?_map, hsame, List.getElem?_map]
  cases hnode : block[j]? with
  | none => rfl
  | some node =>
    have hclasses := hblank node (List.mem_of_getElem? hnode)
    simp [FunctionNode.bare, FunctionNode.rename, hclasses]

/-- A class whose functions are a block is a part. -/
theorem Fills.closedAt {base : Nat} {node : ClassNode} {block : List FunctionNode}
    {bodies : List Body} (h : Fills base node block bodies) (hslots : node.shape.children = [])
    (source : ClassSource) (new : List ClassFailure) :
    Part.ClosedAt base ⟨block, [node], [source], new⟩ := by
  obtain ⟨⟨carried, hrooted, -⟩, -⟩ := h
  have hbound {f : FunctionId} (hf : f ∈ node.memberFunctions ++ block.flatMap FunctionNode.below) :
      f < base + block.length := (List.mem_range'_1.mp (hrooted.places.mem_iff.mp hf)).2
  refine ⟨rfl, fun n hn f hf => hbound ?_, fun n hn f hf => hbound ?_, fun n hn => ?_,
    fun n hn => ?_⟩
  · exact List.mem_append_right _ (List.mem_flatMap.mpr ⟨n, hn, hf⟩)
  · exact List.mem_append_left _ (List.mem_singleton.mp hn ▸ hf)
  · obtain ⟨i, hi⟩ := List.getElem?_of_mem hn
    exact hrooted.blank i n hi
  · exact List.mem_singleton.mp hn ▸ hslots

/-- A draft in which a unit waits in its lists. -/
def register (d : Draft) (file : String) (u : ResolvedUnit) (c : ClassId) : Draft :=
  { d with
    tree := { d.tree with facades := d.tree.facades ++ if u.isFacade then [c] else [] }
    names := d.names ++ u.jvmName?.toList
    named := d.named ++ if u.isClass then [c] else []
    localClasses := d.localClasses ++ if u.isLocal then [c] else []
    holders := d.holders ++ u.asHolder.map fun holder => (file, holder) }

/-- A unit without a class waits. -/
theorem add_register (file : String) {u : ResolvedUnit}
    (hnew : ∀ name, u.jvmName? = some name → name ∉ d.names) (houtline : u.outline? = none)
    (c : ClassId) : (add file u d).2 = d.register file u c := by
  cases u with
  | defaultImpls u =>
    rw [add_of_new file rfl (hnew u.jvmName rfl)]
    simp [addUnit, register, asHolder, isFacade, isClass, isLocal, jvmName?]
    rfl
  | opaqueUnit => simp [register, asHolder, isFacade, isClass, isLocal, jvmName?]; rfl
  | foreign => simp [register, asHolder, isFacade, isClass, isLocal, jvmName?]; rfl
  | classUnit u => simp [outline?] at houtline
  | localClass u => simp [outline?] at houtline
  | facade u => simp [outline?] at houtline

/-- A unit with a class adds a part and waits. -/
theorem add_withPart (file : String) {u : ResolvedUnit}
    (hnew : ∀ name, u.jvmName? = some name → name ∉ d.names) {jvmName : String}
    {shape : ClassShape} {m : Members} (houtline : u.outline? = some (jvmName, shape, m))
    {block : List FunctionNode} {node : ClassNode} {source : ClassSource} {new : List ClassFailure}
    (hrun : addClassWith file jvmName shape m { d with names := d.names ++ [jvmName] }
      = (d.tree.classes.length,
        { d with names := d.names ++ [jvmName] }.withClass block node source new)) :
    (add file u d).2
      = (d.withPart ⟨block, [node], [source], new⟩).register file u d.tree.classes.length := by
  have hname : u.jvmName? = some jvmName := by
    cases u <;> simp_all [outline?, jvmName?]
  rw [add_of_new file hname (hnew jvmName hname)]
  obtain ⟨d₀, hd₀⟩ : ∃ d₀, d₀ = { d with names := d.names ++ [jvmName] } := ⟨_, rfl⟩
  rw [← hd₀] at hrun ⊢
  cases u with
  | classUnit u =>
    obtain ⟨rfl, rfl, rfl⟩ := by simpa [outline?] using houtline
    have hadd : addUnit file (.classUnit u) d₀
        = ((), { (addClassWith file u.jvmName (.named u.shape) u.members d₀).2 with
          named := (addClassWith file u.jvmName (.named u.shape) u.members d₀).2.named
            ++ [(addClassWith file u.jvmName (.named u.shape) u.members d₀).1] }) := rfl
    rw [hadd, hrun, hd₀]
    simp [register, withClass, withPart, isClass, isLocal, isFacade,
      ResolvedUnit.jvmName?, asHolder]
  | localClass u =>
    obtain ⟨rfl, rfl, rfl⟩ := by simpa [outline?] using houtline
    have hadd : addUnit file (.localClass u) d₀
        = ((), { (addClassWith file u.jvmName (.localClass u.kind u.origin) u.members d₀).2 with
          localClasses := (addClassWith file u.jvmName (.localClass u.kind u.origin)
              u.members d₀).2.localClasses
            ++ [(addClassWith file u.jvmName (.localClass u.kind u.origin) u.members d₀).1] }) :=
      rfl
    rw [hadd, hrun, hd₀]
    simp [register, withClass, withPart, isClass, isLocal, isFacade,
      ResolvedUnit.jvmName?, asHolder]
  | facade u =>
    obtain ⟨rfl, rfl, rfl⟩ := by simpa [outline?] using houtline
    have hadd : addUnit file (.facade u) d₀
        = ((), { (addClassWith file u.jvmName (.facade none) u.members d₀).2 with
          tree := { (addClassWith file u.jvmName (.facade none) u.members d₀).2.tree with
            facades := (addClassWith file u.jvmName (.facade none) u.members d₀).2.tree.facades
              ++ [(addClassWith file u.jvmName (.facade none) u.members d₀).1] } }) := rfl
    rw [hadd, hrun, hd₀]
    simp [register, withClass, withPart, isClass, isLocal, isFacade,
      ResolvedUnit.jvmName?, asHolder]
  | defaultImpls u => simp [outline?] at houtline
  | opaqueUnit => simp [outline?] at houtline
  | foreign => simp [outline?] at houtline

/-- A unit adds a part and waits. To a draft with the same functions it adds the same part. -/
theorem exists_part (hd : HasSources d) (file : String) {u : ResolvedUnit}
    (hnew : ∀ name, u.jvmName? = some name → name ∉ d.names) :
    ∃ p : Part, p.ClosedAt d.tree.functions.length ∧ (p.nodes = [] → u.outline? = none) ∧
      (add file u d).2 = (d.withPart p).register file u d.tree.classes.length ∧
      ∀ (ρ : FunctionId → FunctionId) d', Embeds ρ d d' → HasSources d' →
        (∀ name, u.jvmName? = some name → name ∉ d'.names) →
        (add file u d').2 = (d'.withPart (p.rename ρ)).register file u d'.tree.classes.length := by
  cases houtline : u.outline? with
  | none =>
    refine ⟨{}, ⟨rfl, by simp, by simp, by simp, by simp⟩, fun _ => rfl, ?_,
      fun ρ d' _ _ hnew' => ?_⟩
    · rw [add_register file hnew houtline d.tree.classes.length]
      simp [withPart]
    · rw [add_register file hnew' houtline d'.tree.classes.length]
      simp [withPart, Part.rename]
  | some start =>
    obtain ⟨jvmName, shape, m⟩ := start
    obtain ⟨block, node, source, new, hrun, hfills, -, -, hfacade, hshape, -, -⟩ :=
      addClassWith_withClass { d with names := d.names ++ [jvmName] } file jvmName shape m
    have hslots {own : ClassNode} (hfacade : shape.IsFacade → own.shape.IsFacade)
        (hshape : ¬ shape.IsFacade → own.shape = shape) : own.shape.children = [] := by
      by_cases his : shape.IsFacade
      · exact (hfacade his).children_eq_nil
      · rw [hshape his, children_of_outline? houtline]
    have hclosed := hfills.closedAt (hslots hfacade hshape) source new
    refine ⟨⟨block, [node], [source], new⟩, hclosed, by simp,
      add_withPart file hnew houtline hrun, fun ρ d' hembeds hd' hnew' => ?_⟩
    obtain ⟨block', node', source', new', hrun', hfills', -, -, hfacade', hshape', -, -⟩ :=
      addClassWith_withClass { d' with names := d'.names ++ [jvmName] } file jvmName shape m
    have hembeds₀ : Embeds ρ { d with names := d.names ++ [jvmName] }
        { d' with names := d'.names ++ [jvmName] } :=
      ⟨hembeds.injective, hembeds.fresh, hembeds.functions⟩
    have halike := addClassWith_addsAlike hembeds₀ hd hd' file jvmName shape m
    obtain ⟨rfl, rfl, rfl, rfl⟩ := halike.same hrun hrun' hembeds.fresh hclosed.blank
      (hfills'.closedAt (hslots hfacade' hshape') source' new').blank
    exact add_withPart file hnew' houtline hrun'

/-- Classes that wait are no functions. -/
theorem Embeds.register (h : Embeds ρ d d') (file : String) (u : ResolvedUnit) (c : ClassId) :
    Embeds ρ d (d'.register file u c) := ⟨h.injective, h.fresh, h.functions⟩

section Register

variable {ρ : Equiv.Perm FunctionId} {κ : Equiv.Perm ClassId}

/-- Drafts correspond when the same unit waits in both. -/
theorem Corresponds.register (h : Corresponds ρ κ d d') (file : String) {u : ResolvedUnit}
    {c c' : ClassId} (hc : u.outline? = none ∨ c' = κ c) :
    Corresponds ρ κ (d.register file u c) (d'.register file u c') := by
  have hlist (kind : ResolvedUnit → Bool) (hkind : kind u = true → u.outline? ≠ none)
      {ids ids' : List ClassId} (hids : ids'.Perm (ids.map κ)) :
      (ids' ++ if kind u then [c'] else []).Perm
        ((ids ++ if kind u then [c] else []).map κ) := by
    rw [List.map_append]
    refine hids.append (List.Perm.of_eq ?_)
    by_cases his : kind u = true
    · rw [if_pos his, if_pos his, hc.resolve_left (hkind his)]
      rfl
    · rw [if_neg his, if_neg his]
      rfl
  refine ⟨⟨h.tree.path, h.tree.functions, h.tree.classes, h.tree.failed, fun s => ?_,
    h.tree.companion, h.tree.holder, ?_⟩, h.functionsLength, h.functionsFixed, h.classesLength,
    h.classesFixed, h.sources, h.names.append_right _, ?_, ?_, h.holders.append_right _,
    h.failures⟩
  · cases s with
    | topLevel => exact h.tree.slots .topLevel
    | nested o => exact h.tree.slots (.nested o)
    | body f => exact h.tree.slots (.body f)
  · exact hlist isFacade (by cases u <;> simp [isFacade, outline?]) h.tree.facades
  · exact hlist isClass (by cases u <;> simp [isClass, outline?]) h.named
  · exact hlist isLocal (by cases u <;> simp [isLocal, outline?]) h.localClasses

/-- It does not matter which of two units waits first. -/
theorem register_register (d : Draft) (file file' : String) (u v : ResolvedUnit) (c o : ClassId) :
    Corresponds (Equiv.refl _) (Equiv.refl _) ((d.register file u c).register file' v o)
      ((d.register file' v o).register file u c) := by
  have hswap {α : Type} (l l₁ l₂ : List α) : (l ++ l₂ ++ l₁).Perm (l ++ l₁ ++ l₂) := by
    rw [List.append_assoc, List.append_assoc]
    exact List.perm_append_comm.append_left l
  have htree := SourceTree.Corresponds.refl ((d.register file u c).register file' v o).tree
  refine ⟨⟨rfl, htree.functions, htree.classes, htree.failed, fun s => ?_, htree.companion,
    htree.holder, ?_⟩, rfl, fun _ _ => rfl, rfl, fun _ _ => rfl, fun _ => rfl, hswap _ _ _, ?_, ?_,
    hswap _ _ _, List.Perm.refl _⟩
  · cases s with
    | topLevel => exact htree.slots .topLevel
    | nested o => exact htree.slots (.nested o)
    | body f => exact htree.slots (.body f)
  · exact (hswap _ _ _).trans (List.Perm.of_eq (List.map_id _).symm)
  · exact (hswap _ _ _).trans (List.Perm.of_eq (List.map_id _).symm)
  · exact (hswap _ _ _).trans (List.Perm.of_eq (List.map_id _).symm)

end Register

/-- A part brings the sources of its classes. -/
theorem HasSources.withPart (hd : HasSources d) {p : Part} {base : Nat} (hp : p.ClosedAt base) :
    HasSources (d.withPart p) := by
  have hlength : d.sources.length = d.tree.classes.length := hd
  simp [HasSources, Draft.withPart, hlength, hp.sources]

/-- A draft whose classes stand for units refers to nothing outside of it. -/
theorem Holds.unplaced {units : List ResolvedUnit} {others : List String}
    (h : Holds d units others) (hfit : HoldersFit d units) (hd : HasSources d) : Unplaced d where
  sources := hd
  below := fun node hnode f hf => by
    have hplaces := SourceTree.placesFunctions_of_laid h.laid
    exact hplaces.functionsBound f
      (List.mem_append_right _ (List.mem_flatMap.mpr ⟨node, hnode, hf⟩))
  members := fun node hnode f hf => by
    have hplaces := SourceTree.placesFunctions_of_laid h.laid
    exact hplaces.functionsBound f (List.mem_append_left _ (List.mem_flatMap.mpr ⟨node, hnode, hf⟩))
  slots := h.slot_eq_nil
  companion := h.companionOf_eq_nil
  holder := fun c o ho => by
    rw [SourceTree.holderOf] at ho
    obtain ⟨node, hnode, ho⟩ := List.mem_flatMap.mp ho
    obtain ⟨u, hu, -⟩ :=
      hfit.sound node (List.mem_of_getElem? (Option.mem_toList.mp hnode)) o ho
    rw [h.laid.length_eq]
    exact (List.getElem?_eq_some_iff.mp hu).1
  waiting := fun c hc => by
    have hbound {kind : ResolvedUnit → Bool} (hc : c ∈ Lists.positions kind units) :
        c < d.tree.classes.length := by
      obtain ⟨u, hu, -⟩ := Lists.mem_positions.mp hc
      rw [h.laid.length_eq]
      exact (List.getElem?_eq_some_iff.mp hu).1
    rw [h.facades, h.named, h.localClasses, List.mem_append, List.mem_append] at hc
    rcases hc with (hc | hc) | hc
    · exact hbound hc
    · exact hbound hc
    · exact hbound hc

/-- A draft that is ready for more units: their names are new, and no two are the same. -/
structure Awaits (d : Draft) (units : List (String × ResolvedUnit)) : Prop where
  /-- Every class has a source. -/
  sources : HasSources d
  /-- Some units were added. -/
  added : ∃ kept rejected, Added d kept rejected
  /-- The names of the others differ. -/
  nodup : ((units.map Prod.snd).filterMap jvmName?).Nodup
  /-- They are new. -/
  fresh : ∀ unit ∈ units, ∀ name, unit.2.jvmName? = some name → name ∉ d.names

namespace Awaits

variable {file file' : String} {u v : ResolvedUnit} {units units' : List (String × ResolvedUnit)}

/-- The order of units does not matter for whether a draft is ready for them. -/
theorem perm (h : Awaits d units) (hperm : units.Perm units') : Awaits d units' :=
  ⟨h.sources, h.added, ((hperm.map _).filterMap _).nodup_iff.mp h.nodup,
    fun unit hunit => h.fresh unit (hperm.mem_iff.mpr hunit)⟩

/-- The name of the next unit is new. -/
theorem fresh_head (h : Awaits d ((file, u) :: units)) :
    ∀ name, u.jvmName? = some name → name ∉ d.names := h.fresh _ List.mem_cons_self

/-- A draft that is ready for units has no class placed. -/
theorem unplaced (h : Awaits d units) : Unplaced d := by
  obtain ⟨kept, rejected, hadded⟩ := h.added
  exact hadded.holds.unplaced hadded.holdersFit h.sources

/-- When a unit is added, the draft is ready for the others. -/
theorem next (h : Awaits d ((file, u) :: units)) : Awaits (add file u d).2 units := by
  obtain ⟨kept, rejected, hadded⟩ := h.added
  obtain ⟨p, hp, -, hrun, -⟩ := exists_part h.sources file h.fresh_head
  have hnodup := h.nodup
  rw [List.map_cons, List.filterMap_cons] at hnodup
  refine ⟨?_, ⟨_, _, hadded.next file u⟩, ?_, fun unit hunit name hname hmem => ?_⟩
  · rw [hrun]
    exact h.sources.withPart hp
  · cases hname : u.jvmName? <;> simp_all
  · rw [hrun] at hmem
    rcases List.mem_append.mp hmem with hold | hnew
    · exact h.fresh unit (List.mem_cons_of_mem _ hunit) name hname hold
    · rw [Option.mem_toList.mp hnew] at hnodup
      exact (List.nodup_cons.mp hnodup).1
        (List.mem_filterMap.mpr ⟨unit.2, List.mem_map_of_mem hunit, hname⟩)

/-- Alike drafts stay so when a unit is added. -/
theorem add_alike (h : Awaits d ((file, u) :: units)) (h' : Awaits d' ((file, u) :: units))
    (halike : Alike d d') : Alike (add file u d).2 (add file u d').2 := by
  obtain ⟨ρ, κ, hcorresponds⟩ := halike
  obtain ⟨p, hp, -, hrun, hsame⟩ := exists_part h.sources file h.fresh_head
  have hrun' := hsame ρ d' hcorresponds.embeds h'.sources h'.fresh_head
  rw [hrun, hrun']
  refine ⟨ρ, κ, (hcorresponds.withPart h.sources h'.sources hp).register file (Or.inr ?_)⟩
  rw [hcorresponds.classesFixed _ le_rfl, hcorresponds.classesLength]

/-- It does not matter which of two units is added first. -/
theorem add_add (h : Awaits d ((file, u) :: (file', v) :: units)) :
    Alike (add file' v (add file u d).2).2 (add file u (add file' v d).2).2 := by
  have hother : Awaits d ((file', v) :: (file, u) :: units) := h.perm (.swap _ _ _)
  obtain ⟨p, hp, hpnone, hrun, hsame⟩ := exists_part h.sources file h.fresh_head
  obtain ⟨q, hq, hqnone, hrun', hsame'⟩ := exists_part h.sources file' hother.fresh_head
  have hnext := h.next
  have hnext' := hother.next
  rw [hrun] at hnext ⊢
  rw [hrun'] at hnext' ⊢
  rw [hsame' _ _ ((h.unplaced.embeds p).register file u _) hnext.sources hnext.fresh_head,
    hsame _ _ ((h.unplaced.embeds q).register file' v _) hnext'.sources hnext'.fresh_head]
  have hone : u.outline? = none ∨ d.tree.classes.length + q.nodes.length
      = Lists.exchange d.tree.classes.length p.nodes.length q.nodes.length
        d.tree.classes.length := by
    rcases List.eq_nil_or_concat p.nodes with hnil | ⟨rest, node, hnodes⟩
    · exact Or.inl (hpnone hnil)
    · exact Or.inr (Lists.exchange_first (by simp [hnodes]) _ _).symm
  have htwo : v.outline? = none ∨ d.tree.classes.length
      = Lists.exchange d.tree.classes.length p.nodes.length q.nodes.length
        (d.tree.classes.length + p.nodes.length) := by
    rcases List.eq_nil_or_concat q.nodes with hnil | ⟨rest, node, hnodes⟩
    · exact Or.inl (hqnone hnil)
    · exact Or.inr (Lists.exchange_second (by simp [hnodes]) _ _).symm
  have hexchange := ((withPart_exchange h.unplaced hp hq).register file hone).register file' htwo
  have hlength : ((d.withPart p).register file u d.tree.classes.length).tree.classes.length
      = d.tree.classes.length + p.nodes.length := List.length_append
  have hlength' : ((d.withPart q).register file' v d.tree.classes.length).tree.classes.length
      = d.tree.classes.length + q.nodes.length := List.length_append
  rw [hlength, hlength']
  exact ⟨_, _, hexchange.trans (register_register _ file file' u v _ _)⟩

end Awaits

/-- The order of units with different names does not matter to the draft that they make up. -/
theorem addAll_alike {units units' : List (String × ResolvedUnit)} (hperm : units.Perm units')
    (h : Awaits d units) :
    Alike (units.forM (fun unit => add unit.1 unit.2) d).2
      (units'.forM (fun unit => add unit.1 unit.2) d).2 :=
  forM_alike (fun hperm h => h.perm hperm) Awaits.next Awaits.add_alike Awaits.add_add hperm h h
    (Alike.refl d)

end Draft

end LineAtlas
