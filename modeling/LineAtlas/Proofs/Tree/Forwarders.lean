import LineAtlas.Proofs.Tree.BackReferences
import LineAtlas.Proofs.Tree.Listing
import LineAtlas.Proofs.Tree.Renaming

/-!
# Static methods that may be forwarders

A class with a name of its own keeps the static methods that its unit takes for forwarders. Only
units with a companion object take any, if they come from class files.
-/

namespace LineAtlas

namespace Draft

variable {d d' : Draft} {units : List (String × ResolvedUnit)}

/-- Every class with a name of its own has the file and the forwarders of a unit of its name. -/
structure Sourced (units : List (String × ResolvedUnit)) (d : Draft) : Prop where
  /-- Every class has a source. -/
  sources : HasSources d
  /-- It is that of a unit. -/
  unit : ∀ c node, d.tree.class? c = some node → node.shape.IsNamed →
    ∃ file u, (file, .classUnit u) ∈ units ∧ u.jvmName = node.jvmName ∧
      d.sources[c]? = some ⟨file, u.members.forwarders.map (·.signature)⟩

/-- The empty draft has no classes that need a unit. -/
theorem sourced_empty (units : List (String × ResolvedUnit)) (path : String) :
    Sourced units (empty path) :=
  ⟨rfl, fun c node hnode => by simp [SourceTree.class?, empty] at hnode⟩

/-- Where classes and their sources are the same, so are their units. -/
theorem Sourced.congr (h : Sourced units d) (hclasses : d'.tree.classes = d.tree.classes)
    (hsources : d'.sources = d.sources) : Sourced units d' := by
  refine ⟨?_, fun c node hnode hnamed => ?_⟩
  · rw [HasSources, hclasses, hsources]
    exact h.sources
  · rw [hsources]
    exact h.unit c node (by rwa [SourceTree.class?, hclasses] at hnode) hnamed

/-- What is put into slots, and what fails, does not matter. -/
theorem Sourced.keeps (h : Sourced units d) (hkeeps : Keeps d d') : Sourced units d' := by
  refine ⟨?_, fun c node hnode hnamed => ?_⟩
  · rw [HasSources, hkeeps.sources, hkeeps.classes_length]
    exact h.sources
  · obtain ⟨old, hold, hbare⟩ := hkeeps.exists_old hnode
    have hnamed' : old.shape.IsNamed := by
      obtain ⟨shape, hshape⟩ := hnamed
      have hsame : old.shape.bare = node.shape.bare := congrArg ClassNode.shape hbare
      rw [hshape] at hsame
      obtain ⟨own, hown, -⟩ := ClassShape.exists_named_of_bare hsame
      exact ⟨own, hown⟩
    obtain ⟨file, u, hunit, hname, hsource⟩ := h.unit c old hold hnamed'
    exact ⟨file, u, hunit, hname.trans (jvmName_eq_of_bare hbare), hkeeps.sources ▸ hsource⟩

/-- A class is added with its source. -/
theorem Sourced.withClass (h : Sourced units d) (block : List FunctionNode) {node : ClassNode}
    {source : ClassSource} (new : List ClassFailure)
    (hsource : node.shape.IsNamed → ∃ file u, (file, .classUnit u) ∈ units ∧
      u.jvmName = node.jvmName ∧ source = ⟨file, u.members.forwarders.map (·.signature)⟩) :
    Sourced units (d.withClass block node source new) := by
  have hlength : d.sources.length = d.tree.classes.length := h.sources
  refine ⟨?_, fun c other hother hnamed => ?_⟩
  · rw [HasSources, Draft.withClass]
    simp [hlength]
  · change (d.tree.classes ++ [node])[c]? = some other at hother
    change ∃ file u, _ ∧ _ ∧ (d.sources ++ [source])[c]? = _
    rcases Nat.lt_trichotomy c d.tree.classes.length with hlt | rfl | hgt
    · rw [List.getElem?_append_left hlt] at hother
      rw [List.getElem?_append_left (hlength ▸ hlt)]
      exact h.unit c other hother hnamed
    · rw [List.getElem?_concat_length] at hother
      rw [← hlength, List.getElem?_concat_length]
      obtain rfl := Option.some.inj hother
      obtain ⟨file, u, hunit, hname, rfl⟩ := hsource hnamed
      exact ⟨file, u, hunit, hname, rfl⟩
    · rw [List.getElem?_eq_none (by simpa using Nat.succ_le_of_lt hgt)] at hother
      simp at hother

/-- Placing local functions adds no source. -/
theorem placeLocals_sources (keys : LocalKeys) (locals : List Body) (d : Draft) :
    (placeLocals keys locals d).2.sources = d.sources := by
  obtain ⟨unplaced, fs, placed, hrun, -⟩ := placeLocals_orders keys locals
    (Nat.le_refl d.tree.functions.length) fun i node hi hnode => by
      rw [List.getElem?_eq_none hi] at hnode
      simp at hnode
  rw [hrun]
  rfl

/-- A class that is added has its source behind the others. -/
theorem addPlaced_sources (node : ClassNode) (source : ClassSource) (keys : LocalKeys)
    (locals : List Body) (d : Draft) :
    (addPlaced node source keys locals d).2.sources = d.sources ++ [source] := by
  rw [← placeLocals_sources keys locals d]
  rcases hrun : placeLocals keys locals d with ⟨unplaced, d'⟩
  cases unplaced with
  | none => rw [addPlaced_of_none hrun]; rfl
  | some signature => rw [addPlaced_of_some hrun]; rfl

/-- A class comes from its file, with its forwarders. -/
theorem addClassWith_sources (d : Draft) (file jvmName : String) (shape : ClassShape)
    (m : Members) : (addClassWith file jvmName shape m d).2.sources
      = d.sources ++ [⟨file, m.forwarders.map (·.signature)⟩] := by
  obtain ⟨node, d', hrun, -, ⟨block, rfl, -⟩, -⟩ := addClassWith_steps d file jvmName shape m
  rw [hrun, addPlaced_sources]
  rfl

/-- A class that is added comes from its unit. -/
theorem Sourced.addUnit (h : Sourced units d) {file : String} {u : ResolvedUnit}
    (hu : (file, u) ∈ units) : Sourced units (addUnit file u d).2 := by
  by_cases hkind : u.isClass = true ∨ u.isLocal = true ∨ u.isFacade = true
  · obtain ⟨block, node, source, new, hadd, hjoins, -⟩ := addUnit_withUnit d file hkind
    have hadded : Sourced units (d.withClass block node source new) := by
      refine h.withClass block new fun hnamed => ?_
      obtain ⟨w, rfl⟩ := hjoins.stands.exists_classUnit hnamed
      have hsources : (Draft.addUnit file (.classUnit w) d).2.sources
          = d.sources ++ [⟨file, w.members.forwarders.map (·.signature)⟩] :=
        addClassWith_sources d file w.jvmName (.named w.shape) w.members
      rw [hadd] at hsources
      exact ⟨file, w, hu, hjoins.stands.1.symm,
        List.singleton_inj.mp (List.append_cancel_left hsources)⟩
    rw [hadd]
    exact hadded.congr rfl rfl
  · cases u with
    | classUnit u => exact absurd (Or.inl rfl) hkind
    | localClass u => exact absurd (Or.inr (Or.inl rfl)) hkind
    | facade u => exact absurd (Or.inr (Or.inr rfl)) hkind
    | defaultImpls u => exact h.congr rfl rfl
    | opaqueUnit => exact h
    | foreign => exact h

/-- Adding a unit, or reporting it, leaves each class with its unit. -/
theorem Sourced.add (h : Sourced units d) {file : String} {u : ResolvedUnit}
    (hu : (file, u) ∈ units) : Sourced units (add file u d).2 := by
  rw [Draft.add, bind_apply, get_apply]
  dsimp only
  cases u.jvmName? with
  | none => exact h.addUnit hu
  | some name =>
    dsimp only
    split
    · exact h.congr rfl rfl
    · exact Sourced.addUnit (d := { d with names := d.names ++ [name] }) (h.congr rfl rfl) hu

/-- Holders have no names of their own. -/
theorem Sourced.placeHolder (h : Sourced units d) (file : String) (u : DefaultImplsUnit) :
    Sourced units (placeHolder file u d).2 := by
  cases hfind : d.namedWith? u.interfaceName with
  | none =>
    rw [placeHolder_apply_of_none file hfind]
    exact h.congr rfl rfl
  | some o =>
    obtain ⟨interface, ho, -⟩ := exists_class_of_namedWith? hfind
    obtain ⟨block, holder, source, hadd, -, -, hshape, -⟩ := addHolder_withClass d file u interface
    have hadded : Sourced units (d.withClass block holder source []) :=
      h.withClass block [] fun hnamed => by
        obtain ⟨shape, hsame⟩ := hnamed
        simp [hshape] at hsame
    rw [placeHolder_apply_of_some file hfind ho hadd]
    exact hadded.keeps (modifyNamed_keeps o _ (fun shape => ⟨_, _, _, rfl⟩) _)

/-- Before classes are put into places, all of them have their sources. -/
theorem sourced_placeHolders (path : String) (units : List (String × ResolvedUnit)) :
    Sourced units
      (placeHolders (units.forM (fun unit => Draft.add unit.1 unit.2) (empty path)).2).2 := by
  have hadded (more : List (String × ResolvedUnit)) (hmore : more ⊆ units) (d : Draft)
      (h : Sourced units d) :
      Sourced units (more.forM (fun unit => Draft.add unit.1 unit.2) d).2 := by
    induction more generalizing d with
    | nil => exact h
    | cons unit rest ih =>
      exact ih (List.subset_of_cons_subset hmore) _ (h.add (hmore List.mem_cons_self))
  have hplaced (holders : List (String × DefaultImplsUnit)) (d : Draft) (h : Sourced units d) :
      Sourced units
        (holders.forM (fun holder => Draft.placeHolder holder.1 holder.2) d).2 := by
    induction holders generalizing d with
    | nil => exact h
    | cons holder rest ih => exact ih _ (h.placeHolder holder.1 holder.2)
  exact hplaced _ _ (hadded units (List.Subset.refl _) _ (sourced_empty units path))

end Draft

end LineAtlas
