import LineAtlas.Proofs.Tree.BackReferences
import LineAtlas.Proofs.Tree.Overlooking

/-!
# Units that come again

A unit with the internal name of an earlier one leaves nothing behind but its failure: the tree
is that of the other units, and so are all other failures.
-/

namespace LineAtlas

open Draft ResolvedUnit

/-- The units whose internal names are neither among some names nor those of earlier units, and
the class file and the name of every other unit. -/
def sift (names : List String) :
    List (String × ResolvedUnit) → List (String × ResolvedUnit) × List (String × String)
  | [] => ([], [])
  | (file, u) :: rest =>
    match u.jvmName? with
    | none => ((file, u) :: (sift names rest).1, (sift names rest).2)
    | some name =>
      if names.contains name then ((sift names rest).1, (file, name) :: (sift names rest).2)
      else ((file, u) :: (sift (names ++ [name]) rest).1, (sift (names ++ [name]) rest).2)

/-- The units without those whose internal name an earlier one has. -/
def withoutRepeats (units : List (String × ResolvedUnit)) : List (String × ResolvedUnit) :=
  (sift [] units).1

/-- The class file and the internal name of every unit whose name an earlier one has. -/
def repeats (units : List (String × ResolvedUnit)) : List (String × String) :=
  (sift [] units).2

/-- The failure of a unit whose internal name an earlier one has. -/
def repeatFailure (path : String) (again : String × String) : ClassFailure :=
  ⟨again.1, some again.2, .composition again.2 ("duplicate class in " ++ path)⟩

/-- Sifting units adds none. -/
theorem sift_subset (names : List String) (units : List (String × ResolvedUnit)) :
    (sift names units).1 ⊆ units := by
  induction units generalizing names with
  | nil => exact List.Subset.refl _
  | cons unit rest ih =>
    obtain ⟨file, u⟩ := unit
    rw [sift]
    split
    · exact List.cons_subset_cons _ (ih _)
    · split
      · exact List.Subset.trans (ih _) (List.subset_cons_self _ _)
      · exact List.cons_subset_cons _ (ih _)

/-- Of the units that are left, no two have the same name. -/
theorem sift_nodup (names : List String) (units : List (String × ResolvedUnit)) :
    (((sift names units).1.map Prod.snd).filterMap jvmName?).Nodup ∧
      ∀ name ∈ ((sift names units).1.map Prod.snd).filterMap jvmName?, name ∉ names := by
  induction units generalizing names with
  | nil => exact ⟨List.nodup_nil, fun name hname => absurd hname List.not_mem_nil⟩
  | cons unit rest ih =>
    obtain ⟨file, u⟩ := unit
    rw [sift]
    split
    · next hname =>
      rw [List.map_cons, List.filterMap_cons_none hname]
      exact ih names
    · next name hname =>
      split
      · exact ih names
      · next hnew =>
        obtain ⟨hnodup, hother⟩ := ih (names ++ [name])
        rw [List.map_cons, List.filterMap_cons_some hname]
        refine ⟨List.nodup_cons.mpr ⟨fun hmem => ?_, hnodup⟩, fun other hmem => ?_⟩
        · exact hother name hmem (List.mem_append_right _ List.mem_cons_self)
        · rcases List.mem_cons.mp hmem with rfl | hmem
          · simpa using hnew
          · exact fun hold => hother other hmem (List.mem_append_left _ hold)

/-- The first units of their names are among the units. -/
theorem withoutRepeats_subset (units : List (String × ResolvedUnit)) :
    withoutRepeats units ⊆ units := sift_subset [] units

/-- The first units of their names have different names. -/
theorem withoutRepeats_nodup (units : List (String × ResolvedUnit)) :
    (((withoutRepeats units).map Prod.snd).filterMap jvmName?).Nodup := (sift_nodup [] units).1

namespace Draft

variable {d : Draft} {file name : String} {u : ResolvedUnit}

/-- Adding a unit notes no name and keeps the source file. -/
theorem addUnit_names_path (d : Draft) (file : String) (u : ResolvedUnit) :
    (addUnit file u d).2.names = d.names ∧ (addUnit file u d).2.tree.path = d.tree.path := by
  by_cases hu : u.isClass = true ∨ u.isLocal = true ∨ u.isFacade = true
  · obtain ⟨block, node, source, new, hadd, -⟩ := addUnit_withUnit d file hu
    rw [hadd]
    exact ⟨rfl, rfl⟩
  · cases u with
    | classUnit u => exact absurd (Or.inl rfl) hu
    | localClass u => exact absurd (Or.inr (Or.inl rfl)) hu
    | facade u => exact absurd (Or.inr (Or.inr rfl)) hu
    | defaultImpls u => exact ⟨rfl, rfl⟩
    | opaqueUnit => exact ⟨rfl, rfl⟩
    | foreign => exact ⟨rfl, rfl⟩

/-- A draft with several more units. -/
def addAll (units : List (String × ResolvedUnit)) (d : Draft) : Draft :=
  (units.forM (fun unit => add unit.1 unit.2) d).2

/-- Of units that are added to a draft the repeats leave their failures only. Other failures may
have been noted before. -/
theorem addAll_sift (units : List (String × ResolvedUnit)) {names : List String}
    (hnames : d.names = names) {noted others : List ClassFailure}
    (hnoted : noted.Perm (d.failures ++ others)) :
    ∃ found, addAll units (d.withFailures noted)
        = (addAll (sift names units).1 d).withFailures found ∧
      found.Perm ((addAll (sift names units).1 d).failures
        ++ (others ++ (sift names units).2.map (repeatFailure d.tree.path))) := by
  induction units generalizing d names noted others with
  | nil => exact ⟨noted, rfl, by rwa [sift, List.map_nil, List.append_nil]⟩
  | cons unit rest ih =>
    obtain ⟨file, u⟩ := unit
    -- A unit that is kept adds the same failures to both drafts.
    have hkeep {names' : List String} (hnames' : (add file u d).2.names = names')
        (hpath : (add file u d).2.tree.path = d.tree.path) :
        ∃ found, addAll ((file, u) :: rest) (d.withFailures noted)
            = (addAll ((file, u) :: (sift names' rest).1) d).withFailures found ∧
          found.Perm ((addAll ((file, u) :: (sift names' rest).1) d).failures
            ++ (others ++ (sift names' rest).2.map (repeatFailure d.tree.path))) := by
      obtain ⟨new, hnew, hsame⟩ := (overlooks_add file u).exists_noted d
      have hperm : (noted ++ new).Perm ((add file u d).2.failures ++ others) := by
        rw [hnew, List.append_assoc]
        refine (hnoted.append_right new).trans ?_
        rw [List.append_assoc]
        exact List.perm_append_comm.append_left d.failures
      obtain ⟨found, hfound, hall⟩ := ih hnames' hperm
      rw [hpath] at hall
      refine ⟨found, ?_, hall⟩
      change addAll rest (add file u (d.withFailures noted)).2 = _
      rw [hsame]
      exact hfound
    cases hname : u.jvmName? with
    | none =>
      have hsift : sift names ((file, u) :: rest)
          = ((file, u) :: (sift names rest).1, (sift names rest).2) := by rw [sift, hname]
      have hadded := add_of_unnamed d file hname
      rw [hsift]
      exact hkeep (by rw [hadded]; exact hnames) (by rw [hadded])
    | some name =>
      by_cases hold : name ∈ d.names
      · have hsift : sift names ((file, u) :: rest)
            = ((sift names rest).1, (file, name) :: (sift names rest).2) := by
          rw [sift, hname]
          dsimp only
          rw [← hnames, if_pos (by simpa using hold)]
        have hperm : (noted ++ [repeatFailure d.tree.path (file, name)]).Perm
            (d.failures ++ (others ++ [repeatFailure d.tree.path (file, name)])) := by
          rw [← List.append_assoc]
          exact hnoted.append_right _
        obtain ⟨found, hfound, hall⟩ := ih hnames hperm
        rw [hsift]
        refine ⟨found, ?_, by simpa using hall⟩
        change addAll rest (add file u (d.withFailures noted)).2 = _
        rw [add_of_repeat file hname (d := d.withFailures noted) hold]
        exact hfound
      · have hsift : sift names ((file, u) :: rest)
            = ((file, u) :: (sift (names ++ [name]) rest).1, (sift (names ++ [name]) rest).2) := by
          rw [sift, hname]
          dsimp only
          rw [← hnames, if_neg (by simpa using hold)]
        obtain ⟨hadded, hpath⟩ := addUnit_names_path { d with names := d.names ++ [name] } file u
        rw [← add_of_new file hname hold] at hadded hpath
        rw [hsift]
        exact hkeep (hadded.trans (congrArg (· ++ [name]) hnames)) hpath

end Draft

namespace SourceTree

/-- No two classes of a composition have the same internal name. -/
theorem nodup_jvmName_compose (path : String) (policy : AccountingPolicy)
    (units : List (String × ResolvedUnit)) :
    ((compose path policy units).tree.classes.map ClassNode.jvmName).Nodup := by
  obtain ⟨present, hprepared⟩ :=
    ((Added.empty path).all units).prepared (accepted_names_nodup units)
  have hsettles := hprepared.settles
  have hkeeps := hsettles.keeps.trans (hprepared.moves hsettles policy).keeps
  have hnames := congrArg (List.map ClassNode.jvmName) hkeeps.classes
  rw [List.map_map, List.map_map] at hnames
  exact hnames ▸ hprepared.names_nodup

/-- Repeats leave their failures only, also when all classes are in their places. -/
theorem compose_eq_withFailures (path : String) (policy : AccountingPolicy)
    (units : List (String × ResolvedUnit)) :
    ∃ found, compose path policy units
        = ⟨(compose path policy (withoutRepeats units)).tree, found⟩ ∧
      found.Perm ((compose path policy (withoutRepeats units)).failures
        ++ (repeats units).map (repeatFailure path)) := by
  have hcompose (us : List (String × ResolvedUnit)) : compose path policy us
      = ⟨(placeAll policy (addAll us (empty path))).2.tree,
        (placeAll policy (addAll us (empty path))).2.failures⟩ := rfl
  obtain ⟨found, hfound, hadded⟩ :
      ∃ found, addAll units (empty path)
          = (addAll (withoutRepeats units) (empty path)).withFailures found ∧
        found.Perm ((addAll (withoutRepeats units) (empty path)).failures
          ++ (repeats units).map (repeatFailure path)) :=
    addAll_sift (d := empty path) units rfl (List.Perm.refl ((empty path).failures ++ []))
  obtain ⟨new, hnew, hsame⟩ := (overlooks_placeAll policy).exists_noted
    (addAll (withoutRepeats units) (empty path))
  refine ⟨found ++ new, ?_, ?_⟩
  · rw [hcompose, hcompose, hfound, hsame]
    rfl
  · rw [hcompose, hnew, List.append_assoc]
    refine (hadded.append_right new).trans ?_
    rw [List.append_assoc]
    exact List.perm_append_comm.append_left _

/-- A composition is that of the units without the repeats, and has one more failure for every
repeat. No two of its classes have the same internal name. -/
theorem compose_withoutRepeats (path : String) (policy : AccountingPolicy)
    (units : List (String × ResolvedUnit)) :
    (compose path policy units).tree = (compose path policy (withoutRepeats units)).tree ∧
      (compose path policy units).failures.Perm
        ((compose path policy (withoutRepeats units)).failures
          ++ (repeats units).map (repeatFailure path)) ∧
      ((compose path policy units).tree.classes.map ClassNode.jvmName).Nodup := by
  obtain ⟨found, hcompose, hperm⟩ := compose_eq_withFailures path policy units
  refine ⟨?_, ?_, nodup_jvmName_compose path policy units⟩
  · rw [hcompose]
  · rw [hcompose]
    exact hperm

end SourceTree

end LineAtlas
