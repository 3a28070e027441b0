import LineAtlas.Proofs.Tree.Standing

/-!
# Compositions

The tree of a composition is a finished one. Its failures name the units that were rejected,
and the kept ones without a class that could be placed.
-/

namespace LineAtlas

open Draft ResolvedUnit

/-- A composition whose tree is a finished one and whose failures name the rejected units and
those without a class that could be placed. -/
structure Composition.Reflects (c : Composition) (units kept : List ResolvedUnit)
    (rejected : List String) : Prop where
  /-- The tree is finished. -/
  arranged : c.tree.Arranged units kept
  /-- All kept units have names. -/
  named : ∀ u ∈ kept, ∃ name, u.jvmName? = some name
  /-- The failures name nothing else. -/
  failures : ∀ n, n ∈ namesOf c.failures ↔
    n ∈ rejected ∨ ∃ u ∈ kept, u.jvmName? = some n ∧ ¬ c.tree.HasLive units u

namespace SourceTree

variable {units kept : List ResolvedUnit} {t : SourceTree}

/-- The classes that failed are those of units that have no other. -/
theorem Arranged.exists_failed_iff (h : t.Arranged units kept) {n : String} :
    (∃ node ∈ t.classes, node.failed = true ∧ node.jvmName = n) ↔
      ∃ u ∈ units, u.jvmName? = some n ∧ ¬ t.HasLive units u := by
  constructor
  · rintro ⟨node, hnode, hfailed, rfl⟩
    obtain ⟨c, hc⟩ := List.getElem?_of_mem hnode
    have hclass : t.class? c = some node := hc
    obtain ⟨u, hu, hstands, -⟩ := h.stands c node hclass
    refine ⟨u, List.mem_of_getElem? hu, hstands.jvmName, ?_⟩
    rw [h.hasLive_iff hu, isLive, hclass]
    simp [hfailed]
  · rintro ⟨u, hmem, hname, hlive⟩
    obtain ⟨c, hu⟩ := List.getElem?_of_mem hmem
    obtain ⟨node, hnode, hstands⟩ := h.exists_class hu
    rw [h.hasLive_iff hu, isLive, hnode] at hlive
    exact ⟨node, List.mem_of_getElem? hnode, by simpa using hlive,
      Option.some.inj (hstands.jvmName.symm.trans hname)⟩

/-- Units that come with the outer classes first are composed without sorting. -/
theorem compose_of_pairwise (path : String) (policy : AccountingPolicy)
    {added : List (String × ResolvedUnit)} {d : Draft}
    (hd : (placeLocalClasses
      (placeHolders (added.forM (fun unit => add unit.1 unit.2) (empty path)).2).2).2 = d)
    (h : d.named.Pairwise fun a b => ((d.declaredName? a).map ClassName.depth).getD 0
      ≤ ((d.declaredName? b).map ClassName.depth).getD 0) :
    let placed := (placeCompanions policy (d.named.forM placeNestedClass d).2).2
    compose path policy added = ⟨placed.tree, placed.failures⟩ := by
  intro placed
  have hplaced : (placeCompanions policy (placeNestedClasses d).2).2 = placed := by
    rw [placeNestedClasses_of_pairwise h]
  rw [← hplaced, ← hd]
  rfl

/-- A composition reflects the accepted units. -/
theorem compose_reflects (path : String) (policy : AccountingPolicy)
    (added : List (String × ResolvedUnit)) :
    ∃ units, (compose path policy added).Reflects units (accepted added) (rejected added) := by
  have hadded : Added (added.forM (fun unit => add unit.1 unit.2) (empty path)).2
      (accepted added) (rejected added) := (Added.empty path).all added
  obtain ⟨units, hprepared⟩ := hadded.prepared (accepted_names_nodup added)
  have hsettles := hprepared.settles
  have hkeeps := hsettles.keeps
  have hmoves := hprepared.moves hsettles policy
  have harranged := hprepared.arranged hsettles hmoves
  refine ⟨units, harranged, fun u hu => (mem_of_mem_accepted hu).2, fun n => ?_⟩
  obtain ⟨others, hholds, hothers⟩ := hprepared.holds
  have hreports := (hkeeps.trans hmoves.keeps).reports others hholds.failures
  refine (hreports n).trans ?_
  rw [hothers, harranged.exists_failed_iff, or_assoc]
  refine or_congr Iff.rfl ⟨?_, ?_⟩
  · rintro (⟨u, hu, hnot, hname⟩ | ⟨u, hu, hname, hlive⟩)
    · refine ⟨u, hu, hname, ?_⟩
      rintro ⟨c, hc, -⟩
      exact hnot (List.mem_of_getElem? hc)
    · exact ⟨u, harranged.subset hu, hname, hlive⟩
  · rintro ⟨u, hu, hname, hlive⟩
    by_cases hmem : u ∈ units
    · exact Or.inr ⟨u, hmem, hname, hlive⟩
    · exact Or.inl ⟨u, hu, hmem, hname⟩

end SourceTree

end LineAtlas
