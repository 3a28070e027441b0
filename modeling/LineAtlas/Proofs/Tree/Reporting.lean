import LineAtlas.Proofs.Tree.Shows

/-!
# Classes that are dropped

Every unit is in the report of its file, or a failure names it or a class around it, but for two
kinds of units. From some the way out runs in a circle of local classes, and others are below a
slot of an object. These are dropped without a word.
-/

namespace LineAtlas

open Draft Report ResolvedUnit

namespace SourceTree

/-- A unit is in the report, or a failure names it or one around it, unless the way out of it runs
in a circle or passes a slot that is not shown. Exactly such a unit is dropped when no failure is
about it. -/
theorem compose_shows_or_blames_iff (path : String) (policy : AccountingPolicy)
    {added : List (String × ResolvedUnit)} (hresolved : ∀ u ∈ added.map Prod.snd, u.IsResolved)
    {u : ResolvedUnit} (hu : u ∈ added.map Prod.snd) {name : String}
    (hname : u.jvmName? = some name) :
    let c := compose path policy added
    c.tree.fileEntry.Shows u ∨ IsBlamed (accepted added) (namesOf c.failures) u ↔
      ¬ (RunsInCircle (accepted added) u ∨ PassesHidden (accepted added) u) ∨
        IsBlamed (accepted added) (namesOf c.failures) u := by
  intro c
  obtain ⟨units, h⟩ := compose_reflects path policy added
  have hfits (v : ResolvedUnit) (hv : v ∈ accepted added) : v.FitsKind :=
    (hresolved v (mem_of_mem_accepted hv).1).fitsKind
  by_cases hblamed : IsBlamed (accepted added) (namesOf c.failures) u
  · exact ⟨fun _ => Or.inr hblamed, fun _ => Or.inr hblamed⟩
  · have hkept : u ∈ accepted added := by
      refine (mem_accepted_or_mem_rejected hu hname).resolve_right fun hrejected => hblamed ?_
      exact ⟨u, .refl, name, (h.failures name).mpr (Or.inl hrejected), hname⟩
    rw [or_iff_left hblamed, or_iff_left hblamed, h.shows_iff hfits hkept hblamed,
      h.visible_iff hkept hblamed]

/-- A local class that names itself as the class around it. -/
def loopFile : ClassFile :=
  { name := "Loop", superName := some "java/lang/Object", interfaces := [],
    access := 0x21, sourceFile := none
    enclosing := some ⟨"Loop", none⟩, fields := []
    methods := [lineConstructor]
    annotations := [⟨"Lkotlin/Metadata;", [("k", .int 1), ("mv", .array [.int 1, .int 9]),
      ("d1", .array [.string "\x00\x00\x08\x0a\x18\x00"]), ("d2", .array [.string ".Loop"])]⟩] }

/-- What it contributes. -/
def loop : ResolvedUnit :=
  .localClass ⟨"Loop", .named "Loop", ⟨"Loop", none⟩,
    { constructors := [Binding.implicitFunction lineConstructor.body] }⟩

/-- The unit `loop` is what some class file contributes. -/
theorem loop_isResolved : loop.IsResolved :=
  loopFile.isResolved .strict (by decide +kernel)

/-- The unit `loop` has a name and comes from a class file, so it is shown or blamed unless the way
out of it runs in a circle. -/
theorem compose_shows_or_blames_iff_loop :
    let added := [("Loop.class", loop)]
    let c := compose "Loop.kt" .strict added
    (∀ u ∈ added.map Prod.snd, u.IsResolved) ∧ loop ∈ added.map Prod.snd ∧
      loop.jvmName? = some "Loop" ∧
      (c.tree.fileEntry.Shows loop ∨ IsBlamed (accepted added) (namesOf c.failures) loop ↔
        ¬ (RunsInCircle (accepted added) loop ∨ PassesHidden (accepted added) loop) ∨
          IsBlamed (accepted added) (namesOf c.failures) loop) := by
  intro added c
  have hresolved : ∀ u ∈ added.map Prod.snd, u.IsResolved := by
    simpa [added] using loop_isResolved
  have hmem : loop ∈ added.map Prod.snd := by simp [added]
  exact ⟨hresolved, hmem, rfl, compose_shows_or_blames_iff "Loop.kt" .strict hresolved hmem rfl⟩

/-- The class is dropped: there is no failure, and the report does not have it. -/
theorem compose_drops_loop : loop.IsResolved ∧ loop.jvmName? = some "Loop" ∧
    (compose "Loop.kt" .strict [("Loop.class", loop)]).failures = [] ∧
    "Loop" ∉ (compose "Loop.kt" .strict [("Loop.class", loop)]).tree.fileEntry.classNames := by
  have hfailures : (compose "Loop.kt" .strict [("Loop.class", loop)]).failures = [] := by
    decide +kernel
  have hnames : (compose "Loop.kt" .strict [("Loop.class", loop)]).tree.fileEntry.classNames
      = [] := by decide +kernel
  refine ⟨loop_isResolved, rfl, hfailures, ?_⟩
  rw [hnames]
  exact List.not_mem_nil

end SourceTree

end LineAtlas
