import LineAtlas.Proofs.Report.Order
import LineAtlas.Proofs.Tree.Conservation

/-!
# Declaration order

From class files to the report of their source file the order of declared members is kept. Local
functions come in the order of the lengths of their names, which need not be that of their class
file.
-/

namespace LineAtlas

open Draft Report

/-- What a class file contributes, with the roles of its methods. -/
theorem ClassFile.exists_ledger {file : ClassFile} {policy : AccountingPolicy} {u : ResolvedUnit}
    (hunit : (file.resolve policy).toOption.map (·.unit) = some u) :
    ∃ ledger, file.resolve policy = .ok ⟨u, ledger⟩ := by
  obtain ⟨⟨v, ledger⟩, hr, rfl⟩ := Option.map_eq_some_iff.mp hunit
  refine ⟨ledger, ?_⟩
  cases h : file.resolve policy <;> simp_all [Except.toOption]

namespace SourceTree

/-- All lists of members in the report of a source file are in the order of its class files:
functions, constructors and properties in that of the metadata, and local functions in that of the
lengths of their names. -/
theorem compose_fileEntry_inOrder (path : String) (policy : AccountingPolicy)
    {added : List (String × ResolvedUnit)} {files : List ClassFile}
    (hresolved : ∀ unit ∈ added, ∃ file ∈ files, ∃ (resolving : AccountingPolicy)
      (ledger : Ledger), file.resolve resolving = .ok ⟨unit.2, ledger⟩) :
    (compose path policy added).tree.fileEntry.InOrder files := by
  have hunits : ∀ unit ∈ added, ∃ file ∈ files, unit.2.OrderedAs file ∧ unit.2.FitsKind := by
    intro unit hunit
    obtain ⟨file, hfile, resolving, ledger, hresolve⟩ := hresolved unit hunit
    exact ⟨file, hfile, ClassFile.resolve_orderedAs hresolve,
      ResolvedUnit.IsResolved.fitsKind ⟨file, resolving, ledger, hresolve⟩⟩
  obtain ⟨units, hreflects⟩ := compose_reflects path policy added
  have hfits : ∀ u ∈ accepted added, u.FitsKind := by
    intro u hu
    obtain ⟨unit, hunit, rfl⟩ := List.mem_map.mp (mem_of_mem_accepted hu).1
    obtain ⟨file, -, -, hfits⟩ := hunits unit hunit
    exact hfits
  exact (compose_inOrder path policy added files hunits).fileEntry
    (hreflects.sound hfits).toPlacesClasses

/-- A class file in which the local function with the longer name comes first. -/
def longerFirst : ClassFile :=
  classFile "A" "A" none [lineConstructor,
    ⟨0x1a, ⟨"_init_$longer", "()V"⟩, .ofList [4]⟩,
    ⟨0x1a, ⟨"_init_$b", "()V"⟩, .ofList [5]⟩]

/-- What the class file contributes. -/
def longerFirstUnit : ClassUnit :=
  ⟨"A", ⟨"", "A"⟩, false, false, false, none,
    { constructors := [Binding.implicitFunction lineConstructor.body]
      locals := (longerFirst.methods.map Method.body).tail }⟩

/-- The class file `longerFirst` contributes `longerFirstUnit`. -/
theorem longerFirst_resolves :
    ∃ ledger, longerFirst.resolve .strict = .ok ⟨.classUnit longerFirstUnit, ledger⟩ :=
  ClassFile.exists_ledger (by decide +kernel)

/-- The report of `longerFirst` is in order, though its local functions have changed places. -/
theorem compose_fileEntry_inOrder_longerFirst :
    (∀ unit ∈ [("A.class", ResolvedUnit.classUnit longerFirstUnit)], ∃ file ∈ [longerFirst],
      ∃ (resolving : AccountingPolicy) (ledger : Ledger),
        file.resolve resolving = .ok ⟨unit.2, ledger⟩) ∧
      (compose "A.kt" .strict [("A.class", .classUnit longerFirstUnit)]).tree.fileEntry.InOrder
        [longerFirst] := by
  have hresolved : ∀ unit ∈ [("A.class", ResolvedUnit.classUnit longerFirstUnit)],
      ∃ file ∈ [longerFirst], ∃ (resolving : AccountingPolicy) (ledger : Ledger),
        file.resolve resolving = .ok ⟨unit.2, ledger⟩ := by
    intro unit hunit
    obtain rfl := List.mem_singleton.mp hunit
    exact ⟨longerFirst, List.mem_singleton_self _, .strict, longerFirst_resolves⟩
  exact ⟨hresolved, compose_fileEntry_inOrder "A.kt" .strict hresolved⟩

/-- The tree of the class file: the local function with the shorter name is placed first. -/
def longerFirstTree : SourceTree :=
  { path := "A.kt"
    functions := [
      { kind := .declared "<init>" none true, body := lineConstructor.body, locals := [1, 2] },
      { kind := .localFunction "b", body := ⟨⟨"_init_$b", "()V"⟩, .ofList [5]⟩ },
      { kind := .localFunction "longer", body := ⟨⟨"_init_$longer", "()V"⟩, .ofList [4]⟩ }]
    classes := [{ jvmName := "A", shape := .named longerFirstUnit.shape, constructors := [0] }]
    topLevel := [0] }

/-- Composing `longerFirstUnit` gives the tree `longerFirstTree`, without a failure. -/
theorem compose_longerFirst :
    compose "A.kt" .strict [("A.class", .classUnit longerFirstUnit)] = ⟨longerFirstTree, []⟩ := by
  have hsorted : byNameLength longerFirstUnit.members.locals
      = longerFirstUnit.members.locals.reverse :=
    (StableSort.mergeSort_eq_of_perm (.swap _ _ _) (by decide)).trans
      (List.mergeSort_of_pairwise (by decide))
  obtain ⟨start, hstart⟩ : ∃ start : Draft, start =
    { tree := { path := "A.kt", functions :=
        [{ kind := .declared "<init>" none true, body := lineConstructor.body }] }
      names := ["A"] } := ⟨_, rfl⟩
  have hplaced : placeLocals [("_init_", 0)] longerFirstUnit.members.locals start
      = (none, { start with tree := { longerFirstTree with classes := [], topLevel := [] } }) := by
    rw [placeLocals, hsorted, hstart]
    exact Prod.ext (show (_ : Option Signature) = _ by decide +kernel)
      (show (_ : Draft) = _ by decide +kernel)
  have hadded : addClassWith "A.class" "A" (.named longerFirstUnit.shape) longerFirstUnit.members
      { empty "A.kt" with names := ["A"] } = (0, { start with
        tree := { longerFirstTree with topLevel := [] }, sources := [⟨"A.class", []⟩] }) := by
    have hmembers : addClassWith "A.class" "A" (.named longerFirstUnit.shape)
        longerFirstUnit.members { empty "A.kt" with names := ["A"] }
        = addPlaced { jvmName := "A", shape := .named longerFirstUnit.shape, constructors := [0] }
          ⟨"A.class", []⟩ [("_init_", 0)] longerFirstUnit.members.locals start := by
      rw [hstart]
      rfl
    rw [hmembers, addPlaced, bind_apply, hplaced, hstart]
    rfl
  have hready : ([("A.class", ResolvedUnit.classUnit longerFirstUnit)].forM
      (fun unit => add unit.1 unit.2) (empty "A.kt")).2 = { start with
        tree := { longerFirstTree with topLevel := [] }, sources := [⟨"A.class", []⟩]
        named := [0] } := by
    rw [forM_cons_apply]
    change { (addClassWith "A.class" "A" (.named longerFirstUnit.shape) longerFirstUnit.members
        { empty "A.kt" with names := ["A"] }).2 with
      named := (addClassWith "A.class" "A" (.named longerFirstUnit.shape) longerFirstUnit.members
          { empty "A.kt" with names := ["A"] }).2.named
        ++ [(addClassWith "A.class" "A" (.named longerFirstUnit.shape) longerFirstUnit.members
          { empty "A.kt" with names := ["A"] }).1] } = _
    rw [hadded, hstart]
    rfl
  have hwaiting : (placeLocalClasses (placeHolders
      ([("A.class", ResolvedUnit.classUnit longerFirstUnit)].forM
        (fun unit => add unit.1 unit.2) (empty "A.kt")).2).2).2 = { start with
          tree := { longerFirstTree with topLevel := [] }, sources := [⟨"A.class", []⟩]
          named := [0] } := by
    rw [hready, hstart]
    decide +kernel
  rw [compose_of_pairwise "A.kt" .strict hwaiting (List.pairwise_singleton _ _), hstart]
  decide +kernel

/-- The report lists the local function with the shorter name first, against the order of the class
file. -/
theorem compose_sorts_longerFirst :
    let c := compose "A.kt" .strict [("A.class", .classUnit longerFirstUnit)]
    (∃ ledger, longerFirst.resolve .strict = .ok ⟨.classUnit longerFirstUnit, ledger⟩) ∧
      c.failures = [] ∧ ∃ e ∈ c.tree.fileEntry.classes, ∃ f ∈ e.members.constructors,
        ¬ (f.inner.functions.map FunctionEntry.signature).Sublist
          (longerFirst.methods.map (·.signature.display)) := by
  intro c
  have hc : c = ⟨longerFirstTree, []⟩ := compose_longerFirst
  rw [hc]
  refine ⟨longerFirst_resolves, rfl, _, List.mem_cons_self, _, List.mem_cons_self, ?_⟩
  decide +kernel

end SourceTree

end LineAtlas
