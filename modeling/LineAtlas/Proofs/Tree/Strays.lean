import LineAtlas.Proofs.Resolution.Locals
import LineAtlas.Proofs.Tree.Faults
import LineAtlas.Proofs.Tree.Holders
import LineAtlas.Proofs.Tree.Keeping

/-!
# No stray local functions

A local function is stray when it is below no function. What class files contribute has none,
into whatever draft it is put, and neither have holders. Placing classes finds fault with other
things only.
-/

namespace LineAtlas

namespace PlacementFault

/-- Whether a local function is below no function. -/
def isStray : PlacementFault → Bool
  | .noOuterFunction _ => true
  | _ => false

/-- Stray local functions are found when functions are added. -/
theorem isStray_eq_false {fault : PlacementFault} (h : fault.pass ≠ .adding) :
    fault.isStray = false := by
  cases fault <;> first | rfl | exact absurd rfl h

/-- The wording tells a stray local function from everything else. -/
theorem message_ne {fault : PlacementFault} (h : fault.isStray = false) (s : Signature) :
    fault.message ≠ (noOuterFunction s).message := by
  intro heq
  have hopening := opening_eq_of_message_eq heq
  cases fault <;> simp [opening, isStray] at hopening h

end PlacementFault

namespace Draft

/-- Nothing that goes wrong on the way from a draft to another one is about a stray local
function. -/
abbrev NotesNoStray (d d' : Draft) : Prop := Noted (·.isStray = false) d d'

/-- A step that is done for each item notes no stray local function when it does for none. -/
theorem forM_noStray {α : Type} {step : α → Drafting Unit} {items : List α}
    (hstep : ∀ a ∈ items, ∀ d, NotesNoStray d (step a d).2) (d : Draft) :
    NotesNoStray d (items.forM step d).2 := notes_forM hstep d

/-- No local function is left over in a step: it reports nothing, and no class that it adds has
failed. -/
structure LeavesNoStray (d d' : Draft) : Prop where
  /-- Nothing is reported. -/
  failures : d'.failures = d.failures
  /-- The classes that are added are live. -/
  classes : ∀ node ∈ d'.tree.classes.drop d.tree.classes.length, node.failed = false

/-- A step that adds neither failures nor classes leaves no local function over. -/
theorem LeavesNoStray.of_classes_eq {d d' : Draft} (hfailures : d'.failures = d.failures)
    (hclasses : d'.tree.classes = d.tree.classes) : LeavesNoStray d d' :=
  ⟨hfailures, by rw [hclasses, List.drop_length]; simp⟩

/-- A class that did not fail is added. -/
theorem leavesNoStray_withClass (d : Draft) (block : List FunctionNode) {node : ClassNode}
    (source : ClassSource) (hfailed : node.failed = false) :
    LeavesNoStray d (d.withClass block node source []) := by
  refine ⟨List.append_nil _, fun other hother => ?_⟩
  rw [show (d.withClass block node source []).tree.classes = d.tree.classes ++ [node] from rfl,
    List.drop_left] at hother
  rw [List.mem_singleton.mp hother, hfailed]

/-- Adding a unit whose local functions fit leaves none of them over. -/
theorem add_leavesNoStray {d : Draft} {u : ResolvedUnit} (file : String) (hfits : u.LocalsFit)
    (hnew : ∀ name ∈ u.jvmName?, name ∉ d.names) : LeavesNoStray d (add file u d).2 := by
  cases hname : u.jvmName? with
  | none =>
    rw [add_of_unnamed d file hname]
    exact .of_classes_eq rfl rfl
  | some name =>
    rw [add_of_new file hname (hnew name hname)]
    by_cases hholder : u.isHolder = true
    · obtain ⟨w, rfl⟩ := ResolvedUnit.isHolder_iff.mp hholder
      exact .of_classes_eq rfl rfl
    · obtain ⟨block, node, source, new, hadd, -, -, hfit⟩ :=
        addUnit_withUnit { d with names := d.names ++ [name] } file (u := u) (by
          cases u <;> simp_all [ResolvedUnit.isClass, ResolvedUnit.isLocal,
            ResolvedUnit.isFacade, ResolvedUnit.isHolder, ResolvedUnit.jvmName?])
      obtain ⟨hfailed, rfl⟩ := hfit hfits
      have hadded := leavesNoStray_withClass d block source hfailed
      rw [hadd]
      exact ⟨hadded.failures, hadded.classes⟩

/-- A holder whose interface is there leaves no local function over. -/
theorem placeHolder_leavesNoStray {d : Draft} (file : String) {u : DefaultImplsUnit}
    (hinterface : (d.namedWith? u.interfaceName).isSome = true) :
    LeavesNoStray d (placeHolder file u d).2 := by
  obtain ⟨o, ho⟩ := Option.isSome_iff_exists.mp hinterface
  obtain ⟨interface, hclass, -⟩ := exists_class_of_namedWith? ho
  obtain ⟨block, node, source, hadd, -, -, -, hfailed⟩ := addHolder_withClass d file u interface
  have hadded := leavesNoStray_withClass d block source hfailed
  have hlt : o < d.tree.classes.length := (List.getElem?_eq_some_iff.mp hclass).1
  rw [placeHolder_apply_of_some file ho hclass hadd, modifyNamed_apply]
  refine ⟨hadded.failures, fun other hother => ?_⟩
  change other ∈ ((d.tree.classes ++ [node]).modify o _).drop d.tree.classes.length at hother
  rw [Lists.modify_append_left hlt, List.drop_left' (List.length_modify _ _ _)] at hother
  rw [List.mem_singleton.mp hother, hfailed]

/-- Adding a unit whose local functions fit finds at most fault with its name. -/
theorem add_noStray (d : Draft) {u : ResolvedUnit} (file : String) (hfits : u.LocalsFit) :
    NotesNoStray d (add file u d).2 := by
  by_cases hnew : ∀ name ∈ u.jvmName?, name ∉ d.names
  · exact .of_eq (add_leavesNoStray file hfits hnew).failures
  · obtain ⟨name, hname, hmem⟩ : ∃ name ∈ u.jvmName?, name ∈ d.names := by
      simpa only [not_forall, not_not, exists_prop] using hnew
    rw [add_of_repeat file (Option.mem_def.mp hname) hmem]
    exact (notes_report file name rfl : Notes (·.isStray = false) _) d

/-- Placing a holder notes no stray local function. -/
theorem placeHolder_noStray (d : Draft) (file : String) (u : DefaultImplsUnit) :
    NotesNoStray d (placeHolder file u d).2 := by
  cases hfind : d.namedWith? u.interfaceName with
  | some o => exact .of_eq (placeHolder_leavesNoStray file (by rw [hfind]; rfl)).failures
  | none =>
    rw [placeHolder_apply_of_none file hfind]
    exact (notes_report file u.jvmName rfl : Notes (·.isStray = false) _) d

/-- Placing all holders notes no stray local function. -/
theorem placeHolders_noStray (d : Draft) : NotesNoStray d (placeHolders d).2 :=
  forM_noStray (fun holder _ d => placeHolder_noStray d holder.1 holder.2) d

/-- Placing classes finds no stray local functions. -/
theorem placeAll_noStray (policy : AccountingPolicy) (d : Draft) :
    NotesNoStray d (placeAll policy d).2 := by
  have hpass {pass : PlacementPass} {step : Drafting Unit} (hstep : Notes (·.pass = pass) step)
      (hlater : pass ≠ .adding) : Notes (·.isStray = false) step :=
    hstep.mono fun fault hfault => fault.isStray_eq_false (hfault ▸ hlater)
  exact Notes.bind placeHolders_noStray (fun _ =>
    (hpass notes_placeLocalClasses (by decide)).bind fun _ =>
    (hpass notes_placeNestedClasses (by decide)).bind fun _ =>
    hpass (notes_placeCompanions policy) (by decide)) d

end Draft

namespace SourceTree

open Draft

/-- Whether a unit is what some class file contributes whose metadata gives no function the name
of constructors. -/
def IsPlainlyResolved (u : ResolvedUnit) : Prop :=
  ∃ (file : ClassFile) (policy : AccountingPolicy) (ledger : Ledger),
    file.NamesFunctionsApart ∧ file.resolve policy = .ok ⟨u, ledger⟩

/-- The local functions that class files contribute fit. -/
theorem IsPlainlyResolved.localsFit {u : ResolvedUnit} (h : IsPlainlyResolved u) :
    u.LocalsFit := by
  obtain ⟨file, policy, ledger, hnames, hresolve⟩ := h
  exact ClassFile.resolve_localsFit hnames hresolve

/-- In a tree of units whose local functions fit, none of these is stray. -/
theorem compose_noStray (path : String) (policy : AccountingPolicy)
    {added : List (String × ResolvedUnit)} (hfits : ∀ entry ∈ added, entry.2.LocalsFit) :
    ∀ e ∈ (compose path policy added).failures, ∀ name s,
      e.failure ≠ .composition name (PlacementFault.noOuterFunction s).message := by
  intro e he name s
  have hadding : NotesNoStray (Draft.empty path)
      (added.forM (fun entry => add entry.1 entry.2) (Draft.empty path)).2 :=
    forM_noStray (fun entry hentry d => add_noStray d entry.1 (hfits entry hentry)) _
  obtain ⟨noted, hnoted, hfaults⟩ := hadding.trans (placeAll_noStray policy _)
  have hmem : e ∈ noted := by
    have hall : e ∈ (Draft.empty path).failures ++ noted := hnoted ▸ he
    simpa [Draft.empty] using hall
  obtain ⟨className, fault, hfault, hfailure⟩ := hfaults e hmem
  rw [hfailure]
  intro heq
  exact PlacementFault.message_ne hfault s (Failure.composition.inj heq).2

/-- What class files contribute has no stray local functions: not when it is added to any draft,
not when a holder meets its interface in any draft, and so not in any tree. -/
theorem compose_leavesNoStray (path : String) (policy : AccountingPolicy)
    {added : List (String × ResolvedUnit)}
    (hresolved : ∀ u ∈ added.map Prod.snd, IsPlainlyResolved u) :
    (∀ file u, (file, u) ∈ added → ∀ d : Draft, (∀ name ∈ u.jvmName?, name ∉ d.names) →
      LeavesNoStray d (add file u d).2) ∧
    (∀ file u, (file, .defaultImpls u) ∈ added → ∀ d : Draft,
      (d.namedWith? u.interfaceName).isSome = true → LeavesNoStray d (placeHolder file u d).2) ∧
    ∀ e ∈ (compose path policy added).failures, ∀ name s,
      e.failure ≠ .composition name (PlacementFault.noOuterFunction s).message := by
  have hfits : ∀ entry ∈ added, entry.2.LocalsFit := fun entry hentry =>
    (hresolved entry.2 (List.mem_map_of_mem hentry)).localsFit
  exact ⟨fun file u hu d hnew => add_leavesNoStray file (hfits _ hu) hnew,
    fun file u _ d hinterface => placeHolder_leavesNoStray file hinterface,
    compose_noStray path policy hfits⟩

/-- The holder of the bodies of an interface, with a body and a lambda in it. -/
def shapeHolder : ClassFile :=
  { name := "Shape$DefaultImpls", superName := none, interfaces := [], access := 0x11
    sourceFile := none, enclosing := none, fields := []
    methods := [⟨0x19, ⟨"area", "(LShape;)D"⟩, ⟨[4], List.pairwise_singleton _ _⟩⟩,
      ⟨0x1A, ⟨"area$lambda$0", "()D"⟩, ⟨[4], List.pairwise_singleton _ _⟩⟩]
    annotations := [⟨"Lkotlin/Metadata;", [("k", .int 3), ("mv", .array [.int 1, .int 9])]⟩] }

/-- An interface with a local function, and its holder. -/
theorem compose_leavesNoStray_shapeInterface :
    ∃ shape, (ClassFile.shapeInterface.resolve .strict).toOption.map (·.unit) = some shape ∧
    ∃ holder, shapeHolder.resolveDefaultImpls "Shape" = holder ∧
    let added := [("Shape.class", shape), ("Shape$DefaultImpls.class", holder.unit)]
    (∀ u ∈ added.map Prod.snd, IsPlainlyResolved u) ∧
    (∀ file u, (file, u) ∈ added → ∀ d : Draft, (∀ name ∈ u.jvmName?, name ∉ d.names) →
      LeavesNoStray d (add file u d).2) ∧
    (∀ file u, (file, .defaultImpls u) ∈ added → ∀ d : Draft,
      (d.namedWith? u.interfaceName).isSome = true → LeavesNoStray d (placeHolder file u d).2) ∧
    ∀ e ∈ (compose "Shape.kt" .strict added).failures, ∀ name s,
      e.failure ≠ .composition name (PlacementFault.noOuterFunction s).message := by
  have hsome : (ClassFile.shapeInterface.resolve .strict).toOption.isSome = true := by
    decide +kernel
  obtain ⟨r, hr⟩ := Option.isSome_iff_exists.mp hsome
  have hresolve : ClassFile.shapeInterface.resolve .strict = .ok ⟨r.unit, r.ledger⟩ := by
    cases h : ClassFile.shapeInterface.resolve .strict <;> simp_all [Except.toOption]
  have hshape : IsPlainlyResolved r.unit :=
    ⟨ClassFile.shapeInterface, .strict, r.ledger,
      ClassFile.namesFunctionsApart_of_all (by decide +kernel), hresolve⟩
  have hholder : IsPlainlyResolved (shapeHolder.resolveDefaultImpls "Shape").unit :=
    ⟨shapeHolder, .strict, (shapeHolder.resolveDefaultImpls "Shape").ledger,
      ClassFile.namesFunctionsApart_of_all (by decide +kernel), by decide +kernel⟩
  have hresolved : ∀ u ∈ [("Shape.class", r.unit), ("Shape$DefaultImpls.class",
      (shapeHolder.resolveDefaultImpls "Shape").unit)].map Prod.snd, IsPlainlyResolved u := by
    simpa using ⟨hshape, hholder⟩
  exact ⟨r.unit, by rw [hr]; rfl, _, rfl, hresolved,
    compose_leavesNoStray "Shape.kt" .strict hresolved⟩

end SourceTree

end LineAtlas
