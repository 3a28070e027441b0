import LineAtlas.Proofs.Tree.LocalFunctions
import LineAtlas.Tree.Placement

/-!
# Which pass finds which fault

Units are added, and then classes are placed in four passes. The wording of a failure tells the
pass that noted it, since no two passes find the same fault and the wordings of faults begin
differently.
-/

namespace LineAtlas

/-- A pass over the units of a source file. -/
inductive PlacementPass where
  /-- Adding units with their functions. -/
  | adding
  /-- Placing the holders of interface bodies. -/
  | holders
  /-- Placing local classes. -/
  | locals
  /-- Placing nested classes. -/
  | nested
  /-- Placing companion objects. -/
  | companions
  deriving DecidableEq

namespace PlacementFault

/-- The pass that finds a fault. Local functions are placed when functions are added. -/
def pass : PlacementFault → PlacementPass
  | .duplicate _ | .noOuterFunction _ => .adding
  | .interfaceNotFound _ => .holders
  | .outerClassNotFound _ | .noInitializer _ | .outerMethodNotFound _ _ => .locals
  | .parentNotFound _ => .nested
  | .companionNotFound _ | .strayForwarders _ => .companions

/-- How the wording of a fault begins. -/
def opening : PlacementFault → String
  | .duplicate _ => "duplicate class in "
  | .noOuterFunction _ => "no outer function for local "
  | .interfaceNotFound _ => "interface "
  | .outerClassNotFound _ => "outer class "
  | .noInitializer _ => "no initializer in "
  | .outerMethodNotFound _ _ => "outer method "
  | .parentNotFound _ => "parent class "
  | .companionNotFound _ => "companion "
  | .strayForwarders _ => "static methods "

/-- All beginnings of wordings. -/
def openings : List String :=
  ["duplicate class in ", "no outer function for local ", "interface ", "outer class ",
    "no initializer in ", "outer method ", "parent class ", "companion ", "static methods "]

/-- Every beginning is in the list of all of them. -/
theorem opening_mem (fault : PlacementFault) : fault.opening ∈ openings := by
  cases fault <;> simp [opening, openings]

/-- The wording of a fault begins as those of its kind do. -/
theorem exists_message_eq (fault : PlacementFault) :
    ∃ rest, fault.message = fault.opening ++ rest := by
  cases fault with
  | duplicate path => exact ⟨path, rfl⟩
  | noOuterFunction s => exact ⟨s.display, rfl⟩
  | interfaceNotFound name => exact ⟨name ++ " not found", String.append_assoc⟩
  | outerClassNotFound name => exact ⟨name ++ " not found", String.append_assoc⟩
  | noInitializer owner => exact ⟨owner, rfl⟩
  | outerMethodNotFound s owner =>
    refine ⟨s.display ++ " not found in " ++ owner, ?_⟩
    rw [← String.append_assoc, ← String.append_assoc]
    rfl
  | parentNotFound name => exact ⟨name.display ++ " not found", String.append_assoc⟩
  | companionNotFound name => exact ⟨name.display ++ " not found", String.append_assoc⟩
  | strayForwarders signatures =>
    exact ⟨", ".intercalate (signatures.map Signature.display) ++ " match no companion member",
      String.append_assoc⟩

/-- Eight characters of the wording tell how it begins. -/
theorem opening_eq_of_message_eq {fault other : PlacementFault}
    (hmessage : fault.message = other.message) : fault.opening = other.opening := by
  have htells : ∀ a ∈ openings, 8 ≤ a.toList.length ∧
      ∀ b ∈ openings, a.toList.take 8 = b.toList.take 8 → a = b := by
    decide +kernel
  obtain ⟨rest, hrest⟩ := exists_message_eq fault
  obtain ⟨rest', hrest'⟩ := exists_message_eq other
  have hstart := congrArg (fun text => text.toList.take 8) hmessage
  simp only [hrest, hrest', String.toList_append] at hstart
  rw [List.take_append_of_le_length (htells _ fault.opening_mem).1,
    List.take_append_of_le_length (htells _ other.opening_mem).1] at hstart
  exact (htells _ fault.opening_mem).2 _ other.opening_mem hstart

/-- The wording of a fault tells the pass that found it. -/
theorem pass_eq_of_message_eq {fault other : PlacementFault}
    (hmessage : fault.message = other.message) : fault.pass = other.pass := by
  have hopening := opening_eq_of_message_eq hmessage
  cases fault <;> cases other <;> first | rfl | exact absurd hopening (by simp [opening])

end PlacementFault

namespace Draft

/-- A draft follows from another one by steps that note only faults of a kind. -/
def Noted (P : PlacementFault → Prop) (d d' : Draft) : Prop :=
  ∃ noted, d'.failures = d.failures ++ noted ∧
    ∀ e ∈ noted, ∃ name fault, P fault ∧ e.failure = .composition name fault.message

/-- All that a step notes are faults of a kind. -/
def Notes {α : Type} (P : PlacementFault → Prop) (step : Drafting α) : Prop :=
  ∀ d, Noted P d (step d).2

section Notes

variable {α β : Type} {P Q : PlacementFault → Prop} {d d' d'' : Draft}

/-- Where no failure is added, none of another kind is. -/
theorem Noted.of_eq (h : d'.failures = d.failures) : Noted P d d' :=
  ⟨[], by rw [h, List.append_nil], by simp⟩

/-- Steps that follow one another note only faults of the kind when both do. -/
theorem Noted.trans (h : Noted P d d') (h' : Noted P d' d'') : Noted P d d'' := by
  obtain ⟨noted, hnoted, hfaults⟩ := h
  obtain ⟨noted', hnoted', hfaults'⟩ := h'
  refine ⟨noted ++ noted', by rw [hnoted', hnoted, List.append_assoc], fun e he => ?_⟩
  exact (List.mem_append.mp he).elim (hfaults e) (hfaults' e)

/-- Faults of a kind are also of a wider one. -/
theorem Noted.mono (h : Noted P d d') (himp : ∀ fault, P fault → Q fault) : Noted Q d d' := by
  obtain ⟨noted, hnoted, hfaults⟩ := h
  refine ⟨noted, hnoted, fun e he => ?_⟩
  obtain ⟨name, fault, hfault, hfailure⟩ := hfaults e he
  exact ⟨name, fault, himp fault hfault, hfailure⟩

/-- A step that leaves the failures as they are. -/
theorem notes_of_eq {step : Drafting α} (h : ∀ d, (step d).2.failures = d.failures) :
    Notes P step := fun d => .of_eq (h d)

/-- Giving a value notes nothing. -/
theorem notes_pure (a : α) : Notes P (pure a : Drafting α) := notes_of_eq fun _ => rfl

/-- Steps that follow one another note only faults of the kind when both do. -/
theorem Notes.bind {step : Drafting α} {next : α → Drafting β} (h : Notes P step)
    (hnext : ∀ a, Notes P (next a)) : Notes P (step >>= next) :=
  fun d => (h d).trans (hnext (step d).1 (step d).2)

/-- A step that looks at the draft. -/
theorem notes_get {next : Draft → Drafting β} (hnext : ∀ d, Notes P (next d)) :
    Notes P (get >>= next) := fun d => hnext d d

/-- A step that notes faults of a kind notes faults of a wider one. -/
theorem Notes.mono {step : Drafting α} (h : Notes P step) (himp : ∀ fault, P fault → Q fault) :
    Notes Q step := fun d => (h d).mono himp

/-- A step that is done for each item notes what it does for one. -/
theorem notes_mapM {step : α → Drafting β} (h : ∀ a, Notes P (step a)) (items : List α) :
    Notes P (items.mapM step) := by
  induction items with
  | nil => exact notes_pure _
  | cons a rest ih =>
    rw [List.mapM_cons]
    exact (h a).bind fun _ => ih.bind fun _ => notes_pure _

/-- A step that is done for each item notes what it does for those there are. -/
theorem notes_forM {step : α → Drafting Unit} {items : List α}
    (h : ∀ a ∈ items, Notes P (step a)) : Notes P (items.forM step) := by
  induction items with
  | nil => exact notes_pure _
  | cons a rest ih =>
    exact (h a List.mem_cons_self).bind fun _ => ih fun b hb => h b (List.mem_cons_of_mem a hb)

/-- Reporting a fault notes that fault. -/
theorem notes_report (file name : String) {fault : PlacementFault} (h : P fault) :
    Notes P (report file name fault) := fun _ =>
  ⟨[⟨file, some name, .composition name fault.message⟩], rfl,
    fun e he => ⟨name, fault, h, by rw [List.mem_singleton.mp he]⟩⟩

/-- Failing a class notes the fault of the class. -/
theorem notes_fail (id : ClassId) {fault : PlacementFault} (h : P fault) :
    Notes P (fail id fault) := by
  refine (notes_of_eq fun _ => rfl).bind fun _ => notes_get fun d => ?_
  split
  · exact notes_pure _
  · exact notes_report _ _ h

end Notes

section Adding

variable {P : PlacementFault → Prop}

/-- Adding a function notes nothing. -/
theorem notes_addFunction (node : FunctionNode) : Notes P (addFunction node) :=
  notes_of_eq fun _ => rfl

/-- Changing a function notes nothing. -/
theorem notes_modifyFunction (id : FunctionId) (change : FunctionNode → FunctionNode) :
    Notes P (modifyFunction id change) := notes_of_eq fun _ => rfl

/-- Changing the slots of a class notes nothing. -/
theorem notes_modifyNamed (id : ClassId) (change : NamedShape → NamedShape) :
    Notes P (modifyNamed id change) := notes_of_eq fun _ => rfl

/-- Adding a function without a name notes nothing. -/
theorem notes_addAnonymous? (body : Option Body) : Notes P (addAnonymous? body) := by
  cases body with
  | none => exact notes_pure _
  | some body => exact notes_of_eq fun _ => rfl

/-- Adding a function with its helper notes nothing. -/
theorem notes_addBound (f : BoundFunction) : Notes P (addBound f) :=
  (notes_addAnonymous? _).bind fun _ => notes_addFunction _

/-- Adding a property with its accessors notes nothing. -/
theorem notes_addProperty (p : BoundProperty) : Notes P (addProperty p) :=
  (notes_addAnonymous? _).bind fun _ => (notes_addAnonymous? _).bind fun _ => notes_pure _

/-- Adding an initializer notes nothing. -/
theorem notes_addInitializer (init : Option Body) (shape : ClassShape) :
    Notes P (addInitializer init shape) := by
  cases shape with
  | facade old => exact (notes_addAnonymous? init).bind fun _ => notes_pure _
  | named shape => exact notes_pure _
  | localClass kind origin => exact notes_pure _
  | defaultImpls => exact notes_pure _

/-- Placing local functions notes nothing; it gives back the one that has no place. -/
theorem notes_placeEach (keys : LocalKeys) (locals : List Body) :
    Notes P (placeEach keys locals) := by
  induction locals generalizing keys with
  | nil => exact notes_pure _
  | cons body rest ih =>
    refine notes_get fun d => ?_
    split
    · exact notes_pure _
    · refine (notes_addFunction _).bind fun id => (notes_modifyFunction _ _).bind fun _ =>
        (ih _).bind fun placed => ?_
      split <;> exact notes_pure _

/-- Attaching a helper notes nothing. -/
theorem notes_attachDefaultValues (id : FunctionId) : Notes P (attachDefaultValues id) := by
  refine notes_get fun d => ?_
  dsimp only
  split
  · split
    · exact (notes_modifyFunction _ _).bind fun _ => notes_modifyFunction _ _
    · exact notes_pure _
  · exact notes_pure _

/-- Placing local functions and attaching their helpers notes nothing. -/
theorem notes_placeLocals (keys : LocalKeys) (locals : List Body) :
    Notes P (placeLocals keys locals) := by
  refine (notes_placeEach _ _).bind fun placed => ?_
  split
  · exact notes_pure _
  · exact (notes_forM fun id _ => notes_attachDefaultValues id).bind fun _ => notes_pure _

/-- Adding a class finds at most a local function that is below no function. -/
theorem notes_addPlaced (node : ClassNode) (source : ClassSource) (keys : LocalKeys)
    (locals : List Body) : Notes (·.pass = .adding) (addPlaced node source keys locals) := by
  refine (notes_placeLocals _ _).bind fun unplaced => (notes_of_eq fun _ => rfl).bind fun id => ?_
  cases unplaced with
  | none => exact (notes_pure _).bind fun _ => notes_pure _
  | some signature =>
    refine Notes.bind ?_ fun _ => notes_pure _
    exact notes_fail _ rfl

/-- Adding a class with its members notes only that a local function has no place. -/
theorem notes_addClassWith (file jvmName : String) (shape : ClassShape) (m : Members) :
    Notes (·.pass = .adding) (addClassWith file jvmName shape m) :=
  (notes_mapM notes_addBound _).bind fun _ => (notes_mapM notes_addBound _).bind fun _ =>
    (notes_mapM notes_addProperty _).bind fun _ => (notes_addInitializer _ _).bind fun _ =>
    notes_addPlaced _ _ _ _

/-- Adding a unit notes only faults of adding. -/
theorem notes_addUnit (file : String) (u : ResolvedUnit) :
    Notes (·.pass = .adding) (addUnit file u) := by
  cases u with
  | classUnit u => exact (notes_addClassWith _ _ _ _).bind fun _ => notes_of_eq fun _ => rfl
  | localClass u => exact (notes_addClassWith _ _ _ _).bind fun _ => notes_of_eq fun _ => rfl
  | facade u => exact (notes_addClassWith _ _ _ _).bind fun _ => notes_of_eq fun _ => rfl
  | defaultImpls u => exact notes_of_eq fun _ => rfl
  | opaqueUnit => exact notes_pure _
  | foreign => exact notes_pure _

/-- Adding a unit finds faults of its pass. -/
theorem notes_add (file : String) (u : ResolvedUnit) : Notes (·.pass = .adding) (add file u) := by
  intro d
  rw [add, bind_apply, get_apply]
  dsimp only
  cases u.jvmName? with
  | none => exact notes_addUnit file u d
  | some name =>
    dsimp only
    split
    · exact (notes_report file name rfl : Notes (·.pass = .adding) _) d
    · exact notes_addUnit file u { d with names := d.names ++ [name] }

end Adding

section Holders

variable {P : PlacementFault → Prop}

/-- Adding the body of a function notes nothing. -/
theorem notes_addFunctionBody (interfaceName : String) (f : FunctionNode) (bodies : List Body) :
    Notes P (addFunctionBody interfaceName f bodies) := by
  unfold addFunctionBody
  dsimp only
  split
  · exact notes_pure _
  · refine (notes_addFunction _).bind fun id => ?_
    split
    · exact notes_pure _
    · exact (notes_addFunction _).bind fun _ => (notes_modifyFunction _ _).bind fun _ =>
        notes_pure _

/-- Adding the bodies of functions notes nothing. -/
theorem notes_addFunctionBodies (interfaceName : String) (functions : List FunctionNode)
    (bodies : List Body) : Notes P (addFunctionBodies interfaceName functions bodies) := by
  induction functions generalizing bodies with
  | nil => exact notes_pure _
  | cons f rest ih =>
    exact (notes_addFunctionBody _ _ _).bind fun _ => (ih _).bind fun _ => notes_pure _

/-- Adding the body of an accessor notes nothing. -/
theorem notes_addAccessorBody (interfaceName : String) (accessor : Option FunctionId)
    (bodies : List Body) : Notes P (addAccessorBody interfaceName accessor bodies) := by
  refine notes_get fun d => ?_
  split
  · exact notes_pure _
  · split
    · exact notes_pure _
    · exact (notes_addFunction _).bind fun _ => notes_pure _

/-- Adding the bodies of accessors notes nothing. -/
theorem notes_addPropertyBodies (interfaceName : String) (properties : List PropertyNode)
    (bodies : List Body) : Notes P (addPropertyBodies interfaceName properties bodies) := by
  induction properties generalizing bodies with
  | nil => exact notes_pure _
  | cons p rest ih =>
    exact (notes_addAccessorBody _ _ _).bind fun _ => (notes_addAccessorBody _ _ _).bind fun _ =>
      (ih _).bind fun _ => notes_pure _

/-- Placing a holder finds a missing interface, or a local function that is below no function. -/
theorem notes_placeHolder (file : String) (u : DefaultImplsUnit) :
    Notes (fun fault => fault.pass = .adding ∨ fault.pass = .holders) (placeHolder file u) := by
  refine notes_get fun d => ?_
  dsimp only
  split
  · refine Notes.bind ?_ fun _ => notes_modifyNamed _ _
    refine notes_get fun d => (notes_addFunctionBodies _ _ _).bind fun _ =>
      (notes_addPropertyBodies _ _ _).bind fun _ => ?_
    exact (notes_mapM (fun _ => notes_addFunction _) _).bind fun _ =>
      (notes_addPlaced _ _ _ _).mono fun _ => Or.inl
  · exact notes_report _ _ (Or.inr rfl)

/-- Placing holders notes only that interfaces are missing, or faults of adding the holders. -/
theorem notes_placeHolders :
    Notes (fun fault => fault.pass = .adding ∨ fault.pass = .holders) placeHolders :=
  notes_get fun _ => notes_forM fun holder _ => notes_placeHolder holder.1 holder.2

end Holders

/-- Placing a local class finds faults of the pass for local classes. -/
theorem notes_attachLocalClass (owner : ClassNode) (id : ClassId) :
    Notes (·.pass = .locals) (attachLocalClass owner id) := by
  refine notes_get fun d => ?_
  split
  · split
    · exact notes_modifyFunction _ _
    · exact notes_fail _ rfl
  · split
    · exact notes_modifyFunction _ _
    · exact notes_fail _ rfl

/-- Placing local classes notes only their own faults. -/
theorem notes_placeLocalClasses : Notes (·.pass = .locals) placeLocalClasses :=
  notes_get fun _ =>
    (notes_forM fun owner _ => notes_forM fun id _ => notes_attachLocalClass owner id).bind
      fun _ => notes_forM fun _ _ => notes_forM fun _ _ => notes_fail _ rfl

/-- Placing a class with a name of its own finds faults of the pass for nested classes. -/
theorem notes_placeNestedClass (id : ClassId) :
    Notes (·.pass = .nested) (placeNestedClass id) := by
  intro d
  rw [placeNestedClass, bind_apply, get_apply]
  dsimp only
  cases d.declaredName? id with
  | none => exact notes_pure _ d
  | some name =>
    dsimp only
    cases name.parent? with
    | none => exact .of_eq rfl
    | some parent =>
      dsimp only
      cases d.withDeclaredName? parent with
      | some o => exact notes_modifyNamed _ _ d
      | none => exact (notes_fail id rfl : Notes (·.pass = .nested) _) d

/-- Placing nested classes notes only their own faults. -/
theorem notes_placeNestedClasses : Notes (·.pass = .nested) placeNestedClasses :=
  notes_get fun _ => notes_forM fun id _ => notes_placeNestedClass id

/-- Placing a companion object finds faults of the pass for companion objects. -/
theorem notes_placeCompanion (policy : AccountingPolicy) (id : ClassId) :
    Notes (·.pass = .companions) (placeCompanion policy id) := by
  have hcheck (companion : ClassId) :
      Notes (·.pass = .companions) (checkForwarders policy id companion) := by
    refine notes_get fun d => ?_
    split
    · exact notes_fail _ rfl
    · exact notes_pure _
  refine notes_get fun d => ?_
  split
  · split
    · exact notes_pure _
    · dsimp only
      split
      · exact (notes_modifyNamed _ _).bind fun _ => hcheck _
      · exact notes_fail _ rfl
  · exact notes_pure _

/-- Placing companions notes only their own faults. -/
theorem notes_placeCompanions (policy : AccountingPolicy) :
    Notes (·.pass = .companions) (placeCompanions policy) :=
  notes_get fun _ => notes_forM fun id _ => notes_placeCompanion policy id

end Draft

end LineAtlas
