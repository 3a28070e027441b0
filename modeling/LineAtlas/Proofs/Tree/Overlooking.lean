import LineAtlas.Proofs.Tree.LocalFunctions
import LineAtlas.Tree.Placement

/-!
# Failures do not matter to what follows

No step looks at the failures that were noted before it. So failures that are put in front of
those of a draft stay in front, and the step does the same to all the rest.
-/

namespace LineAtlas.Draft

/-- A draft with failures in front of its own. -/
def behind (noted : List ClassFailure) (d : Draft) : Draft :=
  { d with failures := noted ++ d.failures }

/-- A draft with other failures. -/
def withFailures (noted : List ClassFailure) (d : Draft) : Draft :=
  { d with failures := noted }

/-- A step that does not look at the failures of its draft. -/
def Overlooks {α : Type} (step : Drafting α) : Prop :=
  ∀ noted d, step (d.behind noted) = ((step d).1, (step d).2.behind noted)

section Overlooks

variable {α β : Type}

/-- Giving a value does not look at failures. -/
theorem overlooks_pure (a : α) : Overlooks (pure a : Drafting α) := fun _ _ => rfl

/-- Steps that follow one another do not look at failures when neither does. -/
theorem Overlooks.bind {step : Drafting α} {next : α → Drafting β} (h : Overlooks step)
    (hnext : ∀ a, Overlooks (next a)) : Overlooks (step >>= next) := fun noted d => by
  rw [bind_apply, h noted d]
  exact hnext _ noted _

/-- A step that looks at a draft, but not at its failures. -/
theorem overlooks_get {next : Draft → Drafting β}
    (hsame : ∀ noted d, next (d.behind noted) = next d) (hnext : ∀ d, Overlooks (next d)) :
    Overlooks (get >>= next) := fun noted d => by
  rw [bind_apply, get_apply]
  dsimp only
  rw [hsame]
  exact hnext d noted d

/-- A step that is done for each item looks at failures no more than for one. -/
theorem overlooks_mapM {step : α → Drafting β} (h : ∀ a, Overlooks (step a)) (items : List α) :
    Overlooks (items.mapM step) := by
  induction items with
  | nil => exact overlooks_pure _
  | cons a rest ih =>
    rw [List.mapM_cons]
    exact (h a).bind fun _ => ih.bind fun _ => overlooks_pure _

/-- A step that is done for each item looks at failures no more than for one. -/
theorem overlooks_forM {step : α → Drafting Unit} (h : ∀ a, Overlooks (step a)) (items : List α) :
    Overlooks (items.forM step) := by
  induction items with
  | nil => exact overlooks_pure _
  | cons a rest ih => exact (h a).bind fun _ => ih

/-- What a step adds to the failures does not depend on them, nor does anything else. -/
theorem Overlooks.exists_noted {step : Drafting α} (h : Overlooks step) (d : Draft) :
    ∃ new, (step d).2.failures = d.failures ++ new ∧ ∀ noted,
      step (d.withFailures noted) = ((step d).1, (step d).2.withFailures (noted ++ new)) := by
  have hbehind (noted : List ClassFailure) :
      d.withFailures noted = (d.withFailures []).behind noted :=
    congrArg d.withFailures (List.append_nil noted).symm
  have hown := h d.failures (d.withFailures [])
  rw [← hbehind] at hown
  refine ⟨(step (d.withFailures [])).2.failures, ?_, fun noted => ?_⟩
  · exact congrArg (fun run => run.2.failures) hown
  · rw [hbehind, h]
    exact congrArg (fun run => (run.1, run.2.withFailures
      (noted ++ (step (d.withFailures [])).2.failures))) hown.symm

end Overlooks

/-- Reporting a fault does not look at failures. -/
theorem overlooks_report (file name : String) (fault : PlacementFault) :
    Overlooks (report file name fault) := fun noted d => by
  have hreport : report file name fault (d.behind noted)
      = ((), { d with failures := (noted ++ d.failures)
          ++ [⟨file, some name, .composition name fault.message⟩] }) := rfl
  rw [hreport, List.append_assoc]
  rfl

/-- Adding a function does not look at failures. -/
theorem overlooks_addFunction (node : FunctionNode) : Overlooks (addFunction node) :=
  fun _ _ => rfl

/-- Changing a function does not look at failures. -/
theorem overlooks_modifyFunction (id : FunctionId) (change : FunctionNode → FunctionNode) :
    Overlooks (modifyFunction id change) := fun _ _ => rfl

/-- Changing the slots of a class does not look at failures. -/
theorem overlooks_modifyNamed (id : ClassId) (change : NamedShape → NamedShape) :
    Overlooks (modifyNamed id change) := fun _ _ => rfl

/-- Failing a class does not look at other failures. -/
theorem overlooks_fail (id : ClassId) (fault : PlacementFault) : Overlooks (fail id fault) := by
  refine Overlooks.bind (fun _ _ => rfl) fun _ => overlooks_get (fun _ _ => rfl) fun d => ?_
  split
  · exact overlooks_pure _
  · exact overlooks_report _ _ _

section Adding

/-- Adding a function without a name does not look at failures. -/
theorem overlooks_addAnonymous? (body : Option Body) : Overlooks (addAnonymous? body) := by
  cases body with
  | none => exact overlooks_pure _
  | some body => exact fun _ _ => rfl

/-- Adding a function with its helper does not look at failures. -/
theorem overlooks_addBound (f : BoundFunction) : Overlooks (addBound f) :=
  (overlooks_addAnonymous? _).bind fun _ => overlooks_addFunction _

/-- Adding a property does not look at failures. -/
theorem overlooks_addProperty (p : BoundProperty) : Overlooks (addProperty p) :=
  (overlooks_addAnonymous? _).bind fun _ => (overlooks_addAnonymous? _).bind fun _ =>
    overlooks_pure _

/-- Adding an initializer does not look at failures. -/
theorem overlooks_addInitializer (init : Option Body) (shape : ClassShape) :
    Overlooks (addInitializer init shape) := by
  cases shape with
  | facade old => exact (overlooks_addAnonymous? init).bind fun _ => overlooks_pure _
  | named shape => exact overlooks_pure _
  | localClass kind origin => exact overlooks_pure _
  | defaultImpls => exact overlooks_pure _

/-- Placing local functions does not look at failures. -/
theorem overlooks_placeEach (keys : LocalKeys) (locals : List Body) :
    Overlooks (placeEach keys locals) := by
  induction locals generalizing keys with
  | nil => exact overlooks_pure _
  | cons body rest ih =>
    refine overlooks_get (fun _ _ => rfl) fun d => ?_
    split
    · exact overlooks_pure _
    · refine (overlooks_addFunction _).bind fun id => (overlooks_modifyFunction _ _).bind fun _ =>
        (ih _).bind fun placed => ?_
      split <;> exact overlooks_pure _

/-- Attaching a helper does not look at failures. -/
theorem overlooks_attachDefaultValues (id : FunctionId) : Overlooks (attachDefaultValues id) := by
  refine overlooks_get (fun _ _ => rfl) fun d => ?_
  dsimp only
  split
  · split
    · exact (overlooks_modifyFunction _ _).bind fun _ => overlooks_modifyFunction _ _
    · exact overlooks_pure _
  · exact overlooks_pure _

/-- Placing local functions with their helpers does not look at failures. -/
theorem overlooks_placeLocals (keys : LocalKeys) (locals : List Body) :
    Overlooks (placeLocals keys locals) := by
  refine (overlooks_placeEach _ _).bind fun placed => ?_
  split
  · exact overlooks_pure _
  · exact (overlooks_forM overlooks_attachDefaultValues _).bind fun _ => overlooks_pure _

/-- Adding a class with its local functions does not look at failures. -/
theorem overlooks_addPlaced (node : ClassNode) (source : ClassSource) (keys : LocalKeys)
    (locals : List Body) : Overlooks (addPlaced node source keys locals) := by
  refine (overlooks_placeLocals _ _).bind fun unplaced =>
    Overlooks.bind (fun _ _ => rfl) fun id => ?_
  cases unplaced with
  | none => exact (overlooks_pure _).bind fun _ => overlooks_pure _
  | some signature => exact (overlooks_fail _ _).bind fun _ => overlooks_pure _

/-- Adding a class with its members does not look at failures. -/
theorem overlooks_addClassWith (file jvmName : String) (shape : ClassShape) (m : Members) :
    Overlooks (addClassWith file jvmName shape m) :=
  (overlooks_mapM overlooks_addBound _).bind fun _ =>
    (overlooks_mapM overlooks_addBound _).bind fun _ =>
    (overlooks_mapM overlooks_addProperty _).bind fun _ =>
    (overlooks_addInitializer _ _).bind fun _ => overlooks_addPlaced _ _ _ _

/-- Adding a unit does not look at failures. -/
theorem overlooks_addUnit (file : String) (u : ResolvedUnit) : Overlooks (addUnit file u) := by
  cases u with
  | classUnit u => exact (overlooks_addClassWith _ _ _ _).bind fun _ _ _ => rfl
  | localClass u => exact (overlooks_addClassWith _ _ _ _).bind fun _ _ _ => rfl
  | facade u => exact (overlooks_addClassWith _ _ _ _).bind fun _ _ _ => rfl
  | defaultImpls u => exact fun _ _ => rfl
  | opaqueUnit => exact overlooks_pure _
  | foreign => exact overlooks_pure _

/-- Whether a unit is rejected depends on the names in the draft only. -/
theorem overlooks_add (file : String) (u : ResolvedUnit) : Overlooks (add file u) := by
  intro noted d
  rw [add, bind_apply, bind_apply, get_apply, get_apply]
  dsimp only
  cases u.jvmName? with
  | none => exact overlooks_addUnit file u noted d
  | some name =>
    have hnames : (d.behind noted).names.contains name = d.names.contains name := rfl
    dsimp only
    rw [hnames]
    split
    · exact overlooks_report file name _ noted d
    · exact overlooks_addUnit file u noted { d with names := d.names ++ [name] }

end Adding

section Holders

/-- Adding the body of a function does not look at failures. -/
theorem overlooks_addFunctionBody (interfaceName : String) (f : FunctionNode)
    (bodies : List Body) : Overlooks (addFunctionBody interfaceName f bodies) := by
  unfold addFunctionBody
  dsimp only
  split
  · exact overlooks_pure _
  · refine (overlooks_addFunction _).bind fun id => ?_
    split
    · exact overlooks_pure _
    · exact (overlooks_addFunction _).bind fun _ => (overlooks_modifyFunction _ _).bind fun _ =>
        overlooks_pure _

/-- Adding the bodies of functions does not look at failures. -/
theorem overlooks_addFunctionBodies (interfaceName : String) (functions : List FunctionNode)
    (bodies : List Body) : Overlooks (addFunctionBodies interfaceName functions bodies) := by
  induction functions generalizing bodies with
  | nil => exact overlooks_pure _
  | cons f rest ih =>
    exact (overlooks_addFunctionBody _ _ _).bind fun _ => (ih _).bind fun _ => overlooks_pure _

/-- Adding the body of an accessor does not look at failures. -/
theorem overlooks_addAccessorBody (interfaceName : String) (accessor : Option FunctionId)
    (bodies : List Body) : Overlooks (addAccessorBody interfaceName accessor bodies) := by
  refine overlooks_get (fun _ _ => rfl) fun d => ?_
  split
  · exact overlooks_pure _
  · split
    · exact overlooks_pure _
    · exact (overlooks_addFunction _).bind fun _ => overlooks_pure _

/-- Adding the bodies of accessors does not look at failures. -/
theorem overlooks_addPropertyBodies (interfaceName : String) (properties : List PropertyNode)
    (bodies : List Body) : Overlooks (addPropertyBodies interfaceName properties bodies) := by
  induction properties generalizing bodies with
  | nil => exact overlooks_pure _
  | cons p rest ih =>
    exact (overlooks_addAccessorBody _ _ _).bind fun _ =>
      (overlooks_addAccessorBody _ _ _).bind fun _ => (ih _).bind fun _ => overlooks_pure _

/-- Adding a holder does not look at failures. -/
theorem overlooks_addHolder (file : String) (u : DefaultImplsUnit) (interface : ClassNode) :
    Overlooks (addHolder file u interface) := by
  refine overlooks_get (fun _ _ => rfl) fun d => (overlooks_addFunctionBodies _ _ _).bind fun _ =>
    (overlooks_addPropertyBodies _ _ _).bind fun _ => ?_
  exact (overlooks_mapM (fun _ => overlooks_addFunction _) _).bind fun _ =>
    overlooks_addPlaced _ _ _ _

/-- Placing a holder does not look at failures. -/
theorem overlooks_placeHolder (file : String) (u : DefaultImplsUnit) :
    Overlooks (placeHolder file u) := by
  refine overlooks_get (fun _ _ => rfl) fun d => ?_
  dsimp only
  split
  · exact (overlooks_addHolder _ _ _).bind fun _ => overlooks_modifyNamed _ _
  · exact overlooks_report _ _ _

/-- Placing all holders does not look at failures. -/
theorem overlooks_placeHolders : Overlooks placeHolders :=
  overlooks_get (fun _ _ => rfl) fun _ =>
    overlooks_forM (fun holder : String × DefaultImplsUnit =>
      overlooks_placeHolder holder.1 holder.2) _

end Holders

section Placing

/-- Attaching a local class does not look at failures. -/
theorem overlooks_attachLocalClass (owner : ClassNode) (id : ClassId) :
    Overlooks (attachLocalClass owner id) := by
  refine overlooks_get (fun _ _ => rfl) fun d => ?_
  split
  · split
    · exact overlooks_modifyFunction _ _
    · exact overlooks_fail _ _
  · split
    · exact overlooks_modifyFunction _ _
    · exact overlooks_fail _ _

/-- Placing all local classes does not look at failures. -/
theorem overlooks_placeLocalClasses : Overlooks placeLocalClasses :=
  overlooks_get (fun _ _ => rfl) fun _ =>
    (overlooks_forM (fun owner => overlooks_forM (overlooks_attachLocalClass owner) _) _).bind
      fun _ => overlooks_forM (fun _ => overlooks_forM (fun _ => overlooks_fail _ _) _) _

/-- Placing a nested class does not look at failures. -/
theorem overlooks_placeNestedClass (id : ClassId) : Overlooks (placeNestedClass id) := by
  intro noted d
  have hname : (d.behind noted).declaredName? id = d.declaredName? id := rfl
  rw [placeNestedClass, bind_apply, bind_apply, get_apply, get_apply]
  dsimp only
  rw [hname]
  cases d.declaredName? id with
  | none => rfl
  | some name =>
    dsimp only
    cases name.parent? with
    | none => rfl
    | some parent =>
      have hparent : (d.behind noted).withDeclaredName? parent = d.withDeclaredName? parent := rfl
      dsimp only
      rw [hparent]
      cases d.withDeclaredName? parent with
      | some o => rfl
      | none => exact overlooks_fail _ _ noted d

/-- Placing all nested classes does not look at failures. -/
theorem overlooks_placeNestedClasses : Overlooks placeNestedClasses :=
  overlooks_get (fun _ _ => rfl) fun _ => overlooks_forM overlooks_placeNestedClass _

/-- Checking forwarders does not look at failures. -/
theorem overlooks_checkForwarders (policy : AccountingPolicy) (id companion : ClassId) :
    Overlooks (checkForwarders policy id companion) := by
  refine overlooks_get (fun _ _ => rfl) fun d => ?_
  split
  · exact overlooks_fail _ _
  · exact overlooks_pure _

/-- Placing a companion does not look at failures. -/
theorem overlooks_placeCompanion (policy : AccountingPolicy) (id : ClassId) :
    Overlooks (placeCompanion policy id) := by
  refine overlooks_get (fun _ _ => rfl) fun d => ?_
  split
  · split
    · exact overlooks_pure _
    · dsimp only
      split
      · exact (overlooks_modifyNamed _ _).bind fun _ => overlooks_checkForwarders _ _ _
      · exact overlooks_fail _ _
  · exact overlooks_pure _

/-- Placing all companions does not look at failures. -/
theorem overlooks_placeCompanions (policy : AccountingPolicy) :
    Overlooks (placeCompanions policy) :=
  overlooks_get (fun _ _ => rfl) fun _ => overlooks_forM (overlooks_placeCompanion policy) _

/-- Placing everything that was added. -/
theorem overlooks_placeAll (policy : AccountingPolicy) : Overlooks (placeAll policy) :=
  overlooks_placeHolders.bind fun _ => overlooks_placeLocalClasses.bind fun _ =>
    overlooks_placeNestedClasses.bind fun _ => overlooks_placeCompanions policy

end Placing

end LineAtlas.Draft
