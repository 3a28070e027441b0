import LineAtlas.Proofs.Resolution.Requests

/-!
# Members and their declarations

What a declaration became: a member with the declared name, bound to a method of the declared
signature. After all methods of declarations are taken, each function and then each constructor
takes the first method that is left and fits as its helper for default arguments.
-/

namespace LineAtlas

open Metadata (FunctionDecl ConstructorDecl PropertyDecl Parameter)

/-- A bound function is a declared one with a method of its signature. -/
structure BoundFunction.Binds (f : BoundFunction) (d : FunctionDecl) : Prop where
  /-- It has the declared name. -/
  name : f.name = d.name
  /-- Receivers and parameters are shown as they are declared. -/
  descriptor : f.descriptor = some d.render
  /-- It is listed among the functions. -/
  isFunction : f.isConstructor = false
  /-- The method has the declared signature. -/
  signature : d.signature = some f.body.signature

/-- A bound constructor is a declared one with a method of its signature. -/
structure BoundFunction.BindsConstructor (f : BoundFunction) (d : ConstructorDecl) : Prop where
  /-- It has the name of constructors. -/
  name : f.name = Signature.constructorName
  /-- It is listed among the constructors. -/
  isConstructor : f.isConstructor = true
  /-- The method has the declared signature. -/
  signature : d.signature = some f.body.signature

/-- A helper does not change what a function became. -/
theorem BoundFunction.Binds.withHelper {f : BoundFunction} {d : FunctionDecl} (h : f.Binds d)
    (helper : Option Body) : BoundFunction.Binds { f with defaultValues := helper } d :=
  ⟨h.name, h.descriptor, h.isFunction, h.signature⟩

/-- A helper does not change what a constructor became. -/
theorem BoundFunction.BindsConstructor.withHelper {f : BoundFunction} {d : ConstructorDecl}
    (h : f.BindsConstructor d) (helper : Option Body) :
    BoundFunction.BindsConstructor { f with defaultValues := helper } d :=
  ⟨h.name, h.isConstructor, h.signature⟩

/-- A bound property is a declared one, with methods for just those accessors that have a
signature, and of that signature. -/
structure BoundProperty.Binds (p : BoundProperty) (d : PropertyDecl) : Prop where
  /-- It has the declared name. -/
  name : p.name = d.name
  /-- It can be set if it is declared so. -/
  isVar : p.isVar = d.isVar
  /-- The getter has a body in the source if it is declared so. -/
  customGetter : p.customGetter = d.customGetter
  /-- The setter has a body in the source if it is declared so. -/
  customSetter : p.customSetter = d.customSetter
  /-- The getter's method has the declared signature. -/
  getter : p.getter.map Body.signature = d.getter
  /-- The setter's method has the declared signature. -/
  setter : p.setter.map Body.signature = d.setter

/-- A member of a unit with the value parameters of its declaration. -/
structure DeclaredMember where
  /-- The member. -/
  function : BoundFunction
  /-- Value parameters as they are declared. -/
  parameters : List Parameter

namespace DeclaredMember

/-- A member is what a function became. -/
def Binds (x : DeclaredMember) (d : FunctionDecl) : Prop :=
  x.function.Binds d ∧ x.parameters = d.parameters

/-- A member is what a constructor became. -/
def BindsConstructor (x : DeclaredMember) (d : ConstructorDecl) : Prop :=
  x.function.BindsConstructor d ∧ x.parameters = d.parameters

/-- Whether a method fits as the helper of a member. -/
def isHelper (x : DeclaredMember) (m : Method) : Bool :=
  Binding.Candidate.isHelper ⟨x.function, x.parameters.length⟩ m

/-- The methods that are left by members, each of which takes the first one that fits. -/
def leaveHelpers (left : List Method) (members : List DeclaredMember) : List Method :=
  members.foldl (fun left x => left.eraseP x.isHelper) left

/-- Each member has the first method as its helper that is left by those before it and fits. -/
def TakeHelpers : List Method → List DeclaredMember → Prop
  | _, [] => True
  | left, x :: rest =>
    x.function.defaultValues = (left.find? x.isHelper).map Method.body ∧
      TakeHelpers (left.eraseP x.isHelper) rest

/-- The members of two lists take helpers one after the other. -/
theorem takeHelpers_append {left : List Method} {one two : List DeclaredMember} :
    TakeHelpers left (one ++ two)
      ↔ TakeHelpers left one ∧ TakeHelpers (leaveHelpers left one) two := by
  induction one generalizing left with
  | nil => simp [TakeHelpers, leaveHelpers]
  | cons x rest ih =>
    rw [List.cons_append, TakeHelpers, TakeHelpers, ih, and_assoc]
    rfl

end DeclaredMember

namespace Binding

variable {file : ClassFile} {c c' : Claims}

/-- In a class that is no interface a declared member has a method, and its signature is the
declared one. -/
theorem declared_some {role : Role} {member : String} {signature : Option Signature}
    {found : Option Body} (hclass : file.isInterface = false)
    (h : declared file role member signature c = .ok (found, c')) :
    ∃ body, found = some body ∧ signature = some body.signature := by
  have hsome := (declared_isSome h).resolve_left (by simp [hclass])
  obtain ⟨body, rfl⟩ := Option.isSome_iff_exists.mp hsome
  exact ⟨body, rfl, declared_signature h⟩

/-- A candidate is what a function became. -/
def Candidate.Binds (candidate : Candidate) (d : FunctionDecl) : Prop :=
  candidate.function.Binds d ∧ candidate.parameters = d.parameters.length

/-- A candidate is what a constructor became. -/
def Candidate.BindsConstructor (candidate : Candidate) (d : ConstructorDecl) : Prop :=
  candidate.function.BindsConstructor d ∧ candidate.parameters = d.parameters.length

/-- What a function becomes has its name and a method of its signature. -/
theorem function_binds {d : FunctionDecl} {found : Option Candidate}
    (h : function file d c = .ok (found, c')) : ∀ candidate ∈ found, candidate.Binds d := by
  intro candidate hcandidate
  unfold function at h
  split at h
  · obtain ⟨body, c₁, hbody, h⟩ := bind_eq_ok h
    obtain ⟨rfl, -⟩ := Prod.mk.inj (pure_eq_ok h)
    obtain ⟨b, rfl, rfl⟩ := Option.map_eq_some_iff.mp hcandidate
    exact ⟨⟨rfl, rfl, rfl, declared_signature hbody⟩, rfl⟩
  · obtain ⟨taken, c₁, -, h⟩ := bind_eq_ok h
    obtain ⟨rfl, -⟩ := Prod.mk.inj (pure_eq_ok h)
    simp at hcandidate

/-- Just the declared functions become candidates. -/
theorem function_isSome {d : FunctionDecl} {found : Option Candidate}
    (hclass : file.isInterface = false) (h : function file d c = .ok (found, c')) :
    found.isSome = (d.kind == .declaration) := by
  unfold function at h
  split at h
  · next hkind =>
    obtain ⟨body, c₁, hbody, h⟩ := bind_eq_ok h
    obtain ⟨rfl, -⟩ := Prod.mk.inj (pure_eq_ok h)
    obtain ⟨b, rfl, -⟩ := declared_some hclass hbody
    rw [hkind]
    rfl
  · next hkind =>
    obtain ⟨taken, c₁, -, h⟩ := bind_eq_ok h
    obtain ⟨rfl, -⟩ := Prod.mk.inj (pure_eq_ok h)
    rw [eq_false_of_ne_true hkind]
    rfl

/-- What a constructor becomes has a method of its signature. -/
theorem constructor_binds {d : ConstructorDecl} {found : Option Candidate}
    (h : constructor file d c = .ok (found, c')) :
    ∀ candidate ∈ found, candidate.BindsConstructor d := by
  intro candidate hcandidate
  unfold constructor at h
  obtain ⟨body, c₁, hbody, h⟩ := bind_eq_ok h
  obtain ⟨rfl, -⟩ := Prod.mk.inj (pure_eq_ok h)
  obtain ⟨b, rfl, rfl⟩ := Option.map_eq_some_iff.mp hcandidate
  exact ⟨⟨rfl, rfl, declared_signature hbody⟩, rfl⟩

/-- An accessor with a signature has a method, one without has none. -/
theorem accessor_binds {member : String} {signature : Option Signature} {found : Option Body}
    (hclass : file.isInterface = false)
    (h : accessor file member signature c = .ok (found, c')) :
    found.map Body.signature = signature := by
  cases signature with
  | none =>
    obtain ⟨rfl, -⟩ := Prod.mk.inj (pure_eq_ok h)
    rfl
  | some s =>
    unfold accessor at h
    obtain ⟨body, rfl, hs⟩ := declared_some hclass h
    exact hs.symm

/-- Just the declared properties are bound, each with its accessors. -/
theorem property_binds {d : PropertyDecl} {found : Option BoundProperty}
    (hclass : file.isInterface = false) (h : property file d c = .ok (found, c')) :
    (∀ p ∈ found, p.Binds d) ∧ found.isSome = (d.kind == .declaration) := by
  unfold property at h
  split at h
  · next hkind =>
    obtain ⟨getter, c₁, hgetter, h⟩ := bind_eq_ok h
    obtain ⟨setter, c₂, hsetter, h⟩ := bind_eq_ok h
    obtain ⟨rfl, -⟩ := Prod.mk.inj (pure_eq_ok h)
    rw [hkind]
    refine ⟨fun p hp => ?_, rfl⟩
    obtain rfl := Option.some.inj hp
    exact ⟨rfl, rfl, rfl, rfl, accessor_binds hclass hgetter, accessor_binds hclass hsetter⟩
  · next hkind =>
    obtain ⟨getter, c₁, -, h⟩ := bind_eq_ok h
    obtain ⟨setter, c₂, -, h⟩ := bind_eq_ok h
    obtain ⟨rfl, -⟩ := Prod.mk.inj (pure_eq_ok h)
    rw [eq_false_of_ne_true hkind]
    exact ⟨by simp, rfl⟩

namespace DeclaredRun.Completes

variable {container : Container} {functions : List FunctionDecl}
  {constructors : List ConstructorDecl} {properties : List PropertyDecl} {m : Members}
  {run : DeclaredRun file functions constructors properties c}

/-- A run that completes has just the functions that it bound. -/
theorem functions_eq (h : run.Completes container m c') : m.functions = run.boundFunctions := by
  cases h <;> rfl

/-- A run that completes has just the properties that it bound. -/
theorem properties_eq (h : run.Completes container m c') : m.properties = run.boundProperties := by
  cases h <;> rfl

/-- The declared constructors come before methods that no declaration asks for. -/
theorem constructors_eq (h : run.Completes container m c') : ∃ others : List Body,
    m.constructors = run.boundConstructors ++ others.map implicitFunction := by
  cases h with
  | facade => exact ⟨[], (List.append_nil _).symm⟩
  | @classLike _ _ _ implicit =>
    refine ⟨implicit ++ run.init.toList, ?_⟩
    rw [List.map_append, List.append_assoc]

end DeclaredRun.Completes

open DeclaredMember (leaveHelpers TakeHelpers)

/-- Candidates become members one by one, each of which takes its helper from what is left. What
holds of a candidate and its declaration holds of the member, as only its helper is new. -/
theorem mapM_withDefaultValues_takeHelpers {δ : Type} {parameters : δ → List Parameter}
    {P : BoundFunction → δ → Prop}
    (hhelper : ∀ f helper d, P f d → P { f with defaultValues := helper } d)
    {candidates : List Candidate} {declarations : List δ} {functions : List BoundFunction}
    (hcandidates : List.Forall₂ (fun candidate d => P candidate.function d ∧
      candidate.parameters = (parameters d).length) candidates declarations)
    (h : candidates.mapM withDefaultValues c = .ok (functions, c')) :
    ∃ members : List DeclaredMember, functions = members.map DeclaredMember.function ∧
      List.Forall₂ (fun x d => P x.function d ∧ x.parameters = parameters d) members
        declarations ∧
      TakeHelpers c.left members ∧ c'.left = leaveHelpers c.left members := by
  induction hcandidates generalizing c functions with
  | nil =>
    obtain ⟨rfl, rfl⟩ := Prod.mk.inj (pure_eq_ok h)
    exact ⟨[], rfl, .nil, trivial, rfl⟩
  | @cons candidate d candidates declarations hcandidate _ ih =>
    rw [List.mapM_cons] at h
    obtain ⟨f, c₁, hf, h⟩ := bind_eq_ok h
    obtain ⟨fs, c₂, hfs, h⟩ := bind_eq_ok h
    obtain ⟨rfl, rfl⟩ := Prod.mk.inj (pure_eq_ok h)
    obtain ⟨c₃, hrun, hleft⟩ := withDefaultValues_run candidate c
    obtain ⟨rfl, rfl⟩ := Prod.mk.inj (Except.ok.inj (hf.symm.trans hrun))
    obtain ⟨members, rfl, hmembers, htake, hleave⟩ := ih hfs
    let x : DeclaredMember := ⟨{ candidate.function with
      defaultValues := (c.left.find? candidate.isHelper).map Method.body }, parameters d⟩
    have hx : x.isHelper = candidate.isHelper := by
      funext m
      simp only [DeclaredMember.isHelper, Candidate.isHelper, x, hcandidate.2]
    rw [hleft] at htake hleave
    refine ⟨x :: members, rfl, .cons ⟨hhelper _ _ _ hcandidate.1, rfl⟩ hmembers, ⟨?_, ?_⟩, ?_⟩
    · rw [hx]
    · rw [hx]
      exact htake
    · rw [leaveHelpers, List.foldl_cons, hx]
      exact hleave

/-- Functions take their helpers in the order of their declarations. -/
theorem functions_takeHelpers {candidates : List Candidate} {declarations : List FunctionDecl}
    {functions : List BoundFunction}
    (hcandidates : List.Forall₂ Candidate.Binds candidates declarations)
    (h : candidates.mapM withDefaultValues c = .ok (functions, c')) :
    ∃ members : List DeclaredMember, functions = members.map DeclaredMember.function ∧
      List.Forall₂ DeclaredMember.Binds members declarations ∧
      TakeHelpers c.left members ∧ c'.left = leaveHelpers c.left members :=
  mapM_withDefaultValues_takeHelpers (fun _ helper _ hf => hf.withHelper helper) hcandidates h

/-- Constructors take their helpers in the order of their declarations. -/
theorem constructors_takeHelpers {candidates : List Candidate}
    {declarations : List ConstructorDecl} {functions : List BoundFunction}
    (hcandidates : List.Forall₂ Candidate.BindsConstructor candidates declarations)
    (h : candidates.mapM withDefaultValues c = .ok (functions, c')) :
    ∃ members : List DeclaredMember, functions = members.map DeclaredMember.function ∧
      List.Forall₂ DeclaredMember.BindsConstructor members declarations ∧
      TakeHelpers c.left members ∧ c'.left = leaveHelpers c.left members :=
  mapM_withDefaultValues_takeHelpers (fun _ helper _ hf => hf.withHelper helper) hcandidates h

end Binding

end LineAtlas
