import LineAtlas.Proofs.Resolution.Order

/-!
# Requests for methods

The metadata of a class asks for methods by their signatures, one after the other: functions
first, then constructors, then properties, the getter before the setter. Each request takes the
first method with its signature that is left, also that of a member that is not declared. Binding
fails for the first declared member that finds none, and for no other reason, unless the class is
an interface.
-/

namespace LineAtlas

open Metadata (FunctionDecl ConstructorDecl PropertyDecl Document)

/-- What metadata says about the method of a member. -/
structure Request where
  /-- Name of the member. -/
  member : String
  /-- Signature of the method. -/
  signature : Option Signature
  /-- Whether the member is written in the source. One that is not may lack a method. -/
  isDeclared : Bool

namespace Request

/-- The request as a failure names it. -/
def wanted (r : Request) : String :=
  match r.signature with
  | some signature => signature.display
  | none => r.member ++ "(?)"

/-- Whether a method is one that is asked for. -/
def fits (r : Request) (m : Method) : Bool := r.signature == some m.signature

/-- A declared member for which there is no method among those that are left. -/
def isUnmet (left : List Method) (r : Request) : Bool := r.isDeclared && !left.any r.fits

/-- The methods that are left by requests, each of which takes the first one that fits. -/
def leave (left : List Method) (requests : List Request) : List Method :=
  requests.foldl (fun left r => left.eraseP r.fits) left

/-- The first request of a declared member that finds no method. -/
def firstUnmet? (left : List Method) : List Request → Option Request
  | [] => none
  | r :: rest => if r.isUnmet left then some r else firstUnmet? (left.eraseP r.fits) rest

variable {left : List Method}

/-- No requests leave all methods. -/
@[simp]
theorem leave_nil : leave left [] = left := rfl

/-- Requests that follow others take from what those leave. -/
@[simp]
theorem leave_append (one two : List Request) :
    leave left (one ++ two) = leave (leave left one) two := List.foldl_append

/-- The first unmet request is looked for among the first ones, and then among the others. -/
theorem firstUnmet?_append (one two : List Request) :
    firstUnmet? left (one ++ two)
      = (firstUnmet? left one).or (firstUnmet? (leave left one) two) := by
  induction one generalizing left with
  | nil => rfl
  | cons r rest ih =>
    rw [List.cons_append, firstUnmet?, firstUnmet?]
    split
    · rfl
    · exact ih

end Request

/-- What a function asks for. -/
def Metadata.FunctionDecl.request (f : FunctionDecl) : Request :=
  ⟨f.name, f.signature, f.kind == .declaration⟩

/-- What a constructor asks for. -/
def Metadata.ConstructorDecl.request (d : ConstructorDecl) : Request :=
  ⟨Signature.constructorName, d.signature, true⟩

/-- What a property asks for: the methods of those accessors that have a signature. -/
def Metadata.PropertyDecl.requests (p : PropertyDecl) : List Request :=
  (p.getter.toList ++ p.setter.toList).map fun s => ⟨p.name, some s, p.kind == .declaration⟩

/-- What members ask for, in the order in which they are bound. -/
def Request.ofMembers (functions : List FunctionDecl) (constructors : List ConstructorDecl)
    (properties : List PropertyDecl) : List Request :=
  functions.map FunctionDecl.request ++ constructors.map ConstructorDecl.request
    ++ properties.flatMap PropertyDecl.requests

/-- The first request that makes binding fail. In an interface there is none, as its bodies may be
in another class. -/
def ClassFile.firstUnmet? (file : ClassFile) (left : List Method) (requests : List Request) :
    Option Request :=
  if file.isInterface then none else Request.firstUnmet? left requests

/-- The first request that makes binding fail is looked for part by part. -/
theorem ClassFile.firstUnmet?_append (file : ClassFile) {left : List Method}
    (one two : List Request) :
    file.firstUnmet? left (one ++ two)
      = (file.firstUnmet? left one).or (file.firstUnmet? (Request.leave left one) two) := by
  unfold firstUnmet?
  split
  · rfl
  · exact Request.firstUnmet?_append one two

/-- A single request makes binding fail when it is unmet, but not in an interface. -/
theorem ClassFile.firstUnmet?_singleton (file : ClassFile) (left : List Method) (r : Request) :
    file.firstUnmet? left [r]
      = if file.isInterface = false ∧ r.isUnmet left = true then some r else none := by
  unfold firstUnmet? Request.firstUnmet?
  cases file.isInterface <;> simp [Request.firstUnmet?]

/-- The methods without a role. -/
def Claims.left (c : Claims) : List Method := c.free.map Prod.snd

/-- At the beginning all methods are left. -/
@[simp]
theorem Claims.left_ofMethods (methods : List Method) : (ofMethods methods).left = methods := by
  apply List.ext_getElem <;> simp [left, ofMethods]

namespace Binding

variable {α β : Type} {file : ClassFile} {c : Claims}

/-- The first free method of a kind is the first of those that are left. -/
theorem first?_run (role : Role) (kind : Method → Bool) (c : Claims) :
    ∃ c', first? role kind c = .ok ((c.left.find? kind).map Method.body, c') ∧
      c'.left = c.left.eraseP kind := by
  have hfind : c.left.find? kind = (c.free.find? fun entry => kind entry.2).map Prod.snd :=
    List.find?_map ..
  have herase : c.left.eraseP kind = (c.free.eraseP fun entry => kind entry.2).map Prod.snd :=
    List.eraseP_map ..
  unfold first? Claims.takeFirst?
  cases htake : c.free.find? fun entry => kind entry.2 with
  | none =>
    refine ⟨c, by rw [hfind, htake]; rfl, ?_⟩
    rw [herase, List.eraseP_of_forall_not (List.find?_eq_none.mp htake)]
    rfl
  | some entry =>
    refine ⟨⟨c.free.eraseP fun entry => kind entry.2, (entry.1, role) :: c.roles⟩, ?_, herase.symm⟩
    rw [hfind, htake]
    rfl

/-- A rule that makes requests and then goes on from what they leave: it fails exactly for a
request that makes binding fail, and otherwise leaves methods that are as they should be. -/
def Makes (file : ClassFile) (requests : List Request) (goesOn : List Method → List Method → Prop)
    (rule : Binding α) : Prop :=
  ∀ c : Claims, match file.firstUnmet? c.left requests with
  | some r => rule c = .error (.unresolvedSignature file.name r.wanted)
  | none => ∃ a c', rule c = .ok (a, c') ∧ goesOn (Request.leave c.left requests) c'.left

/-- A rule that makes requests and nothing more. -/
abbrev MakesJust (file : ClassFile) (requests : List Request) (rule : Binding α) : Prop :=
  Makes file requests Eq rule

/-- A rule that never fails makes no request. -/
theorem makes_nil {goesOn : List Method → List Method → Prop} {rule : Binding α}
    (h : ∀ c, ∃ a c', rule c = .ok (a, c') ∧ goesOn c.left c'.left) :
    Makes file [] goesOn rule := by
  intro c
  rw [show file.firstUnmet? c.left [] = none by simp [ClassFile.firstUnmet?, Request.firstUnmet?]]
  exact h c

/-- Giving a value makes no request. -/
theorem makesJust_pure (a : α) : MakesJust file [] (pure a) := makes_nil fun c => ⟨a, c, rfl, rfl⟩

/-- Behind a rule that succeeds, the next one goes on from what is left. -/
theorem bind_of_ok {rule : Binding α} {next : α → Binding β} {a : α} {c' : Claims}
    (h : rule c = .ok (a, c')) : (rule >>= next) c = next a c' := by
  change (rule c >>= fun entry => next entry.1 entry.2) = _
  rw [h]
  rfl

/-- Behind a rule that fails, nothing is bound. -/
theorem bind_of_error {rule : Binding α} {next : α → Binding β} {failure : Failure}
    (h : rule c = .error failure) : (rule >>= next) c = .error failure := by
  change (rule c >>= fun entry => next entry.1 entry.2) = _
  rw [h]
  rfl

/-- The requests of the first of two rules come before those of the second. -/
theorem MakesJust.bind {one two : List Request} {goesOn : List Method → List Method → Prop}
    {rule : Binding α} {next : α → Binding β} (hrule : MakesJust file one rule)
    (hnext : ∀ a, Makes file two goesOn (next a)) :
    Makes file (one ++ two) goesOn (rule >>= next) := by
  intro c
  have h := hrule c
  rw [ClassFile.firstUnmet?_append, Request.leave_append]
  cases hunmet : file.firstUnmet? c.left one with
  | some r =>
    rw [hunmet] at h
    exact bind_of_error h
  | none =>
    rw [hunmet] at h
    obtain ⟨a, c', hok, hleft⟩ := h
    have h' := hnext a c'
    rw [← hleft] at h'
    rw [Option.none_or, bind_of_ok hok]
    exact h'

/-- A rule that succeeds has made all its requests. -/
theorem MakesJust.left_eq {requests : List Request} {rule : Binding α} {c' : Claims} {a : α}
    (hrule : MakesJust file requests rule) (h : rule c = .ok (a, c')) :
    c'.left = Request.leave c.left requests := by
  have hmakes := hrule c
  cases hunmet : file.firstUnmet? c.left requests with
  | some r =>
    rw [hunmet] at hmakes
    exact absurd (h.symm.trans hmakes) (by simp)
  | none =>
    rw [hunmet] at hmakes
    obtain ⟨_, _, hok, hleft⟩ := hmakes
    obtain ⟨-, rfl⟩ := Prod.mk.inj (Except.ok.inj (h.symm.trans hok))
    exact hleft.symm

/-- What is done with the result makes no further request. -/
theorem MakesJust.map {requests : List Request} {rule : Binding α}
    (hrule : MakesJust file requests rule) (f : α → β) :
    MakesJust file requests (rule >>= fun a => pure (f a)) := by
  simpa using hrule.bind fun a => makesJust_pure (f a)

/-- A rule that is applied to each item makes the requests of all items in turn. -/
theorem makesJust_mapM {requests : α → List Request} {rule : α → Binding β}
    (hrule : ∀ a, MakesJust file (requests a) (rule a)) (items : List α) :
    MakesJust file (items.flatMap requests) (items.mapM rule) := by
  induction items with
  | nil => exact makesJust_pure []
  | cons a rest ih =>
    rw [List.mapM_cons, List.flatMap_cons]
    exact (hrule a).bind fun b => ih.map (b :: ·)

/-- Taking a method by its signature is a request, met by the first method that fits. -/
theorem withSignature?_run (role : Role) (signature : Option Signature) (c : Claims)
    (member : String) (isDeclared : Bool) :
    let r : Request := ⟨member, signature, isDeclared⟩
    ∃ c', withSignature? role signature c = .ok ((c.left.find? r.fits).map Method.body, c') ∧
      c'.left = c.left.eraseP r.fits := by
  intro r
  cases hs : signature with
  | none =>
    have hnone : ∀ m ∈ c.left, ¬ r.fits m = true := by simp [r, Request.fits, hs]
    refine ⟨c, ?_, (List.eraseP_of_forall_not hnone).symm⟩
    rw [List.find?_eq_none.mpr hnone]
    rfl
  | some s =>
    have hfits : r.fits = fun m => m.signature == s := by
      funext m
      simp only [r, Request.fits, hs]
      exact Bool.beq_comm
    rw [hfits]
    exact first?_run role _ c

/-- A member that is not declared takes its method, if there is one. -/
theorem makesJust_withSignature? (role : Role) (signature : Option Signature) (member : String) :
    MakesJust file [⟨member, signature, false⟩] (withSignature? role signature) := by
  intro c
  obtain ⟨c', hrun, hleft⟩ := withSignature?_run role signature c member false
  rw [ClassFile.firstUnmet?_singleton, if_neg (by simp [Request.isUnmet])]
  exact ⟨_, c', hrun, hleft.symm⟩

/-- A declared member takes its method, or else binding fails. -/
theorem makesJust_declared (role : Role) (member : String) (signature : Option Signature) :
    MakesJust file [⟨member, signature, true⟩] (declared file role member signature) := by
  intro c
  obtain ⟨c', hrun, hleft⟩ := withSignature?_run role signature c member true
  let r : Request := ⟨member, signature, true⟩
  rw [ClassFile.firstUnmet?_singleton]
  unfold declared
  rw [bind_of_ok hrun]
  cases hfind : c.left.find? r.fits with
  | none =>
    have hunmet : r.isUnmet c.left = true := by
      simpa [Request.isUnmet, r] using List.find?_eq_none.mp hfind
    cases hclass : file.isInterface with
    | false =>
      rw [if_pos ⟨rfl, hunmet⟩]
      rfl
    | true =>
      rw [if_neg (by simp)]
      exact ⟨none, c', rfl, hleft.symm⟩
  | some m =>
    have hany : c.left.any r.fits = true :=
      List.any_eq_true.mpr ⟨m, List.mem_of_find?_eq_some hfind, List.find?_some hfind⟩
    have hmet : ¬ (file.isInterface = false ∧ r.isUnmet c.left = true) := by
      simp [Request.isUnmet, hany]
    rw [if_neg hmet]
    exact ⟨_, c', rfl, hleft.symm⟩

/-- Binding a function makes its request. -/
theorem makesJust_function (file : ClassFile) (f : FunctionDecl) :
    MakesJust file [f.request] (function file f) := by
  unfold function FunctionDecl.request
  split
  · next hkind =>
    rw [hkind]
    exact (makesJust_declared _ _ _).map _
  · next hkind =>
    rw [eq_false_of_ne_true hkind]
    exact (makesJust_withSignature? _ _ _).map fun _ => none

/-- Binding a constructor makes its request. -/
theorem makesJust_constructor (file : ClassFile) (d : ConstructorDecl) :
    MakesJust file [d.request] (constructor file d) :=
  (makesJust_declared _ _ _).map _

/-- Binding an accessor makes a request if it has a signature. -/
theorem makesJust_accessor (member : String) (signature : Option Signature) :
    MakesJust file (signature.toList.map fun s => ⟨member, some s, true⟩)
      (accessor file member signature) := by
  cases signature with
  | none => exact makesJust_pure none
  | some s => exact makesJust_declared .accessor member (some s)

/-- The method of a member that is not declared is requested, but may be missing. -/
theorem makesJust_withSignature?_toList (role : Role) (signature : Option Signature)
    (member : String) :
    MakesJust file (signature.toList.map fun s => ⟨member, some s, false⟩)
      (withSignature? role signature) := by
  cases signature with
  | none => exact makesJust_pure none
  | some s => exact makesJust_withSignature? role (some s) member

/-- Binding a property makes its requests, the getter first. -/
theorem makesJust_property (file : ClassFile) (p : PropertyDecl) :
    MakesJust file p.requests (property file p) := by
  unfold property PropertyDecl.requests
  rw [List.map_append]
  split
  · next hkind =>
    rw [hkind]
    exact (makesJust_accessor p.name p.getter).bind fun getter =>
      (makesJust_accessor p.name p.setter).map fun setter =>
        some (BoundProperty.mk p.name p.isVar p.customGetter p.customSetter getter setter)
  · next hkind =>
    rw [eq_false_of_ne_true hkind]
    exact (makesJust_withSignature?_toList _ p.getter p.name).bind fun _ =>
      (makesJust_withSignature?_toList _ p.setter p.name).map fun _ => none

/-- A rule that never fails. -/
def Succeeds (rule : Binding α) : Prop := ∀ c, ∃ a c', rule c = .ok (a, c')

/-- Giving a value never fails. -/
theorem succeeds_pure (a : α) : Succeeds (pure a) := fun c => ⟨a, c, rfl⟩

/-- Rules that follow one another never fail when neither does. -/
theorem Succeeds.bind {rule : Binding α} {next : α → Binding β} (hrule : Succeeds rule)
    (hnext : ∀ a, Succeeds (next a)) : Succeeds (rule >>= next) := by
  intro c
  obtain ⟨a, c₁, ha⟩ := hrule c
  rw [bind_of_ok ha]
  exact hnext a c₁

/-- A rule that is applied to each item never fails when it does for none. -/
theorem succeeds_mapM {rule : α → Binding β} (hrule : ∀ a, Succeeds (rule a)) (items : List α) :
    Succeeds (items.mapM rule) := by
  induction items with
  | nil => exact succeeds_pure []
  | cons a rest ih =>
    rw [List.mapM_cons]
    exact (hrule a).bind fun b => ih.bind fun bs => succeeds_pure (b :: bs)

/-- Taking the first method of a kind never fails. -/
theorem succeeds_first? (role : Role) (kind : Method → Bool) : Succeeds (first? role kind) := by
  intro c
  obtain ⟨c', hrun, -⟩ := first?_run role kind c
  exact ⟨_, c', hrun⟩

/-- Taking all methods of a kind never fails. -/
theorem succeeds_all (role : Role) (kind : Method → Bool) : Succeeds (all role kind) :=
  fun _ => ⟨_, _, rfl⟩

/-- Whether a method is a helper of a candidate. -/
def Candidate.isHelper (candidate : Candidate) (m : Method) : Bool :=
  (if candidate.function.isConstructor then DefaultHelper.isOfConstructor
    else DefaultHelper.isOfFunction)
    m.signature candidate.function.body.signature (some candidate.parameters)

/-- A candidate takes the first method that is left and is a helper of it. -/
theorem withDefaultValues_run (candidate : Candidate) (c : Claims) :
    ∃ c', withDefaultValues candidate c = .ok ({ candidate.function with
        defaultValues := (c.left.find? candidate.isHelper).map Method.body }, c') ∧
      c'.left = c.left.eraseP candidate.isHelper := by
  obtain ⟨c', hrun, hleft⟩ := first?_run .defaultHelper candidate.isHelper c
  exact ⟨c', bind_of_ok hrun, hleft⟩

/-- Looking for a helper never fails. -/
theorem succeeds_withDefaultValues (candidate : Candidate) :
    Succeeds (withDefaultValues candidate) := by
  intro c
  obtain ⟨c', hrun, -⟩ := withDefaultValues_run candidate c
  exact ⟨_, c', hrun⟩

/-- A rule that never fails makes no requests, whatever it leaves. -/
theorem makes_nil_of_succeeds {rule : Binding α} (h : Succeeds rule) :
    Makes file [] (fun _ _ => True) rule :=
  makes_nil fun c => (h c).imp fun _ ⟨c', hok⟩ => ⟨c', hok, trivial⟩

/-- Members are bound unless the request of a declared member is unmet. -/
theorem makes_members (file : ClassFile) (container : Container) (functions : List FunctionDecl)
    (constructors : List ConstructorDecl) (properties : List PropertyDecl) :
    Makes file (Request.ofMembers functions constructors properties) (fun _ _ => True)
      (members file container functions constructors properties) := by
  have hfunctions : MakesJust file (functions.flatMap fun f => [f.request])
      (functions.mapM (function file)) := makesJust_mapM (makesJust_function file) functions
  have hconstructors : MakesJust file (constructors.flatMap fun d => [d.request])
      (constructors.mapM (constructor file)) :=
    makesJust_mapM (makesJust_constructor file) constructors
  have hproperties := makesJust_mapM (makesJust_property file) properties
  have hrequests : Request.ofMembers functions constructors properties
      = functions.flatMap (fun f => [f.request]) ++ (constructors.flatMap (fun d => [d.request])
        ++ (properties.flatMap PropertyDecl.requests ++ [])) := by
    simp [Request.ofMembers, ← List.map_eq_flatMap]
  rw [hrequests]
  refine hfunctions.bind fun fs => hconstructors.bind fun cs => hproperties.bind fun ps =>
    makes_nil_of_succeeds ?_
  refine (succeeds_mapM succeeds_withDefaultValues _).bind fun boundFs =>
    (succeeds_mapM succeeds_withDefaultValues _).bind fun boundCs =>
      (succeeds_first? _ _).bind fun init => ?_
  cases container with
  | facade => exact (succeeds_all _ _).bind fun locals => succeeds_pure _
  | classLike isData isEnum hasCompanion =>
    refine (succeeds_all _ _).bind fun implicit => (succeeds_all _ _).bind fun locals =>
      (succeeds_all _ _).bind fun generated => ?_
    cases hasCompanion with
    | true => exact (succeeds_all _ _).bind fun forwarders => succeeds_pure _
    | false => exact (succeeds_pure _).bind fun forwarders => succeeds_pure _

end Binding

end LineAtlas
