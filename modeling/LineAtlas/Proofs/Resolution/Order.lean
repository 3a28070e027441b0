import LineAtlas.Proofs.Resolution.Locals

/-!
# The order of members

Metadata is gone through from its first declaration to its last, and no rule changes the order of
the methods that it leaves free. So the declared members of a unit come in the order of the
metadata, and methods that are taken by their kind come in the order of the class file.
-/

namespace LineAtlas

open Metadata (FunctionDecl ConstructorDecl PropertyDecl)

/-- A bound function is what a declaration became. -/
def BoundFunction.IsFor (f : BoundFunction) (d : FunctionDecl) : Prop :=
  f.name = d.name ∧ d.signature = some f.body.signature

/-- A bound constructor is what a declaration became. -/
def BoundFunction.Constructs (f : BoundFunction) (d : ConstructorDecl) : Prop :=
  d.signature = some f.body.signature

/-- A bound property is what a declaration became. -/
structure BoundProperty.IsFor (p : BoundProperty) (d : PropertyDecl) : Prop where
  /-- It has the declared name. -/
  name : p.name = d.name
  /-- A getter has the declared signature. -/
  getter : ∀ b ∈ p.getter, d.getter = some b.signature
  /-- A setter has the declared signature. -/
  setter : ∀ b ∈ p.setter, d.setter = some b.signature

/-- Constructors are declared ones in the order of the metadata, then implicit ones in the order
of the class file, then the static initializer. -/
def ClassFile.OrdersConstructors (file : ClassFile) (declarations : List ConstructorDecl)
    (constructors : List BoundFunction) : Prop :=
  ∃ (declared : List BoundFunction) (implicit : List Body) (init : Option Body),
    constructors = declared ++ implicit.map Binding.implicitFunction
      ++ init.toList.map Binding.implicitFunction ∧
    List.SublistForall₂ BoundFunction.Constructs declared declarations ∧
    (file.isInterface = true ∨ declared.length = declarations.length) ∧
    implicit.Sublist (file.methods.map Method.body)

/-- Members that are in order. -/
structure Members.InOrder (m : Members) (file : ClassFile) (functions : List FunctionDecl)
    (constructors : List ConstructorDecl) (properties : List PropertyDecl) : Prop where
  /-- Functions are in the order of the metadata. -/
  functions : List.SublistForall₂ BoundFunction.IsFor m.functions functions
  /-- Constructors are in order. -/
  constructors : file.OrdersConstructors constructors m.constructors
  /-- Properties are in the order of the metadata. -/
  properties : List.SublistForall₂ BoundProperty.IsFor m.properties properties
  /-- Local functions are in the order of the class file. -/
  locals : m.locals.Sublist (file.methods.map Method.body)

/-- At the beginning all methods are free, in the order of the class file. -/
theorem Claims.map_free_ofMethods (methods : List Method) :
    (ofMethods methods).free.map (fun entry => entry.2.body) = methods.map Method.body := by
  apply List.ext_getElem <;> simp [ofMethods]

namespace Binding

section Rules

variable {α β : Type}

/-- A rule that leaves the free methods in their order. -/
def LeavesOrder (rule : Binding α) : Prop :=
  ∀ c a c', rule c = .ok (a, c') → c'.free.Sublist c.free

/-- Giving a value leaves the free methods as they are. -/
theorem leavesOrder_pure (a : α) : LeavesOrder (pure a) := by
  intro c b c' h
  obtain ⟨-, rfl⟩ := Prod.mk.inj (pure_eq_ok h)
  exact List.Sublist.refl _

/-- A rule that fails leaves nothing out of order. -/
theorem leavesOrder_throw (failure : Failure) : LeavesOrder (throw failure : Binding α) := by
  intro c a c' h
  simp [throw, throwThe, MonadExceptOf.throw, StateT.lift, bind, Except.bind] at h

/-- Rules that follow one another leave the order when both do. -/
theorem LeavesOrder.bind {rule : Binding α} {next : α → Binding β} (hrule : LeavesOrder rule)
    (hnext : ∀ a, LeavesOrder (next a)) : LeavesOrder (rule >>= next) := by
  intro c b c' h
  obtain ⟨a, c₁, hfirst, h⟩ := bind_eq_ok h
  exact (hnext a c₁ b c' h).trans (hrule c a c₁ hfirst)

/-- A rule that is applied to each item leaves the order when it does for one. -/
theorem leavesOrder_mapM {rule : α → Binding β} (hrule : ∀ a, LeavesOrder (rule a))
    (items : List α) : LeavesOrder (items.mapM rule) := by
  induction items with
  | nil => exact leavesOrder_pure []
  | cons a rest ih =>
    rw [List.mapM_cons]
    exact (hrule a).bind fun b => ih.bind fun bs => leavesOrder_pure (b :: bs)

/-- Taking the first method of a kind leaves the others in order. -/
theorem leavesOrder_first? (role : Role) (kind : Method → Bool) :
    LeavesOrder (first? role kind) := by
  intro c found c' h
  unfold first? at h
  split at h
  · next body claims htake =>
    obtain ⟨-, rfl⟩ := Prod.mk.inj (Except.ok.inj h)
    unfold Claims.takeFirst? at htake
    split at htake
    · simp at htake
    · obtain ⟨-, rfl⟩ := Prod.mk.inj (Option.some.inj htake)
      exact List.eraseP_sublist
  · obtain ⟨-, rfl⟩ := Prod.mk.inj (Except.ok.inj h)
    exact List.Sublist.refl _

/-- Taking all methods of a kind leaves the others in order. -/
theorem leavesOrder_all (role : Role) (kind : Method → Bool) : LeavesOrder (all role kind) := by
  intro c found c' h
  have htake : c.takeAll role kind = (found, c') := Except.ok.inj h
  rw [← show (c.takeAll role kind).2 = c' from congrArg Prod.snd htake]
  simp only [Claims.takeAll, List.partition_eq_filter_filter]
  exact List.filter_sublist

/-- All methods of a kind are taken in their order. -/
theorem all_sublist {role : Role} {kind : Method → Bool} {c c' : Claims} {found : List Body}
    (h : all role kind c = .ok (found, c')) :
    found.Sublist (c.free.map fun entry => entry.2.body) := by
  have htake : c.takeAll role kind = (found, c') := Except.ok.inj h
  rw [← show (c.takeAll role kind).1 = found from congrArg Prod.fst htake]
  simp only [Claims.takeAll, List.partition_eq_filter_filter]
  exact List.filter_sublist.map _

/-- Taking a method by its signature leaves the others in order. -/
theorem leavesOrder_withSignature? (role : Role) (signature : Option Signature) :
    LeavesOrder (withSignature? role signature) := by
  cases signature with
  | none => exact leavesOrder_pure none
  | some signature => exact leavesOrder_first? role _

/-- Taking the method of a declared member leaves the others in order. -/
theorem leavesOrder_declared (file : ClassFile) (role : Role) (memberName : String)
    (signature : Option Signature) : LeavesOrder (declared file role memberName signature) := by
  refine (leavesOrder_withSignature? role signature).bind fun found => ?_
  cases found with
  | some body => exact leavesOrder_pure _
  | none =>
    dsimp only
    split
    · exact leavesOrder_pure none
    · exact leavesOrder_throw _

/-- Binding a function leaves the other methods in order. -/
theorem leavesOrder_function (file : ClassFile) (f : FunctionDecl) :
    LeavesOrder (function file f) := by
  unfold function
  split
  · exact (leavesOrder_declared _ _ _ _).bind fun _ => leavesOrder_pure _
  · exact (leavesOrder_withSignature? _ _).bind fun _ => leavesOrder_pure _

/-- Binding a constructor leaves the other methods in order. -/
theorem leavesOrder_constructor (file : ClassFile) (d : ConstructorDecl) :
    LeavesOrder (constructor file d) :=
  (leavesOrder_declared _ _ _ _).bind fun _ => leavesOrder_pure _

/-- Binding an accessor leaves the other methods in order. -/
theorem leavesOrder_accessor (file : ClassFile) (name : String) (signature : Option Signature) :
    LeavesOrder (accessor file name signature) := by
  cases signature with
  | none => exact leavesOrder_pure none
  | some signature => exact leavesOrder_declared file .accessor name (some signature)

/-- Binding a property leaves the other methods in order. -/
theorem leavesOrder_property (file : ClassFile) (p : PropertyDecl) :
    LeavesOrder (property file p) := by
  unfold property
  split
  · exact (leavesOrder_accessor _ _ _).bind fun _ =>
      (leavesOrder_accessor _ _ _).bind fun _ => leavesOrder_pure _
  · exact (leavesOrder_withSignature? _ _).bind fun _ =>
      (leavesOrder_withSignature? _ _).bind fun _ => leavesOrder_pure _

/-- Taking a helper leaves the other methods in order. -/
theorem leavesOrder_withDefaultValues (candidate : Candidate) :
    LeavesOrder (withDefaultValues candidate) :=
  (leavesOrder_first? _ _).bind fun _ => leavesOrder_pure _

/-- A rule that runs for every item gives a result for each of them, in order. -/
theorem mapM_forall₂ {rule : α → Binding β} {R : α → β → Prop}
    (hrule : ∀ a c b c', rule a c = .ok (b, c') → R a b) {items : List α} {c c' : Claims}
    {results : List β} (h : items.mapM rule c = .ok (results, c')) :
    List.Forall₂ R items results := by
  induction items generalizing c results with
  | nil =>
    rw [mapM_nil_eq_ok h]
    exact .nil
  | cons a rest ih =>
    rw [List.mapM_cons] at h
    obtain ⟨b, c₁, hb, h⟩ := bind_eq_ok h
    obtain ⟨bs, c₂, hbs, h⟩ := bind_eq_ok h
    obtain ⟨rfl, rfl⟩ := Prod.mk.inj (pure_eq_ok h)
    exact .cons (hrule a c b c₁ hb) (ih hbs)

/-- The results of a rule that may find nothing are in the order of the items. -/
theorem mapM_filterMap_order {rule : α → Binding (Option β)} {R : β → α → Prop}
    (hrule : ∀ a c found c', rule a c = .ok (found, c') → ∀ b ∈ found, R b a) {items : List α}
    {c c' : Claims} {results : List (Option β)} (h : items.mapM rule c = .ok (results, c')) :
    List.SublistForall₂ R (results.filterMap id) items :=
  Lists.sublistForall₂_filterMap (mapM_forall₂ hrule h)

end Rules

variable {file : ClassFile} {c c' : Claims}

/-- What a function is bound to is for its declaration. -/
theorem function_isFor {d : FunctionDecl} {found : Option Candidate}
    (h : function file d c = .ok (found, c')) :
    ∀ candidate ∈ found, candidate.function.IsFor d := by
  intro candidate hcandidate
  refine ⟨?_, function_signature h candidate hcandidate⟩
  unfold function at h
  split at h
  · obtain ⟨body, c₁, -, h⟩ := bind_eq_ok h
    obtain ⟨rfl, -⟩ := Prod.mk.inj (pure_eq_ok h)
    obtain ⟨b, -, rfl⟩ := Option.map_eq_some_iff.mp hcandidate
    rfl
  · obtain ⟨taken, c₁, -, h⟩ := bind_eq_ok h
    obtain ⟨rfl, -⟩ := Prod.mk.inj (pure_eq_ok h)
    simp at hcandidate

/-- Only an interface may lack the method of a declared member. -/
theorem declared_isSome {role : Role} {memberName : String} {signature : Option Signature}
    {found : Option Body} (h : declared file role memberName signature c = .ok (found, c')) :
    file.isInterface = true ∨ found.isSome = true := by
  unfold declared at h
  obtain ⟨first, c₁, -, h⟩ := bind_eq_ok h
  cases first with
  | some body =>
    obtain ⟨rfl, -⟩ := Prod.mk.inj (pure_eq_ok h)
    exact Or.inr rfl
  | none =>
    dsimp only at h
    split at h
    · next hinterface => exact Or.inl hinterface
    · exact absurd h (by simp [throw, throwThe, MonadExceptOf.throw, StateT.lift,
        bind, Except.bind])

/-- Only in an interface can a constructor be left without a method. -/
theorem constructor_isSome {d : ConstructorDecl} {found : Option Candidate}
    (h : constructor file d c = .ok (found, c')) :
    file.isInterface = true ∨ found.isSome = true := by
  unfold constructor at h
  obtain ⟨body, c₁, hbody, h⟩ := bind_eq_ok h
  obtain ⟨rfl, -⟩ := Prod.mk.inj (pure_eq_ok h)
  rw [Option.isSome_map]
  exact declared_isSome hbody

/-- The method of an accessor has the declared signature. -/
theorem accessor_signature {name : String} {signature : Option Signature} {found : Option Body}
    (h : accessor file name signature c = .ok (found, c')) :
    ∀ body ∈ found, signature = some body.signature := by
  rintro body rfl
  cases signature with
  | none => simpa using pure_eq_ok h
  | some signature =>
    unfold accessor at h
    exact declared_signature h

/-- What a property is bound to is for its declaration. -/
theorem property_isFor {d : PropertyDecl} {found : Option BoundProperty}
    (h : property file d c = .ok (found, c')) : ∀ p ∈ found, p.IsFor d := by
  intro p hp
  unfold property at h
  split at h
  · obtain ⟨getter, c₁, hgetter, h⟩ := bind_eq_ok h
    obtain ⟨setter, c₂, hsetter, h⟩ := bind_eq_ok h
    obtain ⟨rfl, -⟩ := Prod.mk.inj (pure_eq_ok h)
    obtain rfl := Option.some.inj hp
    exact ⟨rfl, accessor_signature hgetter, accessor_signature hsetter⟩
  · obtain ⟨getter, c₁, -, h⟩ := bind_eq_ok h
    obtain ⟨setter, c₂, -, h⟩ := bind_eq_ok h
    obtain ⟨rfl, -⟩ := Prod.mk.inj (pure_eq_ok h)
    simp at hp

/-- Looking for helpers changes neither the names nor the methods of functions. -/
theorem withDefaultValues_eq {candidate : Candidate} {f : BoundFunction}
    (h : withDefaultValues candidate c = .ok (f, c')) :
    f.name = candidate.function.name ∧ f.body = candidate.function.body := by
  unfold withDefaultValues at h
  obtain ⟨helper, c₁, -, h⟩ := bind_eq_ok h
  obtain ⟨rfl, -⟩ := Prod.mk.inj (pure_eq_ok h)
  exact ⟨rfl, rfl⟩

/-- Functions with their helpers are in the order of the candidates. -/
theorem mapM_withDefaultValues_order {candidates : List Candidate} {functions : List BoundFunction}
    (h : candidates.mapM withDefaultValues c = .ok (functions, c')) :
    List.SublistForall₂ (fun (f : BoundFunction) (candidate : Candidate) =>
      f.name = candidate.function.name ∧ f.body = candidate.function.body) functions candidates :=
  Lists.sublistForall₂_of_forall₂ (mapM_forall₂ (R := fun (candidate : Candidate) f =>
    f.name = candidate.function.name ∧ f.body = candidate.function.body)
    (fun _ _ _ _ => withDefaultValues_eq) h).flip

/-- When each of several items became something, nothing is left out. -/
theorem length_filterMap_of_isSome {α β : Type} {items : List α} {found : List (Option β)}
    (h : List.Forall₂ (fun _ option => file.isInterface = true ∨ option.isSome = true) items
      found) :
    file.isInterface = true ∨ (found.filterMap id).length = items.length := by
  induction h with
  | nil => exact Or.inr rfl
  | @cons _ option _ _ hfirst _ ih =>
    rcases hfirst with hinterface | hsome
    · exact Or.inl hinterface
    · obtain ⟨b, rfl⟩ := Option.isSome_iff_exists.mp hsome
      exact ih.imp id fun hlength => congrArg (· + 1) hlength

namespace DeclaredRun

variable {functions : List FunctionDecl} {constructors : List ConstructorDecl}
  {properties : List PropertyDecl} (run : DeclaredRun file functions constructors properties c)

/-- Functions are bound in the order of their declarations. -/
theorem functions_order : List.SublistForall₂ BoundFunction.IsFor run.boundFunctions functions := by
  refine Lists.sublistForall₂_comp (fun f candidate d hf hfor => ?_)
    (mapM_withDefaultValues_order run.functionHelpers_run) (mapM_filterMap_order
      (R := fun (candidate : Candidate) d => candidate.function.IsFor d)
      (fun _ _ _ _ => function_isFor) run.functions_run)
  exact ⟨hf.1.trans hfor.1, hf.2 ▸ hfor.2⟩

/-- Constructors are bound in the order of their declarations. -/
theorem constructors_order :
    List.SublistForall₂ BoundFunction.Constructs run.boundConstructors constructors := by
  refine Lists.sublistForall₂_comp (fun f candidate d hf hfor => ?_)
    (mapM_withDefaultValues_order run.constructorHelpers_run) (mapM_filterMap_order
      (R := fun (candidate : Candidate) d => candidate.function.Constructs d)
      (fun _ _ _ _ => constructor_signature) run.constructors_run)
  rw [BoundFunction.Constructs, hf.2]
  exact hfor

/-- Properties are bound in the order of their declarations. -/
theorem properties_order :
    List.SublistForall₂ BoundProperty.IsFor run.boundProperties properties :=
  mapM_filterMap_order (R := BoundProperty.IsFor) (fun _ _ _ _ => property_isFor)
    run.properties_run

/-- Only an interface leaves declared constructors out. -/
theorem constructors_length :
    file.isInterface = true ∨ run.boundConstructors.length = constructors.length := by
  have hlength : run.boundConstructors.length
      = (run.constructorCandidates.filterMap id).length :=
    (mapM_forall₂ (R := fun _ _ => True) (fun _ _ _ _ _ => trivial)
      run.constructorHelpers_run).length_eq.symm
  rw [hlength]
  exact length_filterMap_of_isSome
    (mapM_forall₂ (fun _ _ _ _ => constructor_isSome) run.constructors_run)

/-- What declarations leave is still in order. -/
theorem free_sublist : run.c₆.free.Sublist c.free :=
  (leavesOrder_first? _ _ _ _ _ run.init_run).trans
    ((leavesOrder_mapM leavesOrder_withDefaultValues _ _ _ _ run.constructorHelpers_run).trans
    ((leavesOrder_mapM leavesOrder_withDefaultValues _ _ _ _ run.functionHelpers_run).trans
    ((leavesOrder_mapM (leavesOrder_property file) _ _ _ _ run.properties_run).trans
    ((leavesOrder_mapM (leavesOrder_constructor file) _ _ _ _ run.constructors_run).trans
      (leavesOrder_mapM (leavesOrder_function file) _ _ _ _ run.functions_run)))))

end DeclaredRun

/-- The members that are bound in a class file are in order. -/
theorem members_inOrder {container : Container} {functions : List FunctionDecl}
    {constructors : List ConstructorDecl} {properties : List PropertyDecl} {m : Members}
    (h : members file container functions constructors properties (Claims.ofMethods file.methods)
      = .ok (m, c')) : m.InOrder file functions constructors properties := by
  obtain ⟨run, hrun⟩ := exists_declaredRun h
  have hfree : (run.c₆.free.map fun entry => entry.2.body).Sublist
      (file.methods.map Method.body) := by
    rw [← Claims.map_free_ofMethods]
    exact run.free_sublist.map _
  cases hrun with
  | facade hlocals =>
    exact ⟨run.functions_order, ⟨run.boundConstructors, [], none, by simp, run.constructors_order,
      run.constructors_length, List.nil_sublist _⟩, run.properties_order,
      (all_sublist hlocals).trans hfree⟩
  | @classLike _ _ _ implicit _ _ _ _ _ _ _ himplicit hlocals =>
    have hlater := ((leavesOrder_all _ _ _ _ _ himplicit).map
      (fun entry => entry.2.body)).trans hfree
    exact ⟨run.functions_order, ⟨run.boundConstructors, implicit, run.init, rfl,
      run.constructors_order, run.constructors_length, (all_sublist himplicit).trans hfree⟩,
      run.properties_order, (all_sublist hlocals).trans hlater⟩

end Binding

/-- The properties that a document lists. -/
def Metadata.Document.properties : Metadata.Document → List PropertyDecl
  | .classDecl decl => decl.properties
  | .fileFacade package | .multiFilePart _ package => package.properties
  | .syntheticClass _ | .multiFileFacade _ | .unknown _ _ => []

/-- What the metadata of a class file says. -/
def ClassFile.document? (file : ClassFile) : Option Metadata.Document :=
  (Metadata.Header.ofClass? file).bind fun header => header.decode.toOption

/-- Members are in the order of the metadata and the methods of a class file. -/
def Members.OrderedAs (m : Members) (file : ClassFile) : Prop :=
  ∃ document, file.document? = some document ∧
    m.InOrder file document.functions document.constructors document.properties

/-- A unit is in the order of a class file. A lambda has one function. -/
def ResolvedUnit.OrderedAs (file : ClassFile) : ResolvedUnit → Prop
  | .classUnit u => u.jvmName = file.name ∧ u.members.OrderedAs file
  | .localClass u => u.jvmName = file.name ∧ (u.members.OrderedAs file ∨
      ∃ m ∈ file.methods, u.members =
        { functions := [⟨m.signature.name, none, false, m.body, none⟩] })
  | .facade u => u.jvmName = file.name ∧ u.members.OrderedAs file
  | .defaultImpls u => u.jvmName = file.name ∧ u.methods = file.methods.map Method.body
  | .opaqueUnit | .foreign => True

namespace ClassFile

open Metadata (Document)

variable {file : ClassFile} {policy : AccountingPolicy} {r : Resolution}

/-- What a class file contributes is in the order of its metadata and of its methods. -/
theorem Contributes.orderedAs {document : Document} (hdocument : file.document? = some document)
    (h : file.Contributes policy document r) : r.unit.OrderedAs file := by
  cases h with
  | classUnit hbind =>
    obtain ⟨c', hrun⟩ := bind_run hbind
    exact ⟨rfl, _, hdocument, Binding.members_inOrder hrun⟩
  | localClass kind origin hbind =>
    obtain ⟨c', hrun⟩ := bind_run hbind
    exact ⟨rfl, Or.inl ⟨_, hdocument, Binding.members_inOrder hrun⟩⟩
  | facade hbind | part hbind =>
    obtain ⟨c', hrun⟩ := bind_run hbind
    exact ⟨rfl, _, hdocument, Binding.members_inOrder hrun⟩
  | @lambda _ method _ origin hcandidates hbind =>
    have hmem : method ∈ file.lambdaCandidates := hcandidates ▸ List.mem_cons_self
    exact ⟨rfl, Or.inr ⟨method, List.mem_of_mem_filter hmem, rfl⟩⟩
  | defaultImpls => exact ⟨rfl, rfl⟩
  | compilerOnly => trivial

/-- What a class file contributes is in its order. -/
theorem resolve_orderedAs (h : file.resolve policy = .ok r) : r.unit.OrderedAs file := by
  rcases resolve_cases h with rfl | ⟨header, document, hheader, hdecode, hcontributes⟩
  · trivial
  · refine hcontributes.orderedAs ?_
    rw [document?, hheader, Option.bind_some, hdecode]
    rfl

end ClassFile

end LineAtlas
