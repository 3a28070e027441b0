import LineAtlas.Proofs.Except
import LineAtlas.Resolution.Resolve

/-!
# What class files contribute

The kind of its metadata decides what a class file contributes, if it contributes anything. There is
one rule for each kind, so that what holds of all contributions is proved rule by rule. Declarations
are bound alike in all kinds, and what is bound after them depends on whether they are in a class.
-/

namespace LineAtlas

namespace Binding

/-- The two parts of a rule that succeeds. -/
theorem bind_eq_ok {α β : Type} {p : Binding α} {q : α → Binding β} {c : Claims}
    {r : β × Claims} (h : (p >>= q) c = .ok r) : ∃ a c', p c = .ok (a, c') ∧ q a c' = .ok r := by
  change (p c >>= fun entry => q entry.1 entry.2) = .ok r at h
  cases hp : p c with
  | error failure => simp [hp, bind, Except.bind] at h
  | ok entry => exact ⟨entry.1, entry.2, rfl, by simpa [hp, bind, Except.bind] using h⟩

/-- Giving a value takes no method. -/
theorem pure_eq_ok {α : Type} {a : α} {c : Claims} {r : α × Claims}
    (h : (pure a : Binding α) c = .ok r) : r = (a, c) := by
  change Except.ok (a, c) = .ok r at h
  exact (Except.ok.inj h).symm

open Metadata (FunctionDecl ConstructorDecl PropertyDecl)

/-- A run that binds declarations. All of them take their methods before the first helper is looked
for, and the static initializer is looked for last. -/
structure DeclaredRun (file : ClassFile) (functions : List FunctionDecl)
    (constructors : List ConstructorDecl) (properties : List PropertyDecl) (c : Claims) where
  /-- What the functions became. -/
  functionCandidates : List (Option Candidate)
  /-- What the constructors became. -/
  constructorCandidates : List (Option Candidate)
  /-- What the properties became. -/
  foundProperties : List (Option BoundProperty)
  /-- Functions with their helpers. -/
  boundFunctions : List BoundFunction
  /-- Constructors with their helpers. -/
  boundConstructors : List BoundFunction
  /-- The static initializer. -/
  init : Option Body
  /-- Claims after the functions. -/
  c₁ : Claims
  /-- Claims after the constructors. -/
  c₂ : Claims
  /-- Claims after the properties. -/
  c₃ : Claims
  /-- Claims after the helpers of functions. -/
  c₄ : Claims
  /-- Claims after the helpers of constructors. -/
  c₅ : Claims
  /-- Claims after the initializer. -/
  c₆ : Claims
  /-- The functions take their methods first. -/
  functions_run : functions.mapM (function file) c = .ok (functionCandidates, c₁)
  /-- The constructors take theirs next. -/
  constructors_run : constructors.mapM (constructor file) c₁ = .ok (constructorCandidates, c₂)
  /-- The accessors of properties take theirs next. -/
  properties_run : properties.mapM (property file) c₂ = .ok (foundProperties, c₃)
  /-- The functions take their helpers. -/
  functionHelpers_run :
    (functionCandidates.filterMap id).mapM withDefaultValues c₃ = .ok (boundFunctions, c₄)
  /-- The constructors take their helpers. -/
  constructorHelpers_run :
    (constructorCandidates.filterMap id).mapM withDefaultValues c₄ = .ok (boundConstructors, c₅)
  /-- The static initializer is looked for last. -/
  init_run : first? .staticInit isStaticInit c₅ = .ok (init, c₆)

namespace DeclaredRun

variable {file : ClassFile} {functions : List FunctionDecl} {constructors : List ConstructorDecl}
  {properties : List PropertyDecl} {c : Claims}

/-- The properties that are declared and not left out. -/
def boundProperties (run : DeclaredRun file functions constructors properties c) :
    List BoundProperty :=
  run.foundProperties.filterMap id

/-- The local functions of members that are bound with some constructors. -/
def takeLocals (run : DeclaredRun file functions constructors properties c)
    (built : List BoundFunction) : Binding (List Body) :=
  all .localFunction fun m =>
    (localKeys run.boundFunctions built run.boundProperties).any (isLocalOf m.signature.name)

/-- What becomes of the methods that declarations leave. -/
inductive Completes (run : DeclaredRun file functions constructors properties c) :
    Container → Members → Claims → Prop where
  /-- At the top level of a file only local functions are added. -/
  | facade {locals : List Body} {c' : Claims}
      (hlocals : run.takeLocals run.boundConstructors run.c₆ = .ok (locals, c')) :
      Completes run .facade
        { functions := run.boundFunctions
          constructors := run.boundConstructors
          properties := run.boundProperties, locals, init := run.init } c'
  /-- In a class constructors may go without saying, and the static initializer is one of them. -/
  | classLike {isData isEnum hasCompanion : Bool}
      {implicit locals generated forwarders : List Body} {c₇ c₈ c₉ c' : Claims}
      (himplicit : all .constructor isImplicitConstructor run.c₆ = .ok (implicit, c₇))
      (hlocals : run.takeLocals (run.boundConstructors ++ implicit.map implicitFunction) c₇
        = .ok (locals, c₈))
      (hgenerated : all .synthesized (isGenerated isData isEnum) c₈ = .ok (generated, c₉))
      (hforwarders : (if hasCompanion then all .synthesized isForwarder else pure []) c₉
        = .ok (forwarders, c')) :
      Completes run (.classLike isData isEnum hasCompanion)
        { functions := run.boundFunctions
          constructors := run.boundConstructors ++ implicit.map implicitFunction
            ++ run.init.toList.map implicitFunction
          properties := run.boundProperties, locals, forwarders } c'

end DeclaredRun

/-- Members are bound by a run for what is declared and by what completes it. -/
theorem exists_declaredRun {file : ClassFile} {container : Container}
    {functions : List FunctionDecl} {constructors : List ConstructorDecl}
    {properties : List PropertyDecl} {c c' : Claims} {m : Members}
    (h : members file container functions constructors properties c = .ok (m, c')) :
    ∃ run : DeclaredRun file functions constructors properties c, run.Completes container m c' := by
  unfold members at h
  obtain ⟨fs, c₁, hfs, h⟩ := bind_eq_ok h
  obtain ⟨cs, c₂, hcs, h⟩ := bind_eq_ok h
  obtain ⟨ps, c₃, hps, h⟩ := bind_eq_ok h
  obtain ⟨boundFs, c₄, hboundFs, h⟩ := bind_eq_ok h
  obtain ⟨boundCs, c₅, hboundCs, h⟩ := bind_eq_ok h
  obtain ⟨init, c₆, hinit, h⟩ := bind_eq_ok h
  refine ⟨⟨fs, cs, ps, boundFs, boundCs, init, c₁, c₂, c₃, c₄, c₅, c₆, hfs, hcs, hps, hboundFs,
    hboundCs, hinit⟩, ?_⟩
  cases container with
  | facade =>
    obtain ⟨locals, c₇, hlocals, h⟩ := bind_eq_ok h
    obtain ⟨rfl, rfl⟩ := Prod.mk.inj (pure_eq_ok h)
    exact .facade hlocals
  | classLike isData isEnum hasCompanion =>
    obtain ⟨implicit, c₇, himplicit, h⟩ := bind_eq_ok h
    obtain ⟨locals, c₈, hlocals, h⟩ := bind_eq_ok h
    obtain ⟨generated, c₉, hgenerated, h⟩ := bind_eq_ok h
    cases hasCompanion with
    | true =>
      obtain ⟨forwarders, c₁₀, hforwarders, h⟩ := bind_eq_ok h
      obtain ⟨rfl, rfl⟩ := Prod.mk.inj (pure_eq_ok h)
      exact .classLike himplicit hlocals hgenerated hforwarders
    | false =>
      obtain ⟨rfl, rfl⟩ := Prod.mk.inj (pure_eq_ok h)
      exact .classLike himplicit hlocals hgenerated rfl

end Binding

namespace ClassFile

open Metadata (ClassDecl PackageDecl FunctionDecl Document Header)

variable {file : ClassFile} {policy : AccountingPolicy} {r : Resolution}

/-- Binding that succeeds comes from rules that do, run on all methods. -/
theorem bind_run {binding : Binding Members} {m : Members} {l : Ledger}
    (h : file.bind policy binding = .ok (m, l)) :
    ∃ c', binding (Claims.ofMethods file.methods) = .ok (m, c') := by
  unfold bind at h
  obtain ⟨⟨members, claims⟩, hrun, h⟩ := Except.bind_eq_ok h
  obtain ⟨ledger, -, h⟩ := Except.bind_eq_ok h
  obtain ⟨rfl, -⟩ := Prod.mk.inj (Except.ok.inj h)
  exact ⟨claims, hrun⟩

/-- The members of a lambda class whose body is a method. -/
def lambdaMembers (method : Method) : Members :=
  { functions := [⟨method.signature.name, none, false, method.body, none⟩] }

/-- What a class file with some metadata contributes. -/
inductive Contributes (file : ClassFile) (policy : AccountingPolicy) :
    Document → Resolution → Prop where
  /-- A class with a name of its own. -/
  | classUnit {decl : ClassDecl} {members : Members} {ledger : Ledger}
      (hbind : file.bindClass policy decl = .ok (members, ledger)) :
      Contributes file policy (.classDecl decl) ⟨.classUnit {
        jvmName := file.name, declaredName := ClassName.ofMetadata decl.name,
        isObject := decl.kind.isObject, isData := decl.isData,
        isInterface := decl.kind == .interface, companion := decl.companion, members }, ledger⟩
  /-- A class declared in a function body. -/
  | localClass {decl : ClassDecl} {members : Members} {ledger : Ledger}
      (kind : LocalKind) (origin : Origin)
      (hbind : file.bindClass policy decl = .ok (members, ledger)) :
      Contributes file policy (.classDecl decl)
        ⟨.localClass ⟨file.name, kind, origin, members⟩, ledger⟩
  /-- The top level of a file. -/
  | facade {package : PackageDecl} {members : Members} {ledger : Ledger}
      (hbind : file.bind policy (Binding.members file .facade package.functions []
        package.properties) = .ok (members, ledger)) :
      Contributes file policy (.fileFacade package) ⟨.facade ⟨file.name, members⟩, ledger⟩
  /-- A part of the top level of a file. -/
  | part {facade : String} {package : PackageDecl} {members : Members} {ledger : Ledger}
      (hbind : file.bind policy (Binding.members file .facade package.functions []
        package.properties) = .ok (members, ledger)) :
      Contributes file policy (.multiFilePart facade package)
        ⟨.facade ⟨file.name, members⟩, ledger⟩
  /-- The holder of the bodies of an interface. -/
  | defaultImpls {lambda : Option FunctionDecl} {interfaceName : String}
      (hname : Text.dropTail? defaultImplsSuffix file.name = some interfaceName) :
      Contributes file policy (.syntheticClass lambda) (file.resolveDefaultImpls interfaceName)
  /-- A lambda with its only method with lines. -/
  | lambda {lambda : Option FunctionDecl} {method : Method} {ledger : Ledger} (origin : Origin)
      (hcandidates : file.lambdaCandidates = [method])
      (hbind : file.bind policy (do
        let _ ← Binding.all .lambdaBody (!·.lines.isEmpty)
        return lambdaMembers method) = .ok (lambdaMembers method, ledger)) :
      Contributes file policy (.syntheticClass lambda)
        ⟨.localClass ⟨file.name, .lambda, origin, lambdaMembers method⟩, ledger⟩
  /-- A class about which only the compiler knows. -/
  | compilerOnly {document : Document} : Contributes file policy document file.resolveOpaque

/-- What the class of a lambda contributes is by the rule for such classes. -/
theorem contributes_of_resolveLambda {lambda : Option FunctionDecl}
    (h : file.resolveLambda policy = .ok r) :
    file.Contributes policy (.syntheticClass lambda) r := by
  unfold resolveLambda at h
  split at h
  · simp [throw, throwThe, MonadExceptOf.throw] at h
  · next method hcandidates =>
    obtain ⟨⟨m, l⟩, hbind, h⟩ := Except.bind_eq_ok h
    obtain ⟨origin, -, h⟩ := Except.bind_eq_ok h
    obtain rfl := Except.ok.inj h
    obtain ⟨c', hrun⟩ := bind_run hbind
    obtain ⟨taken, c₁, -, hrun⟩ := Binding.bind_eq_ok hrun
    obtain ⟨rfl, -⟩ := Prod.mk.inj (Binding.pure_eq_ok hrun)
    exact .lambda origin hcandidates hbind
  · simp [throw, throwThe, MonadExceptOf.throw] at h

/-- Each kind of metadata is treated by its rule. -/
theorem contributes_of_resolveDocument {document : Document}
    (h : file.resolveDocument policy document = .ok r) : file.Contributes policy document r := by
  cases document with
  | classDecl decl =>
    simp only [resolveDocument] at h
    split at h
    · obtain ⟨segments, -, h⟩ := Except.bind_eq_ok h
      obtain ⟨⟨m, l⟩, hbind, h⟩ := Except.bind_eq_ok h
      obtain ⟨origin, -, h⟩ := Except.bind_eq_ok h
      obtain rfl := Except.ok.inj h
      exact .localClass _ origin hbind
    · obtain ⟨segments, -, h⟩ := Except.bind_eq_ok h
      obtain ⟨⟨m, l⟩, hbind, h⟩ := Except.bind_eq_ok h
      obtain rfl := Except.ok.inj h
      exact .classUnit hbind
  | fileFacade package =>
    obtain ⟨⟨m, l⟩, hbind, h⟩ := Except.bind_eq_ok h
    obtain rfl := Except.ok.inj h
    exact .facade hbind
  | multiFilePart facade package =>
    obtain ⟨⟨m, l⟩, hbind, h⟩ := Except.bind_eq_ok h
    obtain rfl := Except.ok.inj h
    exact .part hbind
  | multiFileFacade parts =>
    obtain rfl := Except.ok.inj h
    exact .compilerOnly
  | unknown kind version => simp [resolveDocument] at h
  | syntheticClass lambda =>
    simp only [resolveDocument] at h
    split at h
    · next hname =>
      obtain rfl := Except.ok.inj h
      exact .defaultImpls hname
    · split at h
      · exact contributes_of_resolveLambda h
      · obtain rfl := Except.ok.inj h
        exact .compilerOnly
    · obtain rfl := Except.ok.inj h
      exact .compilerOnly

/-- A class file is foreign, or contributes something by the rule for its metadata. -/
theorem resolve_cases (h : file.resolve policy = .ok r) :
    r = ⟨.foreign, .unclassified file.name⟩ ∨
      ∃ header document, Header.ofClass? file = some header ∧ header.decode = .ok document ∧
        file.Contributes policy document r := by
  unfold resolve at h
  split at h
  · exact Or.inl (Except.ok.inj h).symm
  · next header hheader =>
    split at h
    · simp at h
    · next document hdecode =>
      exact Or.inr ⟨header, document, hheader, hdecode, contributes_of_resolveDocument h⟩

end ClassFile

end LineAtlas
