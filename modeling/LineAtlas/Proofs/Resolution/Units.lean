import LineAtlas.Proofs.Resolution.Accounting
import LineAtlas.Proofs.Text.Split

/-!
# Units of class files

What a class file contributes has the form of its kind: only the top level of a file has an
initializer of its own, and only classes have constructors. A holder goes by the name of its
interface. A static method is taken for a forwarder only where there is a companion object that it
can forward to.
-/

namespace LineAtlas

namespace ResolvedUnit

/-- What is common to all units of a kind. -/
def FitsKind : ResolvedUnit → Prop
  | .classUnit u => u.members.init = none
  | .localClass u => u.members.init = none
  | .facade u => u.members.constructors = []
  | .defaultImpls u => u.jvmName = u.interfaceName ++ ClassFile.defaultImplsSuffix
  | .opaqueUnit | .foreign => True

/-- A class without a companion object takes no static method for a forwarder. -/
def ForwardsToCompanion : ResolvedUnit → Prop
  | .classUnit u => u.companion = none → u.members.forwarders = []
  | _ => True

/-- Whether a unit is what some class file contributes. -/
def IsResolved (u : ResolvedUnit) : Prop :=
  ∃ (file : ClassFile) (policy : AccountingPolicy) (ledger : Ledger),
    file.resolve policy = .ok ⟨u, ledger⟩

end ResolvedUnit

namespace Binding

open Metadata (FunctionDecl ConstructorDecl PropertyDecl)

/-- No items give no results. -/
theorem mapM_nil_eq_ok {α β : Type} {f : α → Binding β} {c c' : Claims} {results : List β}
    (h : ([] : List α).mapM f c = .ok (results, c')) : results = [] := by
  rw [List.mapM_nil] at h
  exact (Prod.mk.inj (pure_eq_ok h)).1

/-- The static initializer of a class is one of its constructors, and without a companion object
nothing is taken for a forwarder. -/
theorem members_classLike {file : ClassFile} {isData isEnum hasCompanion : Bool}
    {functions : List FunctionDecl} {constructors : List ConstructorDecl}
    {properties : List PropertyDecl} {c c' : Claims} {m : Members}
    (h : members file (.classLike isData isEnum hasCompanion) functions constructors properties c
      = .ok (m, c')) : m.init = none ∧ (hasCompanion = false → m.forwarders = []) := by
  obtain ⟨run, hrun⟩ := exists_declaredRun h
  cases hrun with
  | classLike himplicit hlocals hgenerated hforwarders =>
    refine ⟨rfl, ?_⟩
    rintro rfl
    exact (Prod.mk.inj (pure_eq_ok hforwarders)).1

/-- Nothing at the top level of a file is a constructor. -/
theorem members_constructors {file : ClassFile} {functions : List FunctionDecl}
    {properties : List PropertyDecl} {c c' : Claims} {m : Members}
    (h : members file .facade functions [] properties c = .ok (m, c')) :
    m.constructors = [] := by
  obtain ⟨run, hrun⟩ := exists_declaredRun h
  cases hrun with
  | facade hlocals =>
    have hhelpers := run.constructorHelpers_run
    rw [mapM_nil_eq_ok run.constructors_run] at hhelpers
    exact mapM_nil_eq_ok hhelpers

end Binding

namespace ClassFile

open Metadata (ClassDecl Document)

/-- The members of a class have no initializer of a file's top level. -/
theorem bindClass_init {file : ClassFile} {policy : AccountingPolicy} {decl : ClassDecl}
    {m : Members} {l : Ledger} (h : file.bindClass policy decl = .ok (m, l)) : m.init = none := by
  obtain ⟨c', hrun⟩ := bind_run h
  exact (Binding.members_classLike hrun).1

/-- A class without a companion object has no forwarders. -/
theorem bindClass_forwarders {file : ClassFile} {policy : AccountingPolicy} {decl : ClassDecl}
    {m : Members} {l : Ledger} (h : file.bindClass policy decl = .ok (m, l))
    (hcompanion : decl.companion = none) : m.forwarders = [] := by
  obtain ⟨c', hrun⟩ := bind_run h
  exact (Binding.members_classLike hrun).2 (by rw [hcompanion]; rfl)

/-- What a class file contributes has the form of its kind. -/
theorem Contributes.fitsKind {file : ClassFile} {policy : AccountingPolicy} {document : Document}
    {r : Resolution} (h : file.Contributes policy document r) : r.unit.FitsKind := by
  cases h with
  | classUnit hbind | localClass kind origin hbind => exact bindClass_init hbind
  | facade hbind | part hbind =>
    obtain ⟨c', hrun⟩ := bind_run hbind
    exact Binding.members_constructors hrun
  | defaultImpls hname => exact Text.dropTail?_eq_some_iff.mp hname
  | lambda => rfl
  | compilerOnly => trivial

/-- What a class file contributes has forwarders only with a companion object. -/
theorem Contributes.forwardsToCompanion {file : ClassFile} {policy : AccountingPolicy}
    {document : Document} {r : Resolution} (h : file.Contributes policy document r) :
    r.unit.ForwardsToCompanion := by
  cases h with
  | classUnit hbind => exact bindClass_forwarders hbind
  | localClass => trivial
  | facade => trivial
  | part => trivial
  | defaultImpls => trivial
  | lambda => trivial
  | compilerOnly => trivial

end ClassFile

/-- What a class file contributes has the form of its kind. -/
theorem ResolvedUnit.IsResolved.fitsKind {u : ResolvedUnit} (h : u.IsResolved) : u.FitsKind := by
  obtain ⟨file, policy, ledger, h⟩ := h
  rcases ClassFile.resolve_cases h with hforeign | ⟨header, document, -, -, hcontributes⟩
  · obtain ⟨rfl, -⟩ := Resolution.mk.inj hforeign
    trivial
  · exact hcontributes.fitsKind

/-- What a class file contributes takes forwarders only to a companion object. -/
theorem ResolvedUnit.IsResolved.forwardsToCompanion {u : ResolvedUnit} (h : u.IsResolved) :
    u.ForwardsToCompanion := by
  obtain ⟨file, policy, ledger, h⟩ := h
  rcases ClassFile.resolve_cases h with hforeign | ⟨header, document, -, -, hcontributes⟩
  · obtain ⟨rfl, -⟩ := Resolution.mk.inj hforeign
    trivial
  · exact hcontributes.forwardsToCompanion

/-- A constructor with a line, as it may stand in a class file. -/
def lineConstructor : Method := ⟨0x1, ⟨"<init>", "()V"⟩, ⟨[3], List.pairwise_singleton _ _⟩⟩

/-- A class file that contributes a unit. -/
theorem ClassFile.isResolved (file : ClassFile) (policy : AccountingPolicy) {u : ResolvedUnit}
    (hunit : (file.resolve policy).toOption.map (·.unit) = some u) : u.IsResolved := by
  obtain ⟨⟨v, ledger⟩, hr, rfl⟩ := Option.map_eq_some_iff.mp hunit
  refine ⟨file, policy, ledger, ?_⟩
  cases h : file.resolve policy <;> simp_all [Except.toOption]

end LineAtlas
