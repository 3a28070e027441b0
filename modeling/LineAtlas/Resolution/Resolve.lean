import LineAtlas.Metadata.Header
import LineAtlas.Resolution.Binding

/-!
# Resolving class files

A class file is resolved on its own: its metadata tells what it declares, and every method
gets a role. Any failure concerns this class only.
-/

namespace LineAtlas

namespace ClassFile

open Metadata (ClassDecl PackageDecl FunctionDecl Document Header)

/-- Ending of the names of holders of interface bodies. -/
def defaultImplsSuffix : String := "$DefaultImpls"

/-- The segments of the class's name without its package. -/
def nameSegments (file : ClassFile) : Except Failure (List String) :=
  match Mangled.split file.simpleName with
  | .ok segments => .ok segments
  | .error cause => .error (.malformedName cause)

/-- The place where a local class is declared. Without an attribute that says so, it is an
initializer of the class that the mangled name gives. -/
def origin (file : ClassFile) : Except Failure Origin :=
  match file.enclosing with
  | some place => .ok ⟨place.className, place.method⟩
  | none => do
    let outer := Mangled.join (← file.nameSegments).dropLast
    let package := file.packagePath
    return ⟨if package.isEmpty then outer else package ++ "/" ++ outer, none⟩

/-- Members bound in a class file, and the roles of its methods. -/
def bind (file : ClassFile) (policy : AccountingPolicy) (binding : Binding Members) :
    Except Failure (Members × Ledger) := do
  let (members, claims) ← binding.run (Claims.ofMethods file.methods)
  return (members, ← claims.close file policy)

/-- The members of a declared class. -/
def bindClass (file : ClassFile) (policy : AccountingPolicy) (decl : ClassDecl) :
    Except Failure (Members × Ledger) :=
  file.bind policy (Binding.members file
    (.classLike decl.isData (decl.kind == .enumClass) decl.companion.isSome)
    decl.functions decl.constructors decl.properties)

/-- A class with a name of its own. -/
def resolveClass (file : ClassFile) (policy : AccountingPolicy) (decl : ClassDecl) :
    Except Failure Resolution := do
  let _ ← file.nameSegments
  let (members, ledger) ← file.bindClass policy decl
  return ⟨.classUnit {
    jvmName := file.name, declaredName := ClassName.ofMetadata decl.name,
    isObject := decl.kind.isObject, isData := decl.isData,
    isInterface := decl.kind == .interface, companion := decl.companion, members }, ledger⟩

/-- How a local class is shown: by the last segment of its name, unless that is a number. -/
def localKind (segments : List String) : LocalKind :=
  let last := segments.getLast?.getD ""
  if LocalName.isNumeric last then .anonymous else .named last

/-- A class declared in a function body. -/
def resolveLocalClass (file : ClassFile) (policy : AccountingPolicy) (decl : ClassDecl) :
    Except Failure Resolution := do
  let segments ← file.nameSegments
  let (members, ledger) ← file.bindClass policy decl
  let origin ← file.origin
  return ⟨.localClass ⟨file.name, localKind segments, origin, members⟩, ledger⟩

/-- The top level of a file. -/
def resolveFacade (file : ClassFile) (policy : AccountingPolicy) (package : PackageDecl) :
    Except Failure Resolution := do
  let (members, ledger) ← file.bind policy
    (Binding.members file .facade package.functions [] package.properties)
  return ⟨.facade ⟨file.name, members⟩, ledger⟩

/-- The methods of a lambda class that can be its body: those with lines. -/
def lambdaCandidates (file : ClassFile) : List Method :=
  file.methods.filter (!·.lines.isEmpty)

/-- A lambda in a class of its own, with its only method with lines as its body. -/
def resolveLambda (file : ClassFile) (policy : AccountingPolicy) :
    Except Failure Resolution := do
  match file.lambdaCandidates with
  | [] => throw (.missingLambdaMethod file.name)
  | [method] =>
    let (members, ledger) ← file.bind policy do
      let _ ← Binding.all .lambdaBody (!·.lines.isEmpty)
      return {
        functions := [⟨method.signature.name, none, false, method.body, none⟩] }
    let origin ← file.origin
    return ⟨.localClass ⟨file.name, .lambda, origin, members⟩, ledger⟩
  | candidates =>
    throw (.severalLambdaMethods file.name (candidates.map (·.signature.display)))

/-- The ledger of a class whose methods all have the same role. -/
def uniformLedger (file : ClassFile) (role : Role) : Ledger :=
  ((Claims.ofMethods file.methods).takeAll role fun _ => true).2.ledger file

/-- The holder of the bodies of interface methods. -/
def resolveDefaultImpls (file : ClassFile) (interfaceName : String) : Resolution :=
  ⟨.defaultImpls ⟨file.name, interfaceName, file.methods.map Method.body⟩,
    file.uniformLedger .defaultImpl⟩

/-- A class about which only the compiler knows. -/
def resolveOpaque (file : ClassFile) : Resolution :=
  ⟨.opaqueUnit, file.uniformLedger .compilerSynthetic⟩

/-- A version as it is shown. -/
def showVersion (version : List Int) : String :=
  "[" ++ ", ".intercalate (version.map toString) ++ "]"

/-- What a class file with given metadata contributes. -/
def resolveDocument (file : ClassFile) (policy : AccountingPolicy) :
    Document → Except Failure Resolution
  | .classDecl decl =>
    if decl.isLocal then file.resolveLocalClass policy decl else file.resolveClass policy decl
  | .fileFacade package | .multiFilePart _ package => file.resolveFacade policy package
  | .syntheticClass lambda =>
    match Text.dropTail? defaultImplsSuffix file.name, lambda with
    | some interfaceName, _ => .ok (file.resolveDefaultImpls interfaceName)
    | none, some f =>
      if f.kind == .declaration then file.resolveLambda policy else .ok file.resolveOpaque
    | none, none => .ok file.resolveOpaque
  | .multiFileFacade _ => .ok file.resolveOpaque
  | .unknown kind version =>
    .error (.unsupportedMetadata file.name
      ("kind " ++ toString kind ++ " with metadata version " ++ showVersion version))

/-- What a class file contributes. A class file without metadata is foreign. -/
def resolve (file : ClassFile) (policy : AccountingPolicy) : Except Failure Resolution :=
  match Header.ofClass? file with
  | none => .ok ⟨.foreign, .unclassified file.name⟩
  | some header =>
    match header.decode with
    | .error cause => .error (.unsupportedMetadata file.name cause.message)
    | .ok document => file.resolveDocument policy document

end ClassFile

end LineAtlas
