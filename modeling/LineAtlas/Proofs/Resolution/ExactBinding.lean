import LineAtlas.Proofs.Resolution.Candidates

/-!
# Declared members and their methods

In a class that is no interface the members of a unit are exactly those that its metadata
declares, in the same order, and each is bound to a method with the signature that metadata gives,
no two to the same one. If a declared member has no method, the class file is not resolved, and
the failure names the first such member.
-/

namespace LineAtlas

open Metadata (Document PropertyDecl)

/-- Members that are just those declared, each with its methods. -/
structure Members.BindsExactly (m : Members) (file : ClassFile) (document : Document) : Prop where
  /-- Functions are the declared ones in the order of the metadata. -/
  functions : List.Forall₂ BoundFunction.Binds m.functions
    (document.functions.filter (·.kind == .declaration))
  /-- The first constructors are those of the metadata in their order. -/
  constructors : ∃ declared others, m.constructors = declared ++ others ∧
    List.Forall₂ BoundFunction.BindsConstructor declared document.constructors
  /-- Properties are the declared ones in the order of the metadata. -/
  properties : List.Forall₂ BoundProperty.Binds m.properties
    (document.properties.filter (·.kind == .declaration))
  /-- All their methods are methods of the class file, at different positions. -/
  apart : ∃ positions : List Nat, positions.Nodup ∧
    positions.map (fun i => file.methods[i]?.map Method.body) = m.bodies.map some

namespace Binding

variable {file : ClassFile} {c' : Claims}

/-- In a class that is no interface just the declared members are bound. -/
theorem members_binds {container : Container} {document : Document} {m : Members}
    (hclass : file.isInterface = false)
    (h : members file container document.functions document.constructors document.properties
      (Claims.ofMethods file.methods) = .ok (m, c')) : m.BindsExactly file document := by
  obtain ⟨run, hrun⟩ := exists_declaredRun h
  obtain ⟨others, hothers⟩ := hrun.constructors_eq
  refine ⟨?_, ⟨run.boundConstructors, _, hothers, ?_⟩, ?_, ?_⟩
  · have hcandidates : List.Forall₂ Candidate.Binds (run.functionCandidates.filterMap id)
        (document.functions.filter (·.kind == .declaration)) :=
      Lists.forall₂_filterMap (mapM_forall₂ (fun d c found c'
        (hd : function file d c = .ok (found, c')) =>
          ⟨function_binds hd, function_isSome hclass hd⟩) run.functions_run)
    obtain ⟨members, heq, hmembers, -⟩ :=
      functions_takeHelpers hcandidates run.functionHelpers_run
    rw [hrun.functions_eq, heq, List.forall₂_map_left_iff]
    exact hmembers.imp fun x d hx => hx.1
  · have hcandidates : List.Forall₂ Candidate.BindsConstructor
        (run.constructorCandidates.filterMap id) (document.constructors.filter fun _ => true) :=
      Lists.forall₂_filterMap (mapM_forall₂ (fun d c found c'
        (hd : constructor file d c = .ok (found, c')) =>
          ⟨constructor_binds hd, (constructor_isSome hd).resolve_left (by simp [hclass])⟩)
        run.constructors_run)
    rw [List.filter_true] at hcandidates
    obtain ⟨members, heq, hmembers, -⟩ :=
      constructors_takeHelpers hcandidates run.constructorHelpers_run
    rw [heq, List.forall₂_map_left_iff]
    exact hmembers.imp fun x d hx => hx.1
  · rw [hrun.properties_eq]
    refine Lists.forall₂_filterMap ?_
    exact mapM_forall₂ (fun d c found c' (hd : property file d c = .ok (found, c')) =>
      property_binds hclass hd) run.properties_run
  · have hclose : c'.close file .lenient = .ok (c'.classifyRest.ledger file) := rfl
    obtain ⟨positions, hnodup, hbodies, -⟩ :=
      (Claims.close_accountsFor (members_carries h) hclose).1.positions
    exact ⟨positions, hnodup, hbodies⟩

end Binding

/-- The members of a unit, if it lists any. -/
def ResolvedUnit.members? : ResolvedUnit → Option Members
  | .classUnit u => some u.members
  | .localClass u => some u.members
  | .facade u => some u.members
  | .defaultImpls _ | .opaqueUnit | .foreign => none

/-- Whether a document lists the members of its class file. -/
def Metadata.Document.listsMembers : Document → Bool
  | .classDecl _ | .fileFacade _ | .multiFilePart _ _ => true
  | .syntheticClass _ | .multiFileFacade _ | .unknown _ _ => false

/-- What the members of a document ask for, in order. -/
def Metadata.Document.requests (document : Document) : List Request :=
  Request.ofMembers document.functions document.constructors document.properties

namespace ClassFile

open Metadata (ClassDecl)

variable {file : ClassFile} {policy : AccountingPolicy} {document : Document}
  {segments : List String}

/-- A class file whose name can be split has an origin. -/
theorem origin_ok (hname : Mangled.split file.simpleName = .ok segments) :
    ∃ origin, file.origin = .ok origin := by
  unfold origin
  split
  · exact ⟨_, rfl⟩
  · rw [show file.nameSegments = .ok segments by rw [nameSegments, hname]]
    exact ⟨_, rfl⟩

/-- What a class file contributes comes from its members, if its metadata lists any. -/
theorem resolveDocument_eq_bind (policy : AccountingPolicy)
    (hname : Mangled.split file.simpleName = .ok segments)
    (hlists : document.listsMembers = true) :
    ∃ (container : Binding.Container) (unit : Members → ResolvedUnit),
      (∀ m, (unit m).members? = some m) ∧
      file.resolveDocument policy document
        = (file.bind policy (Binding.members file container document.functions
            document.constructors document.properties)).map fun bound =>
              ⟨unit bound.1, bound.2⟩ := by
  have hsegments : file.nameSegments = .ok segments := by rw [nameSegments, hname]
  obtain ⟨origin, horigin⟩ := origin_ok hname
  cases document with
  | classDecl decl =>
    refine ⟨.classLike decl.isData (decl.kind == .enumClass) decl.companion.isSome, ?_⟩
    rw [resolveDocument]
    split
    · refine ⟨fun m => .localClass ⟨file.name, localKind segments, origin, m⟩, fun _ => rfl, ?_⟩
      change _ = (file.bindClass policy decl).map _
      unfold resolveLocalClass
      rw [hsegments, horigin]
      cases file.bindClass policy decl <;> rfl
    · refine ⟨fun m => .classUnit {
        jvmName := file.name, declaredName := ClassName.ofMetadata decl.name,
        isObject := decl.kind.isObject, isData := decl.isData,
        isInterface := decl.kind == .interface, companion := decl.companion, members := m },
        fun _ => rfl, ?_⟩
      change _ = (file.bindClass policy decl).map _
      unfold resolveClass
      rw [hsegments]
      cases file.bindClass policy decl <;> rfl
  | fileFacade package | multiFilePart facade package =>
    refine ⟨.facade, fun m => .facade ⟨file.name, m⟩, fun _ => rfl, ?_⟩
    rw [resolveDocument, resolveFacade]
    cases hbind : file.bind policy _ <;>
      simp only [Document.functions, Document.constructors, Document.properties, hbind] <;> rfl
  | syntheticClass _ => simp [Document.listsMembers] at hlists
  | multiFileFacade _ => simp [Document.listsMembers] at hlists
  | unknown _ _ => simp [Document.listsMembers] at hlists

/-- Binding fails when its rules do, before the policy is asked. -/
theorem bind_of_error {binding : Binding Members} {failure : Failure}
    (h : binding (Claims.ofMethods file.methods) = .error failure) :
    file.bind policy binding = .error failure := by
  unfold bind
  rw [StateT.run, h]
  rfl

/-- Members that are bound are accepted if nobody minds methods that fit no rule. -/
theorem bind_lenient {binding : Binding Members} {m : Members} {c' : Claims}
    (h : binding (Claims.ofMethods file.methods) = .ok (m, c')) :
    file.bind .lenient binding = .ok (m, c'.classifyRest.ledger file) := by
  unfold bind
  rw [StateT.run, h]
  rfl

/-- A class file with metadata that decodes is resolved by what the metadata says. -/
theorem resolve_of_document? (hdocument : file.document? = some document) :
    file.resolve policy = file.resolveDocument policy document := by
  obtain ⟨header, hheader, hdecode⟩ := Option.bind_eq_some_iff.mp hdocument
  unfold resolve
  cases hresult : header.decode with
  | error cause => simp [hresult, Except.toOption] at hdecode
  | ok found =>
    rw [hresult] at hdecode
    obtain rfl := Option.some.inj hdecode
    simp only [hheader, hresult]

/-- Declared members bind exactly. In a class that is no interface, with metadata that lists
members, the members of the unit are the declared ones in the order of the metadata, each with a
method of its signature, no two with the same one. If the request of a declared member finds no
method, resolving fails and names the first such request; if there is none, nothing but methods
that fit no rule can make it fail. -/
theorem resolve_bindsExactly (policy : AccountingPolicy) (hclass : file.isInterface = false)
    (hname : Mangled.split file.simpleName = .ok segments)
    (hdocument : file.document? = some document) (hlists : document.listsMembers = true) :
    (∀ r, file.resolve policy = .ok r →
      ∃ m, r.unit.members? = some m ∧ m.BindsExactly file document) ∧
    (∀ request, Request.firstUnmet? file.methods document.requests = some request →
      file.resolve policy = .error (.unresolvedSignature file.name request.wanted)) ∧
    (Request.firstUnmet? file.methods document.requests = none →
      ∃ r, file.resolve .lenient = .ok r) := by
  have hmakes (container : Binding.Container) := Binding.makes_members file container
    document.functions document.constructors document.properties
    (Claims.ofMethods file.methods)
  simp only [firstUnmet?, hclass, Claims.left_ofMethods] at hmakes
  refine ⟨fun r hr => ?_, fun request hunmet => ?_, fun hmet => ?_⟩
  · obtain ⟨container, unit, hunit, heq⟩ := resolveDocument_eq_bind policy hname hlists
    rw [resolve_of_document? hdocument, heq] at hr
    obtain ⟨⟨m, ledger⟩, hbound, rfl⟩ := Except.map_eq_ok hr
    obtain ⟨c', hrun⟩ := bind_run hbound
    exact ⟨m, hunit m, Binding.members_binds hclass hrun⟩
  · obtain ⟨container, unit, -, heq⟩ := resolveDocument_eq_bind policy hname hlists
    have hfails := hmakes container
    rw [show Request.ofMembers _ _ _ = document.requests from rfl, if_neg Bool.false_ne_true,
      hunmet] at hfails
    rw [resolve_of_document? hdocument, heq, bind_of_error hfails]
    rfl
  · obtain ⟨container, unit, -, heq⟩ := resolveDocument_eq_bind .lenient hname hlists
    have hsucceeds := hmakes container
    rw [show Request.ofMembers _ _ _ = document.requests from rfl, if_neg Bool.false_ne_true,
      hmet] at hsucceeds
    obtain ⟨m, c', hrun, -⟩ := hsucceeds
    rw [resolve_of_document? hdocument, heq, bind_lenient hrun]
    exact ⟨_, rfl⟩

/-- A class with a constructor, a function `area` and a property `x`, and some methods. -/
def pointClass (methods : List Method) : ClassFile :=
  { name := "Point", superName := none, interfaces := [], access := 0x21, sourceFile := none
    enclosing := none, fields := [], methods
    annotations := [⟨"Lkotlin/Metadata;", [("k", .int 1), ("mv", .array [.int 1, .int 9]),
      ("d1", .array [.string
        "\x00\x00\x08\x06\x18\x00B\x07\x08\x06¢\x06\x02\x10\x01J\x0bH\x06\x10\x02¢\x06\x04\x08\x02\x10\x03",
        .string "R\x0eX\x86\x04\x10\x06¢\x06\x06\x1a\x04\x08\x04\x10\x05"]),
      ("d2", .array [.string "Point", .string "(I)V", .string "area", .string "()D",
        .string "getX", .string "()I", .string "x"])]⟩] }

/-- The methods that the members of the class ask for, in another order. -/
def pointMethods : List Method :=
  let line (n : LineNumber) : LineSet := .ofList [n]
  [⟨0x1, ⟨"getX", "()I"⟩, line 1⟩, ⟨0x1, ⟨"<init>", "(I)V"⟩, line 1⟩,
    ⟨0x1, ⟨"area", "()D"⟩, line 2⟩]

/-- With all its methods the class is resolved and each member has its own; when only the getter
is left, the function is the first member to miss its method. -/
theorem resolve_bindsExactly_point :
    (∃ r m document, (pointClass pointMethods).resolve .strict = .ok r ∧
      r.unit.members? = some m ∧ m.BindsExactly (pointClass pointMethods) document) ∧
    (pointClass (pointMethods.take 1)).resolve .strict
      = .error (.unresolvedSignature "Point" "area()D") := by
  have hclass (methods : List Method) : (pointClass methods).isInterface = false := by
    change Nat.testBit 0x21 9 = false
    decide
  have hname (methods : List Method) :
      Mangled.split (pointClass methods).simpleName = .ok ["Point"] := by
    change Mangled.split (simpleNameOf "Point") = .ok ["Point"]
    decide +kernel
  constructor
  · have hread : (pointClass pointMethods).document?.map Document.listsMembers = some true := by
      decide +kernel
    obtain ⟨document, hdocument, hlists⟩ := Option.map_eq_some_iff.mp hread
    have hresolves : ((pointClass pointMethods).resolve .strict).toOption.isSome = true := by
      decide +kernel
    cases hr : (pointClass pointMethods).resolve .strict with
    | error failure => simp [hr, Except.toOption] at hresolves
    | ok r =>
      have hexact := resolve_bindsExactly .strict (hclass _) (hname _) hdocument hlists
      obtain ⟨m, hm, hbinds⟩ := hexact.1 r hr
      exact ⟨r, m, document, rfl, hm, hbinds⟩
  · have hread : (pointClass (pointMethods.take 1)).document?.map (fun document =>
        (document.listsMembers,
          (Request.firstUnmet? (pointMethods.take 1) document.requests).map Request.wanted))
          = some (true, some "area()D") := by
      decide +kernel
    obtain ⟨document, hdocument, hlists⟩ := Option.map_eq_some_iff.mp hread
    obtain ⟨hlists, hunmet⟩ := Prod.mk.inj hlists
    obtain ⟨request, hrequest, hwanted⟩ := Option.map_eq_some_iff.mp hunmet
    rw [← hwanted]
    exact (resolve_bindsExactly .strict (hclass _) (hname _) hdocument hlists).2.1 request
      hrequest

end ClassFile

end LineAtlas
