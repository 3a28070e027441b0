import LineAtlas.Proofs.Resolution.ExactBinding

/-!
# Helpers of members

Which method becomes the helper of a member is decided by signatures alone: after all methods of
declarations are taken, each function and then each constructor takes the first method that is
left and fits. Metadata says which value parameters have a default value, but nothing asks for
that. So members without any can have a helper, exactly when one that fits is left for them.
-/

namespace LineAtlas

open Metadata (Document)

/-- Whether a value parameter of a member is declared with a default value. -/
def DeclaredMember.hasDefault (x : DeclaredMember) : Bool := x.parameters.any (·.hasDefault)

/-- The members of a unit that declarations of a document became. All others have no helper. -/
inductive Members.ComeFrom (document : Document) : Members → List DeclaredMember → Prop
  /-- Functions and constructors, and methods that count as constructors without being declared. -/
  | declared {m : Members} {functions constructors : List DeclaredMember} (others : List Body)
      (hfunctions : m.functions = functions.map DeclaredMember.function)
      (hconstructors : m.constructors
        = constructors.map DeclaredMember.function ++ others.map Binding.implicitFunction)
      (hbinds : List.SublistForall₂ DeclaredMember.Binds functions document.functions)
      (hconstructs : List.SublistForall₂ DeclaredMember.BindsConstructor constructors
        document.constructors) :
      Members.ComeFrom document m (functions ++ constructors)
  /-- The only function of a lambda class. -/
  | lambda (name : String) (body : Body) :
      Members.ComeFrom document { functions := [⟨name, none, false, body, none⟩] } []

/-- Only what declarations became has helpers. -/
theorem Members.ComeFrom.mem_of_defaultValues {document : Document} {m : Members}
    {members : List DeclaredMember} (h : m.ComeFrom document members) {f : BoundFunction}
    (hf : f ∈ m.functions ++ m.constructors) (hsome : f.defaultValues.isSome = true) :
    f ∈ members.map DeclaredMember.function := by
  cases h with
  | declared others hfunctions hconstructors _ _ =>
    rw [List.map_append, ← hfunctions]
    rw [hconstructors, ← List.append_assoc] at hf
    rcases List.mem_append.mp hf with hf | hf
    · exact hf
    · obtain ⟨body, -, rfl⟩ := List.mem_map.mp hf
      simp [Binding.implicitFunction] at hsome
  | lambda name body =>
    obtain rfl : f = ⟨name, none, false, body, none⟩ := by simpa using hf
    simp at hsome

namespace DeclaredMember

/-- In a list of members each takes the first helper that is left by those before it. -/
theorem TakeHelpers.defaultValues {left : List Method} {before after : List DeclaredMember}
    {x : DeclaredMember} (h : TakeHelpers left (before ++ x :: after)) :
    x.function.defaultValues = ((leaveHelpers left before).find? x.isHelper).map Method.body :=
  (takeHelpers_append.mp h).2.1

/-- Helpers belong to members with default values exactly if no method that fits is left for a
member without any. -/
theorem TakeHelpers.hasDefault_iff {left : List Method} {members : List DeclaredMember}
    (h : TakeHelpers left members) :
    (∀ x ∈ members, x.function.defaultValues.isSome = true → x.hasDefault = true) ↔
      ∀ before x after, members = before ++ x :: after → x.hasDefault = false →
        ∀ method ∈ leaveHelpers left before, x.isHelper method = false := by
  constructor
  · rintro hall before x after rfl hnone method hmethod
    have hempty : x.function.defaultValues = none := by
      by_contra hsome
      have hdefault := hall x (by simp) (Option.isSome_iff_ne_none.mpr hsome)
      simp [hnone] at hdefault
    rw [h.defaultValues, Option.map_eq_none_iff, List.find?_eq_none] at hempty
    exact eq_false_of_ne_true (hempty method hmethod)
  · intro hall x hx hsome
    obtain ⟨before, after, rfl⟩ := List.append_of_mem hx
    by_contra hnone
    rw [h.defaultValues, Option.isSome_map, List.find?_isSome] at hsome
    obtain ⟨method, hmethod, hhelper⟩ := hsome
    have hfits := hall before x after rfl (eq_false_of_ne_true hnone) method hmethod
    simp [hhelper] at hfits

end DeclaredMember

namespace Binding

open DeclaredMember (TakeHelpers)
open Metadata (FunctionDecl ConstructorDecl PropertyDecl)

/-- Members come from what is declared, and take their helpers from the methods that no
declaration asks for. -/
theorem members_takeHelpers {file : ClassFile} {container : Container} {document : Document}
    {m : Members} {c' : Claims}
    (h : members file container document.functions document.constructors document.properties
      (Claims.ofMethods file.methods) = .ok (m, c')) :
    ∃ members, m.ComeFrom document members ∧
      TakeHelpers (Request.leave file.methods document.requests) members := by
  obtain ⟨run, hrun⟩ := exists_declaredRun h
  obtain ⟨others, hothers⟩ := hrun.constructors_eq
  have hleft : run.c₃.left = Request.leave file.methods document.requests := by
    rw [(makesJust_mapM (makesJust_property file) _).left_eq run.properties_run,
      (makesJust_mapM (makesJust_constructor file) _).left_eq run.constructors_run,
      (makesJust_mapM (makesJust_function file) _).left_eq run.functions_run,
      Claims.left_ofMethods, ← Request.leave_append, ← Request.leave_append]
    simp [Document.requests, Request.ofMembers, ← List.map_eq_flatMap]
  obtain ⟨found, hfound, hsublist⟩ := List.sublistForall₂_iff.mp (mapM_filterMap_order
    (R := Candidate.Binds) (fun _ _ _ _ => function_binds) run.functions_run)
  obtain ⟨built, hbuilt, hsublist'⟩ := List.sublistForall₂_iff.mp (mapM_filterMap_order
    (R := Candidate.BindsConstructor) (fun _ _ _ _ => constructor_binds) run.constructors_run)
  obtain ⟨functions, hf, hbinds, htake, hleave⟩ :=
    functions_takeHelpers hfound run.functionHelpers_run
  obtain ⟨constructors, hc, hconstructs, htake', -⟩ :=
    constructors_takeHelpers hbuilt run.constructorHelpers_run
  refine ⟨functions ++ constructors,
    .declared others (hrun.functions_eq.trans hf) (hc ▸ hothers)
      (List.sublistForall₂_iff.mpr ⟨found, hbinds, hsublist⟩)
      (List.sublistForall₂_iff.mpr ⟨built, hconstructs, hsublist'⟩), ?_⟩
  rw [DeclaredMember.takeHelpers_append, ← hleft]
  exact ⟨htake, hleave ▸ htake'⟩

end Binding

namespace ClassFile

open DeclaredMember (TakeHelpers leaveHelpers)

variable {file : ClassFile} {policy : AccountingPolicy} {document : Document} {r : Resolution}
  {m : Members}

/-- The members of a unit are bound by the rules for members, unless it is a lambda with its one
function. -/
theorem resolveDocument_members (h : file.resolveDocument policy document = .ok r)
    (hm : r.unit.members? = some m) :
    (∃ container c', Binding.members file container document.functions document.constructors
      document.properties (Claims.ofMethods file.methods) = .ok (m, c')) ∨
    ∃ name body, m = { functions := [⟨name, none, false, body, none⟩] } := by
  cases contributes_of_resolveDocument h with
  | classUnit hbind | localClass kind origin hbind | facade hbind | part hbind =>
    obtain rfl := Option.some.inj hm
    exact Or.inl ⟨_, bind_run hbind⟩
  | lambda origin hcandidates hbind =>
    obtain rfl := Option.some.inj hm
    exact Or.inr ⟨_, _, rfl⟩
  | defaultImpls | compilerOnly =>
    simp [resolveDefaultImpls, resolveOpaque, ResolvedUnit.members?] at hm

/-- A unit with members comes from a document. -/
theorem exists_document? (h : file.resolve policy = .ok r) (hm : r.unit.members? = some m) :
    ∃ document, file.document? = some document ∧ file.resolveDocument policy document = .ok r := by
  unfold resolve at h
  split at h
  · obtain rfl := Except.ok.inj h
    simp [ResolvedUnit.members?] at hm
  · next header hheader =>
    split at h
    · simp at h
    · next document hdecode =>
      refine ⟨document, ?_, h⟩
      rw [document?, hheader, Option.bind_some, hdecode]
      rfl

/-- A function or constructor has as its helper the first method that fits, among those that no
declaration asks for and no member before it has taken, whether or not a default value is
declared. So all helpers belong to members with default values exactly if no method that fits is
left for a member without any. -/
theorem resolve_takesHelpers (h : file.resolve policy = .ok r) (hm : r.unit.members? = some m) :
    ∃ document members, file.document? = some document ∧ m.ComeFrom document members ∧
      (∀ before x after, members = before ++ x :: after →
        x.function.defaultValues
          = ((leaveHelpers (Request.leave file.methods document.requests) before).find?
              x.isHelper).map Method.body) ∧
      ((∀ x ∈ members, x.function.defaultValues.isSome = true → x.hasDefault = true) ↔
        ∀ before x after, members = before ++ x :: after → x.hasDefault = false →
          ∀ method ∈ leaveHelpers (Request.leave file.methods document.requests) before,
            x.isHelper method = false) := by
  obtain ⟨document, hdocument, h⟩ := exists_document? h hm
  rcases resolveDocument_members h hm with ⟨container, c', hrun⟩ | ⟨name, body, rfl⟩
  · obtain ⟨members, hcome, htake⟩ := Binding.members_takeHelpers hrun
    exact ⟨document, members, hdocument, hcome,
      fun before x after heq => (heq ▸ htake).defaultValues, htake.hasDefault_iff⟩
  · exact ⟨document, [], hdocument, .lambda name body, by simp, by simp⟩

/-- A class with two functions `f`: the first takes an instance of the class and a string, and the
second only a string, which has a default value. The method at the end is the helper of the
second. -/
def overloadedClass : ClassFile :=
  let line (n : LineNumber) : LineSet := .ofList [n]
  { name := "A", superName := some "java/lang/Object", interfaces := [], access := 0x21
    sourceFile := none, enclosing := none, fields := []
    methods := [⟨0x1, ⟨"<init>", "()V"⟩, line 1⟩,
      ⟨0x1, ⟨"f", "(LA;Ljava/lang/String;)V"⟩, line 2⟩,
      ⟨0x1, ⟨"f", "(Ljava/lang/String;)V"⟩, line 3⟩,
      ⟨0x1009, ⟨"f$default", "(LA;Ljava/lang/String;ILjava/lang/Object;)V"⟩, line 3⟩]
    annotations := [⟨"Lkotlin/Metadata;", [("k", .int 1), ("mv", .array [.int 1, .int 9]),
      ("d1", .array [.string "\x00\x00\x08\x06\x18\x00B\x07\x08\x06¢\x06\x02\x10\x01",
        .string "J\x17H\x06\x10\x042\x04\x08\x00\x10\x022\x04\x08\x00\x10\x03¢\x06\x04\x08\x04\x10\x05",
        .string "J\x11H\x06\x10\x042\x04\x08\x02\x10\x03¢\x06\x04\x08\x04\x10\x06"]),
      ("d2", .array [.string "A", .string "()V", .string "a", .string "b", .string "f",
        .string "(LA;Ljava/lang/String;)V", .string "(Ljava/lang/String;)V"])]⟩] }

/-- What the functions of the class are bound to, and whether they have a helper. -/
theorem resolve_overloadedClass :
    ∃ r m, overloadedClass.resolve .strict = .ok r ∧ r.unit.members? = some m ∧
      m.functions.map (fun f => (f.body.signature, f.defaultValues.isSome))
        = [(⟨"f", "(LA;Ljava/lang/String;)V"⟩, true), (⟨"f", "(Ljava/lang/String;)V"⟩, false)] := by
  have hfound : ((overloadedClass.resolve .strict).toOption.bind fun r => r.unit.members?).map
      (fun m => m.functions.map fun f => (f.body.signature, f.defaultValues.isSome))
        = some [(⟨"f", "(LA;Ljava/lang/String;)V"⟩, true),
            (⟨"f", "(Ljava/lang/String;)V"⟩, false)] := by
    decide +kernel
  obtain ⟨m, hm, hfunctions⟩ := Option.map_eq_some_iff.mp hfound
  obtain ⟨r, hr, hm⟩ := Option.bind_eq_some_iff.mp hm
  refine ⟨r, m, ?_, hm, hfunctions⟩
  cases h : overloadedClass.resolve .strict <;> simp_all [Except.toOption]

/-- The helper of the second function is taken by the first one, which declares no default
value. -/
theorem exists_helper_without_default :
    ∃ r m document, overloadedClass.resolve .strict = .ok r ∧ r.unit.members? = some m ∧
      overloadedClass.document? = some document ∧
      ∃ f ∈ m.functions, f.defaultValues.isSome = true ∧
        ∀ d ∈ document.functions, f.Binds d → ∀ p ∈ d.parameters, p.hasDefault = false := by
  obtain ⟨r, m, hr, hm, hfunctions⟩ := resolve_overloadedClass
  have hread : overloadedClass.document?.map (fun document => document.functions.all fun d =>
      d.signature != some ⟨"f", "(LA;Ljava/lang/String;)V"⟩
        || d.parameters.all fun p => !p.hasDefault) = some true := by
    decide +kernel
  obtain ⟨document, hdocument, hall⟩ := Option.map_eq_some_iff.mp hread
  obtain ⟨f, rest, hcons, hf, -⟩ := List.map_eq_cons_iff.mp hfunctions
  obtain ⟨hsignature, hhelper⟩ := Prod.mk.inj hf
  refine ⟨r, m, document, hr, hm, hdocument, f, hcons ▸ List.mem_cons_self, hhelper,
    fun d hd hbinds => ?_⟩
  have hnone := List.all_eq_true.mp hall d hd
  rw [hbinds.signature, hsignature] at hnone
  simpa using hnone

/-- All members of the class have the helpers that are left for them, and one of them has any. -/
theorem resolve_takesHelpers_overloadedClass :
    ∃ r m document members, overloadedClass.resolve .strict = .ok r ∧
      r.unit.members? = some m ∧ m.ComeFrom document members ∧
      (∃ x ∈ members, x.function.defaultValues.isSome = true) ∧
      ∀ before x after, members = before ++ x :: after →
        x.function.defaultValues = ((leaveHelpers (Request.leave overloadedClass.methods
          document.requests) before).find? x.isHelper).map Method.body := by
  obtain ⟨r, m, hr, hm, hfunctions⟩ := resolve_overloadedClass
  obtain ⟨document, members, -, hcome, htake, -⟩ := resolve_takesHelpers hr hm
  obtain ⟨f, rest, hcons, hf, -⟩ := List.map_eq_cons_iff.mp hfunctions
  have hsome : f.defaultValues.isSome = true := (Prod.mk.inj hf).2
  have hmem : f ∈ m.functions ++ m.constructors := by simp [hcons]
  obtain ⟨x, hx, rfl⟩ := List.mem_map.mp (hcome.mem_of_defaultValues hmem hsome)
  exact ⟨r, m, document, members, hr, hm, hcome, ⟨x, hx, hsome⟩, htake⟩

end ClassFile

end LineAtlas
