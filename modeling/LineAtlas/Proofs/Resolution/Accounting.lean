import LineAtlas.Proofs.Resolution.Claims
import LineAtlas.Proofs.Resolution.Rules

/-!
# Accounting for every method

The methods that a resolved unit carries are exactly those with roles of the report. Every rule
carries what it gives such a role, so the whole binding does, and closing the ledger adds only
methods that stay out of the report.
-/

namespace LineAtlas

/-- The methods that a function carries: its own and that of its helper. -/
def BoundFunction.bodies (f : BoundFunction) : List Body := f.body :: f.defaultValues.toList

/-- The methods that a property carries. -/
def BoundProperty.bodies (p : BoundProperty) : List Body := p.getter.toList ++ p.setter.toList

/-- The methods that members carry into the report. Forwarders are only compared with members
of the companion object, so they are not among them. -/
def Members.bodies (m : Members) : List Body :=
  m.functions.flatMap BoundFunction.bodies ++ m.constructors.flatMap BoundFunction.bodies
    ++ m.properties.flatMap BoundProperty.bodies ++ m.locals ++ m.init.toList

/-- The methods that a unit carries into the report. -/
def ResolvedUnit.bodies : ResolvedUnit → List Body
  | .classUnit u => u.members.bodies
  | .localClass u => u.members.bodies
  | .facade u => u.members.bodies
  | .defaultImpls u => u.methods
  | .opaqueUnit | .foreign => []

namespace Binding

open Metadata (FunctionDecl ConstructorDecl PropertyDecl)

/-- A rule that runs for every item carries what it carries for each of them. -/
theorem mapM_carries {α β : Type} {f : α → Binding β} {g : β → List Body}
    (hf : ∀ a c b c', f a c = .ok (b, c') → Claims.Carries c c' (g b)) (items : List α)
    {c c' : Claims} {results : List β} (h : items.mapM f c = .ok (results, c')) :
    Claims.Carries c c' (results.flatMap g) := by
  induction items generalizing c c' results with
  | nil =>
    rw [List.mapM_nil] at h
    obtain ⟨rfl, rfl⟩ := Prod.mk.inj (pure_eq_ok h)
    exact Claims.Carries.refl _
  | cons a rest ih =>
    rw [List.mapM_cons] at h
    obtain ⟨b, c₁, hb, h⟩ := bind_eq_ok h
    obtain ⟨bs, c₂, hbs, h⟩ := bind_eq_ok h
    obtain ⟨rfl, rfl⟩ := Prod.mk.inj (pure_eq_ok h)
    rw [List.flatMap_cons]
    exact (hf _ _ _ _ hb).trans (ih hbs)

/-- Taking the first method of a kind carries it if its role is one of the report. -/
theorem first?_carries {role : Role} {kind : Method → Bool} {c c' : Claims}
    {found : Option Body} (hrole : role ≠ .unaccounted)
    (h : first? role kind c = .ok (found, c')) :
    Claims.Carries c c' (if role.isBound then found.toList else []) := by
  unfold first? at h
  split at h
  · next body c₁ htake =>
    obtain ⟨rfl, rfl⟩ := Prod.mk.inj (Except.ok.inj h)
    simpa using Claims.takeFirst?_carries hrole htake
  · obtain ⟨rfl, rfl⟩ := Prod.mk.inj (Except.ok.inj h)
    simpa using Claims.Carries.refl _

/-- Taking all methods of a kind carries them if their role is one of the report. -/
theorem all_carries {role : Role} {kind : Method → Bool} {c c' : Claims} {found : List Body}
    (hrole : role ≠ .unaccounted) (h : all role kind c = .ok (found, c')) :
    Claims.Carries c c' (if role.isBound then found else []) := by
  obtain ⟨rfl, rfl⟩ := Prod.mk.inj (Except.ok.inj h)
  exact Claims.takeAll_carries c kind hrole

/-- Taking a method by its signature carries it if its role is one of the report. -/
theorem withSignature?_carries {role : Role} {signature : Option Signature} {c c' : Claims}
    {found : Option Body} (hrole : role ≠ .unaccounted)
    (h : withSignature? role signature c = .ok (found, c')) :
    Claims.Carries c c' (if role.isBound then found.toList else []) := by
  cases signature with
  | none =>
    obtain ⟨rfl, rfl⟩ := Prod.mk.inj (pure_eq_ok h)
    simpa using Claims.Carries.refl _
  | some signature => exact first?_carries hrole h

/-- A declared member carries its method, if it has one. -/
theorem declared_carries {file : ClassFile} {role : Role} {memberName : String}
    {signature : Option Signature} {c c' : Claims} {found : Option Body}
    (hbound : role.isBound = true)
    (h : declared file role memberName signature c = .ok (found, c')) :
    Claims.Carries c c' found.toList := by
  have hrole : role ≠ .unaccounted := by rintro rfl; simp [Role.isBound] at hbound
  unfold declared at h
  obtain ⟨first, c₁, hfirst, h⟩ := bind_eq_ok h
  have hcarries := withSignature?_carries hrole hfirst
  rw [if_pos hbound] at hcarries
  cases first with
  | some body =>
    obtain ⟨rfl, rfl⟩ := Prod.mk.inj (pure_eq_ok h)
    exact hcarries
  | none =>
    dsimp only at h
    split at h
    · obtain ⟨rfl, rfl⟩ := Prod.mk.inj (pure_eq_ok h)
      exact hcarries
    · exact absurd h (by simp [throw, throwThe, MonadExceptOf.throw, StateT.lift,
        bind, Except.bind])

/-- The method of a candidate. -/
def Candidate.body (candidate : Candidate) : Body := candidate.function.body

/-- Binding a function carries its method. -/
theorem function_carries {file : ClassFile} {f : FunctionDecl} {c c' : Claims}
    {found : Option Candidate} (h : function file f c = .ok (found, c')) :
    Claims.Carries c c' (found.toList.map Candidate.body) := by
  unfold function at h
  split at h
  · obtain ⟨body, c₁, hbody, h⟩ := bind_eq_ok h
    obtain ⟨rfl, rfl⟩ := Prod.mk.inj (pure_eq_ok h)
    have hcarries := declared_carries rfl hbody
    cases body <;> exact hcarries
  · obtain ⟨taken, c₁, htaken, h⟩ := bind_eq_ok h
    obtain ⟨rfl, rfl⟩ := Prod.mk.inj (pure_eq_ok h)
    exact withSignature?_carries (by decide) htaken

/-- Binding a constructor carries its method. -/
theorem constructor_carries {file : ClassFile} {d : ConstructorDecl} {c c' : Claims}
    {found : Option Candidate} (h : constructor file d c = .ok (found, c')) :
    Claims.Carries c c' (found.toList.map Candidate.body) := by
  unfold constructor at h
  obtain ⟨body, c₁, hbody, h⟩ := bind_eq_ok h
  obtain ⟨rfl, rfl⟩ := Prod.mk.inj (pure_eq_ok h)
  have hcarries := declared_carries rfl hbody
  cases body <;> exact hcarries

/-- Binding an accessor carries its method. -/
theorem accessor_carries {file : ClassFile} {name : String} {signature : Option Signature}
    {c c' : Claims} {found : Option Body} (h : accessor file name signature c = .ok (found, c')) :
    Claims.Carries c c' found.toList := by
  cases signature with
  | none =>
    obtain ⟨rfl, rfl⟩ := Prod.mk.inj (pure_eq_ok h)
    exact Claims.Carries.refl _
  | some signature =>
    unfold accessor at h
    exact declared_carries rfl h

/-- Binding a property carries the methods of its accessors. -/
theorem property_carries {file : ClassFile} {p : PropertyDecl} {c c' : Claims}
    {found : Option BoundProperty} (h : property file p c = .ok (found, c')) :
    Claims.Carries c c' (found.toList.flatMap BoundProperty.bodies) := by
  unfold property at h
  split at h
  · obtain ⟨getter, c₁, hgetter, h⟩ := bind_eq_ok h
    obtain ⟨setter, c₂, hsetter, h⟩ := bind_eq_ok h
    obtain ⟨rfl, rfl⟩ := Prod.mk.inj (pure_eq_ok h)
    simpa [BoundProperty.bodies] using (accessor_carries hgetter).trans (accessor_carries hsetter)
  · obtain ⟨getter, c₁, hgetter, h⟩ := bind_eq_ok h
    obtain ⟨setter, c₂, hsetter, h⟩ := bind_eq_ok h
    obtain ⟨rfl, rfl⟩ := Prod.mk.inj (pure_eq_ok h)
    exact (withSignature?_carries (by decide) hgetter).trans
      (withSignature?_carries (by decide) hsetter)

/-- A helper is carried beside the method of its member, which is carried already. -/
theorem withDefaultValues_carries {candidate : Candidate} {c c' : Claims} {f : BoundFunction}
    (h : withDefaultValues candidate c = .ok (f, c')) :
    Claims.Carries c c' f.defaultValues.toList ∧ f.body = candidate.body := by
  unfold withDefaultValues at h
  obtain ⟨helper, c₁, hhelper, h⟩ := bind_eq_ok h
  obtain ⟨rfl, rfl⟩ := Prod.mk.inj (pure_eq_ok h)
  exact ⟨first?_carries (by decide) hhelper, rfl⟩

/-- Looking for helpers leaves the methods of the members themselves as they are. -/
theorem mapM_withDefaultValues_body {candidates : List Candidate} {c c' : Claims}
    {functions : List BoundFunction}
    (h : candidates.mapM withDefaultValues c = .ok (functions, c')) :
    functions.map BoundFunction.body = candidates.map Candidate.body := by
  induction candidates generalizing c c' functions with
  | nil =>
    rw [List.mapM_nil] at h
    obtain ⟨rfl, rfl⟩ := Prod.mk.inj (pure_eq_ok h)
    rfl
  | cons candidate rest ih =>
    rw [List.mapM_cons] at h
    obtain ⟨f, c₁, hf, h⟩ := bind_eq_ok h
    obtain ⟨fs, c₂, hfs, h⟩ := bind_eq_ok h
    obtain ⟨rfl, rfl⟩ := Prod.mk.inj (pure_eq_ok h)
    rw [List.map_cons, List.map_cons, ih hfs, (withDefaultValues_carries hf).2]

/-- The methods of the members that were found are those of the candidates for helpers. -/
theorem flatMap_candidates (found : List (Option Candidate)) :
    (found.flatMap fun candidate => candidate.toList.map Candidate.body)
      = (found.filterMap id).map Candidate.body := by
  rw [← List.map_flatMap, List.filterMap_eq_flatMap_toList]
  rfl

/-- Methods of functions, of constructors and of properties, then those of helpers and of an
initializer, put together by member. -/
theorem bodies_perm (functions constructors : List BoundFunction)
    (properties : List (Option BoundProperty)) (init : List Body) :
    (functions.map BoundFunction.body ++ constructors.map BoundFunction.body
      ++ properties.flatMap (fun p => p.toList.flatMap BoundProperty.bodies)
      ++ (functions.flatMap (·.defaultValues.toList)
        ++ constructors.flatMap (·.defaultValues.toList)) ++ init).Perm
    (functions.flatMap BoundFunction.bodies ++ constructors.flatMap BoundFunction.bodies
      ++ (properties.filterMap id).flatMap BoundProperty.bodies ++ init) := by
  have hproperties : properties.flatMap (fun p => p.toList.flatMap BoundProperty.bodies)
      = (properties.filterMap id).flatMap BoundProperty.bodies := by
    rw [List.filterMap_eq_flatMap_toList, List.flatMap_assoc]
    rfl
  have hfunctions := List.map_append_flatMap_perm functions BoundFunction.body
    (·.defaultValues.toList)
  have hconstructors := List.map_append_flatMap_perm constructors BoundFunction.body
    (·.defaultValues.toList)
  rw [hproperties, List.perm_iff_count]
  intro b
  have hf := hfunctions.count_eq b
  have hc := hconstructors.count_eq b
  simp only [List.count_append] at hf hc ⊢
  change _ = List.count b (functions.flatMap fun f => f.body :: f.defaultValues.toList)
    + List.count b (constructors.flatMap fun f => f.body :: f.defaultValues.toList) + _ + _
  omega

/-- Declarations carry their methods and helpers, and the static initializer. -/
theorem DeclaredRun.carries {file : ClassFile} {functions : List FunctionDecl}
    {constructors : List ConstructorDecl} {properties : List PropertyDecl} {c : Claims}
    (run : DeclaredRun file functions constructors properties c) :
    Claims.Carries c run.c₆ (run.boundFunctions.flatMap BoundFunction.bodies
      ++ run.boundConstructors.flatMap BoundFunction.bodies
      ++ run.boundProperties.flatMap BoundProperty.bodies ++ run.init.toList) := by
  have hdeclared :=
    ((mapM_carries (fun _ _ _ _ h => function_carries h) _ run.functions_run).trans
    (mapM_carries (fun _ _ _ _ h => constructor_carries h) _ run.constructors_run)).trans
    (mapM_carries (fun _ _ _ _ h => property_carries h) _ run.properties_run)
  have hhelpers :=
    (mapM_carries (fun _ _ _ _ h => (withDefaultValues_carries h).1) _
      run.functionHelpers_run).trans
    (mapM_carries (fun _ _ _ _ h => (withDefaultValues_carries h).1) _
      run.constructorHelpers_run)
  have hinit : Claims.Carries run.c₅ run.c₆ run.init.toList :=
    first?_carries (by decide) run.init_run
  have hall := (hdeclared.trans hhelpers).trans hinit
  rw [flatMap_candidates, flatMap_candidates, ← mapM_withDefaultValues_body run.functionHelpers_run,
    ← mapM_withDefaultValues_body run.constructorHelpers_run] at hall
  exact hall.perm (bodies_perm run.boundFunctions run.boundConstructors run.foundProperties _)

/-- Methods that nothing declares count as constructors that carry just themselves. -/
theorem flatMap_implicitFunction (bodies : List Body) :
    (bodies.map implicitFunction).flatMap BoundFunction.bodies = bodies := by
  induction bodies with
  | nil => rfl
  | cons body rest ih => simpa [implicitFunction, BoundFunction.bodies] using ih

/-- The members of a class file carry exactly what their rules gave a role of the report. -/
theorem members_carries {file : ClassFile} {container : Container}
    {functions : List FunctionDecl} {constructors : List ConstructorDecl}
    {properties : List PropertyDecl} {c c' : Claims} {m : Members}
    (h : members file container functions constructors properties c = .ok (m, c')) :
    Claims.Carries c c' m.bodies := by
  obtain ⟨run, hrun⟩ := exists_declaredRun h
  cases hrun with
  | @facade locals _ hlocals =>
    have hlocals : Claims.Carries run.c₆ c' locals := all_carries (by decide) hlocals
    refine (run.carries.trans hlocals).perm ?_
    simp only [Members.bodies, List.append_assoc]
    exact (List.perm_append_comm.append_left _).append_left _ |>.append_left _
  | @classLike _ _ _ implicit locals _ _ c₇ c₈ c₉ _ himplicit hlocals hgenerated hforwarders =>
    have himplicit : Claims.Carries run.c₆ c₇ implicit := all_carries (by decide) himplicit
    have hlocals : Claims.Carries c₇ c₈ locals := all_carries (by decide) hlocals
    have hgenerated : Claims.Carries c₈ c₉ [] := all_carries (by decide) hgenerated
    -- Forwarders are given a role outside the report, so nothing more is carried.
    have hforwarders : Claims.Carries c₉ c' [] := by
      split at hforwarders
      · exact all_carries (by decide) hforwarders
      · obtain ⟨-, rfl⟩ := Prod.mk.inj (pure_eq_ok hforwarders)
        exact Claims.Carries.refl _
    refine ((((run.carries.trans himplicit).trans hlocals).trans hgenerated).trans
      hforwarders).perm ?_
    rw [List.perm_iff_count]
    intro b
    simp only [Members.bodies, List.flatMap_append, flatMap_implicitFunction, List.count_append,
      List.append_nil, Option.toList_none]
    omega

end Binding

namespace ClassFile

open Metadata (ClassDecl PackageDecl Document)

/-- Members bound in a class file carry what the ledger accounts for. -/
theorem bind_accountsFor {file : ClassFile} {policy : AccountingPolicy}
    {binding : Binding Members} {m : Members} {l : Ledger}
    (hcarries : ∀ c', binding (Claims.ofMethods file.methods) = .ok (m, c') →
      Claims.Carries (Claims.ofMethods file.methods) c' m.bodies)
    (h : file.bind policy binding = .ok (m, l)) :
    l.AccountsFor file m.bodies ∧
      (policy = .strict → ∀ entry ∈ l.entries, entry.2 ≠ .unaccounted) := by
  unfold bind at h
  cases hrun : binding (Claims.ofMethods file.methods) with
  | error failure => simp [StateT.run, hrun, Bind.bind, Except.bind] at h
  | ok result =>
    obtain ⟨members, claims⟩ := result
    simp only [StateT.run, hrun, Bind.bind, Except.bind] at h
    cases hclose : claims.close file policy with
    | error failure => simp [hclose] at h
    | ok ledger =>
      simp only [hclose, Pure.pure, Except.pure, Except.ok.injEq, Prod.mk.injEq] at h
      obtain ⟨rfl, rfl⟩ := h
      exact Claims.close_accountsFor (hcarries _ hrun) hclose

/-- The ledger of a class accounts for the members that are bound, and under the strict policy it
leaves no method open. -/
theorem bindClass_accountsFor {file : ClassFile} {policy : AccountingPolicy}
    {decl : ClassDecl} {m : Members} {l : Ledger}
    (h : file.bindClass policy decl = .ok (m, l)) :
    l.AccountsFor file m.bodies ∧
      (policy = .strict → ∀ entry ∈ l.entries, entry.2 ≠ .unaccounted) :=
  bind_accountsFor (fun _ => Binding.members_carries) h

/-- A ledger in which every method has one role accounts for all methods, if the role is one of
the report, and else for none. -/
theorem uniformLedger_accountsFor (file : ClassFile) {role : Role} (hrole : role ≠ .unaccounted) :
    (file.uniformLedger role).AccountsFor file
        (if role.isBound then file.methods.map Method.body else []) ∧
      ∀ entry ∈ (file.uniformLedger role).entries, entry.2 ≠ .unaccounted := by
  obtain ⟨grants, hgrants, hbodies, hroles⟩ :=
    Claims.takeAll_carries (Claims.ofMethods file.methods) (fun _ => true) hrole
  have hfree : ((Claims.ofMethods file.methods).takeAll role fun _ => true).2.free = [] := by
    simp [Claims.takeAll]
  have htaken : ((Claims.ofMethods file.methods).takeAll role fun _ => true).1
      = file.methods.map Method.body := by
    simp only [Claims.takeAll, Claims.ofMethods]
    apply List.ext_getElem <;> simp
  rw [htaken] at hbodies
  refine ⟨(hgrants.accountsFor hfree).perm hbodies, fun entry hentry => ?_⟩
  obtain ⟨g, hg, hg'⟩ := hgrants.role_mem hfree hentry
  rw [← hg']
  exact hroles g hg

/-- The only method of a lambda class with lines is the one that its rule carries. -/
theorem lambdaBody_carries {file : ClassFile} {method : Method} {c' : Claims} {m : Members}
    (hcandidates : file.lambdaCandidates = [method])
    (h : (do
      let _ ← Binding.all .lambdaBody (!·.lines.isEmpty)
      return { functions := [⟨method.signature.name, none, false, method.body, none⟩] } :
        Binding Members) (Claims.ofMethods file.methods) = .ok (m, c')) :
    Claims.Carries (Claims.ofMethods file.methods) c' m.bodies := by
  obtain ⟨taken, c₁, htaken, h⟩ := Binding.bind_eq_ok h
  have hcarries : Claims.Carries _ c₁ taken := Binding.all_carries (by decide) htaken
  obtain ⟨rfl, rfl⟩ := Prod.mk.inj (Binding.pure_eq_ok h)
  have hfree : (Claims.ofMethods file.methods).free.map Prod.snd = file.methods := by
    apply List.ext_getElem <;> simp [Claims.ofMethods]
  have hlines : ((Claims.ofMethods file.methods).free.filter fun entry =>
      !entry.2.lines.isEmpty).map Prod.snd = [method] := by
    rw [← hcandidates, lambdaCandidates]
    conv_rhs => rw [← hfree, List.filter_map]
    rfl
  have hbodies : taken = [method.body] := by
    have htake : ((Claims.ofMethods file.methods).takeAll .lambdaBody (!·.lines.isEmpty)).1
        = taken := (Prod.mk.inj (Except.ok.inj htaken)).1
    rw [← htake, Claims.takeAll, List.partition_eq_filter_filter, ← List.map_singleton, ← hlines,
      List.map_map]
    rfl
  rw [hbodies] at hcarries
  exact hcarries

/-- What a class file with metadata contributes is accounted for. -/
theorem resolveDocument_accountsFor {file : ClassFile} {policy : AccountingPolicy}
    {document : Document} {r : Resolution} (h : file.resolveDocument policy document = .ok r) :
    r.ledger.AccountsFor file r.unit.bodies ∧
      (policy = .strict → ∀ entry ∈ r.ledger.entries, entry.2 ≠ .unaccounted) := by
  cases contributes_of_resolveDocument h with
  | classUnit hbind | localClass kind origin hbind => exact bindClass_accountsFor hbind
  | facade hbind | part hbind => exact bind_accountsFor (fun _ => Binding.members_carries) hbind
  | lambda origin hcandidates hbind =>
    exact bind_accountsFor (fun _ => lambdaBody_carries hcandidates) hbind
  | defaultImpls hname | compilerOnly =>
    exact ⟨(file.uniformLedger_accountsFor (by decide)).1,
      fun _ => (file.uniformLedger_accountsFor (by decide)).2⟩

/-- Every resolved class file is accounted for: its ledger has one entry for every method, in
order, and its unit carries exactly the methods with roles of the report, each once. Under the
strict policy no method is unaccounted. -/
theorem resolve_accountsFor {file : ClassFile} {policy : AccountingPolicy} {r : Resolution}
    (h : file.resolve policy = .ok r) (hunit : r.unit ≠ .foreign) :
    r.ledger.AccountsFor file r.unit.bodies ∧
      (policy = .strict → ∀ entry ∈ r.ledger.entries, entry.2 ≠ .unaccounted) := by
  unfold resolve at h
  split at h
  · obtain rfl := Except.ok.inj h
    exact absurd rfl hunit
  · split at h
    · simp at h
    · exact resolveDocument_accountsFor h

/-- An interface with a function `area`, its helper for default arguments and a local
function, all three with lines. -/
def shapeInterface : ClassFile :=
  let line (n : LineNumber) : LineSet := ⟨[n], List.pairwise_singleton _ _⟩
  { name := "Shape", superName := none, interfaces := [], access := 0x200, sourceFile := none
    enclosing := none, fields := []
    methods := [⟨0x11, ⟨"area", "()D"⟩, line 4⟩,
      ⟨0x19, ⟨"area$default", "(LShape;ILjava/lang/Object;)D"⟩, line 4⟩,
      ⟨0x19, ⟨"area$local", "()V"⟩, line 5⟩]
    annotations := [⟨"Lkotlin/Metadata;", [("k", .int 1), ("mv", .array [.int 1, .int 9]),
      ("d1", .array [.string
        "\x00\x00\x08F\x18\x00J\x0bH\x06\x10\x01¢\x06\x04\x08\x01\x10\x02"]),
      ("d2", .array [.string "Shape", .string "area", .string "()D"])]⟩] }

/-- The three methods of the interface are carried under three different roles. -/
theorem resolve_accountsFor_shapeInterface :
    ∃ r, shapeInterface.resolve .strict = .ok r ∧ r.unit ≠ .foreign ∧
      r.ledger.entries.map Prod.snd = [.declared, .defaultHelper, .localFunction] ∧
      r.ledger.AccountsFor shapeInterface r.unit.bodies ∧
      (AccountingPolicy.strict = .strict → ∀ entry ∈ r.ledger.entries, entry.2 ≠ .unaccounted) := by
  have hroles : (shapeInterface.resolve .strict).toOption.map
      (fun r => (r.unit.jvmName?, r.ledger.entries.map Prod.snd))
        = some (some "Shape", [.declared, .defaultHelper, .localFunction]) := by decide +kernel
  obtain ⟨r, hr, hr'⟩ := Option.map_eq_some_iff.mp hroles
  obtain ⟨hname, hentries⟩ := Prod.mk.inj hr'
  have hresolve : shapeInterface.resolve .strict = .ok r := by
    cases h : shapeInterface.resolve .strict <;> simp_all [Except.toOption]
  have hunit : r.unit ≠ .foreign := by
    intro hforeign
    simp [hforeign, ResolvedUnit.jvmName?] at hname
  exact ⟨r, hresolve, hunit, hentries, resolve_accountsFor hresolve hunit⟩

end ClassFile

end LineAtlas
