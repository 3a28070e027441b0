import LineAtlas.Proofs.Resolution.Units
import LineAtlas.Proofs.Tree.Adding

/-!
# Names of local functions

A method is taken as a local function if its name continues that of a member. The keys by which
the function around it is looked for later come from the members themselves, and they are the
same, as long as no function has the name of constructors.
-/

namespace LineAtlas

namespace Metadata

/-- The functions that a document lists. -/
def Document.functions : Document → List FunctionDecl
  | .classDecl decl => decl.functions
  | .fileFacade package | .multiFilePart _ package => package.functions
  | .syntheticClass lambda => lambda.toList
  | .multiFileFacade _ | .unknown _ _ => []

/-- The constructors that a document lists. -/
def Document.constructors : Document → List ConstructorDecl
  | .classDecl decl => decl.constructors
  | _ => []

/-- Every constructor has the name of constructors. -/
theorem Scope.constructor_signature {s : Scope} {bytes : List UInt8} {c : ConstructorDecl}
    (h : s.constructor bytes = .ok c) : ∀ signature ∈ c.signature, signature.isConstructor := by
  unfold Scope.constructor at h
  obtain ⟨m, -, h⟩ := Except.bind_eq_ok h
  obtain ⟨parameters, -, h⟩ := Except.bind_eq_ok h
  obtain ⟨recorded, -, h⟩ := Except.bind_eq_ok h
  obtain ⟨descriptor, -, h⟩ := Except.bind_eq_ok h
  obtain rfl := Except.ok.inj h
  intro signature hsignature
  obtain ⟨d, -, rfl⟩ := Option.map_eq_some_iff.mp hsignature
  rfl

/-- The constructors of a class that is read have the name of constructors. -/
theorem Scope.classDecl_constructors {s : Scope} {bytes : List UInt8} {decl : ClassDecl}
    (h : s.classDecl bytes = .ok decl) :
    ∀ c ∈ decl.constructors, ∀ signature ∈ c.signature, signature.isConstructor := by
  unfold Scope.classDecl at h
  obtain ⟨m, -, h⟩ := Except.bind_eq_ok h
  obtain ⟨inner, -, h⟩ := Except.bind_eq_ok h
  obtain ⟨companion, -, h⟩ := Except.bind_eq_ok h
  obtain ⟨indexes, -, h⟩ := Except.bind_eq_ok h
  obtain ⟨nested, -, h⟩ := Except.bind_eq_ok h
  obtain ⟨index, -, h⟩ := Except.bind_eq_ok h
  obtain ⟨name, -, h⟩ := Except.bind_eq_ok h
  obtain ⟨constructors, hconstructors, h⟩ := Except.bind_eq_ok h
  obtain ⟨functions, -, h⟩ := Except.bind_eq_ok h
  obtain ⟨properties, -, h⟩ := Except.bind_eq_ok h
  obtain rfl := Except.ok.inj h
  exact Except.forall_of_mapM (fun _ _ hc => Scope.constructor_signature hc) hconstructors

/-- The constructors of a document that is decoded have the name of constructors. -/
theorem Header.decode_constructors {h : Header} {document : Document}
    (hdecode : h.decode = .ok document) :
    ∀ c ∈ document.constructors, ∀ signature ∈ c.signature, signature.isConstructor := by
  cases document with
  | classDecl decl =>
    have hread : ∃ found, h.read Scope.classDecl = .ok found ∧ Document.classDecl found
        = .classDecl decl := by
      unfold Header.decode at hdecode
      split at hdecode
      · split at hdecode
        · exact Except.map_eq_ok hdecode
        · obtain ⟨package, -, heq⟩ := Except.map_eq_ok hdecode
          simp at heq
        · split at hdecode
          · simp at hdecode
          · obtain ⟨lambda, -, heq⟩ := Except.map_eq_ok hdecode
            simp at heq
        · simp at hdecode
        · obtain ⟨package, -, heq⟩ := Except.map_eq_ok hdecode
          simp at heq
        · simp at hdecode
      · simp at hdecode
    obtain ⟨found, hfound, heq⟩ := hread
    obtain rfl := Document.classDecl.inj heq
    unfold Header.read at hfound
    obtain ⟨⟨scope, message⟩, -, hclass⟩ := Except.bind_eq_ok hfound
    exact Scope.classDecl_constructors hclass
  | _ => simp [Document.constructors]

end Metadata

namespace Binding

open Metadata (FunctionDecl ConstructorDecl PropertyDecl)

/-- What holds of each result of a rule holds of all results. -/
theorem mapM_results {α β : Type} {f : α → Binding β} {P : β → Prop} {items : List α}
    (hf : ∀ a ∈ items, ∀ c b c', f a c = .ok (b, c') → P b) {c c' : Claims} {results : List β}
    (h : items.mapM f c = .ok (results, c')) : ∀ b ∈ results, P b := by
  induction items generalizing c c' results with
  | nil =>
    rw [mapM_nil_eq_ok h]
    simp
  | cons a rest ih =>
    rw [List.mapM_cons] at h
    obtain ⟨b, c₁, hb, h⟩ := bind_eq_ok h
    obtain ⟨bs, c₂, hbs, h⟩ := bind_eq_ok h
    obtain ⟨rfl, rfl⟩ := Prod.mk.inj (pure_eq_ok h)
    intro other hother
    rcases List.mem_cons.mp hother with rfl | hother
    · exact hf a List.mem_cons_self _ _ _ hb
    · exact ih (fun a ha => hf a (List.mem_cons_of_mem _ ha)) hbs other hother

/-- A method that is taken is of the kind that is asked for. -/
theorem first?_kind {role : Role} {kind : Method → Bool} {c c' : Claims} {body : Body}
    (h : first? role kind c = .ok (some body, c')) : ∃ m, kind m = true ∧ m.body = body := by
  unfold first? at h
  split at h
  · next found claims htake =>
    obtain ⟨hbody, -⟩ := Prod.mk.inj (Except.ok.inj h)
    obtain rfl := Option.some.inj hbody
    unfold Claims.takeFirst? at htake
    split at htake
    · simp at htake
    · next index method hfind =>
      obtain ⟨rfl, -⟩ := Prod.mk.inj (Option.some.inj htake)
      exact ⟨method, List.find?_some (p := fun entry : Nat × Method => kind entry.2) hfind, rfl⟩
  · simp at h

/-- Methods that are taken by their kind are of the kind. -/
theorem all_kind {role : Role} {kind : Method → Bool} {c c' : Claims} {found : List Body}
    (h : all role kind c = .ok (found, c')) :
    ∀ body ∈ found, ∃ m, kind m = true ∧ m.body = body := by
  have htake : c.takeAll role kind = (found, c') := Except.ok.inj h
  intro body hbody
  rw [← show (c.takeAll role kind).1 = found from congrArg Prod.fst htake] at hbody
  simp only [Claims.takeAll, List.partition_eq_filter_filter] at hbody
  obtain ⟨entry, hentry, rfl⟩ := List.mem_map.mp hbody
  exact ⟨entry.2, (List.mem_filter.mp hentry).2, rfl⟩

/-- A method that is taken by a signature has it. -/
theorem withSignature?_signature {role : Role} {signature : Option Signature} {c c' : Claims}
    {body : Body} (h : withSignature? role signature c = .ok (some body, c')) :
    signature = some body.signature := by
  cases signature with
  | none =>
    obtain ⟨hnone, -⟩ := Prod.mk.inj (pure_eq_ok h)
    simp at hnone
  | some signature =>
    obtain ⟨m, hm, rfl⟩ := first?_kind h
    exact congrArg some (beq_iff_eq.mp hm).symm

/-- The method of a declared member has the signature that is declared. -/
theorem declared_signature {file : ClassFile} {role : Role} {memberName : String}
    {signature : Option Signature} {c c' : Claims} {body : Body}
    (h : declared file role memberName signature c = .ok (some body, c')) :
    signature = some body.signature := by
  unfold declared at h
  obtain ⟨first, c₁, hfirst, h⟩ := bind_eq_ok h
  cases first with
  | some found =>
    obtain ⟨hbody, rfl⟩ := Prod.mk.inj (pure_eq_ok h)
    obtain rfl := Option.some.inj hbody
    exact withSignature?_signature hfirst
  | none =>
    dsimp only at h
    split at h
    · obtain ⟨hnone, -⟩ := Prod.mk.inj (pure_eq_ok h)
      simp at hnone
    · exact absurd h (by simp [throw, throwThe, MonadExceptOf.throw, StateT.lift,
        bind, Except.bind])

/-- The method of a function has the declared signature. -/
theorem function_signature {file : ClassFile} {f : FunctionDecl} {c c' : Claims}
    {found : Option Candidate} (h : function file f c = .ok (found, c')) :
    ∀ candidate ∈ found, f.signature = some candidate.body.signature := by
  unfold function at h
  split at h
  · obtain ⟨body, c₁, hbody, h⟩ := bind_eq_ok h
    obtain ⟨rfl, rfl⟩ := Prod.mk.inj (pure_eq_ok h)
    intro candidate hcandidate
    obtain ⟨b, rfl, rfl⟩ := Option.map_eq_some_iff.mp hcandidate
    exact declared_signature hbody
  · obtain ⟨taken, c₁, htaken, h⟩ := bind_eq_ok h
    obtain ⟨rfl, rfl⟩ := Prod.mk.inj (pure_eq_ok h)
    simp

/-- The method of a constructor has the declared signature. -/
theorem constructor_signature {file : ClassFile} {d : ConstructorDecl} {c c' : Claims}
    {found : Option Candidate} (h : constructor file d c = .ok (found, c')) :
    ∀ candidate ∈ found, d.signature = some candidate.body.signature := by
  unfold constructor at h
  obtain ⟨body, c₁, hbody, h⟩ := bind_eq_ok h
  obtain ⟨rfl, rfl⟩ := Prod.mk.inj (pure_eq_ok h)
  intro candidate hcandidate
  obtain ⟨b, rfl, rfl⟩ := Option.map_eq_some_iff.mp hcandidate
  exact declared_signature hbody

/-- What holds of the methods of candidates holds of those of the members that they become. -/
theorem withDefaultValues_results {P : Body → Prop} {found : List (Option Candidate)}
    {c c' : Claims} {functions : List BoundFunction}
    (hfound : ∀ option ∈ found, ∀ candidate ∈ option, P candidate.body)
    (h : (found.filterMap id).mapM withDefaultValues c = .ok (functions, c')) :
    ∀ f ∈ functions, P f.body := by
  refine mapM_results (fun candidate hcandidate c₁ f c₂ hf => ?_) h
  rw [(withDefaultValues_carries hf).2]
  obtain ⟨option, hoption, heq⟩ := List.mem_filterMap.mp hcandidate
  exact hfound option hoption candidate heq

/-- A name is that of a local function under a key exactly if something is left behind the key. -/
theorem isLocalOf_eq (name key : String) :
    isLocalOf name key = (LocalKeys.rest? key name).isSome := by
  unfold isLocalOf LocalKeys.rest?
  cases hrest : Text.dropHead? (key ++ "$") name with
  | none => rfl
  | some rest => cases hempty : rest.isEmpty <;> simp [hempty]

/-- The keys by which local functions are recognized are keys of members, if only constructors
have the name of constructors. -/
theorem localKeys_subset {functions constructors : List BoundFunction}
    {properties : List BoundProperty}
    (hfunctions : ∀ f ∈ functions, f.body.signature.isConstructor = false)
    (hconstructors : ∀ f ∈ constructors, f.body.signature.isConstructor = true) :
    localKeys functions constructors properties
      ⊆ Members.localKeys { functions, constructors, properties } := by
  intro key hkey
  rw [localKeys, List.mem_append, List.mem_append] at hkey
  rw [Members.localKeys, List.mem_append, List.mem_append]
  rcases hkey with (hkey | hkey) | hkey
  · obtain ⟨f, hf, hkey⟩ := List.mem_flatMap.mp hkey
    refine Or.inl (Or.inl (List.mem_flatMap.mpr ⟨f, hf, ?_⟩))
    rw [BoundFunction.localKeys, if_neg (by simp [hfunctions f hf])]
    split
    · next hsame => simp_all
    · exact hkey
  · split at hkey
    · simp at hkey
    · next hsome =>
      obtain ⟨f, rest, hcons⟩ := List.exists_cons_of_ne_nil (by simpa using hsome)
      have hf : f ∈ constructors := hcons ▸ List.mem_cons_self
      refine Or.inl (Or.inr (List.mem_flatMap.mpr ⟨f, hf, ?_⟩))
      rw [BoundFunction.localKeys, if_pos (hconstructors f hf)]
      exact hkey
  · obtain ⟨p, hp, hkey⟩ := List.mem_flatMap.mp hkey
    refine Or.inr (List.mem_flatMap.mpr ⟨p, hp, ?_⟩)
    rw [BoundProperty.localKeys]
    cases hgetter : p.getter <;> cases hsetter : p.setter <;> simp_all

/-- The local functions of members fit their keys, if only constructors have the name of
constructors. -/
theorem DeclaredRun.takeLocals_fits {file : ClassFile} {functions : List FunctionDecl}
    {constructors : List ConstructorDecl} {properties : List PropertyDecl} {c c₁ c₂ : Claims}
    (run : DeclaredRun file functions constructors properties c) {built : List BoundFunction}
    (hfunctions : ∀ f ∈ run.boundFunctions, f.body.signature.isConstructor = false)
    (hbuilt : ∀ f ∈ built, f.body.signature.isConstructor = true) {locals : List Body}
    (hlocals : run.takeLocals built c₁ = .ok (locals, c₂)) (body : Body) (hbody : body ∈ locals) :
    LocalKeys.Fits (Members.localKeys
      { functions := run.boundFunctions, constructors := built, properties := run.boundProperties })
      body.signature.name := by
  obtain ⟨method, hmethod, rfl⟩ := all_kind hlocals body hbody
  obtain ⟨key, hkey, hlocal⟩ := List.any_eq_true.mp hmethod
  rw [isLocalOf_eq] at hlocal
  exact ⟨key, localKeys_subset hfunctions hbuilt hkey, hlocal⟩

/-- Local functions are found by the keys of the members that they are bound with. -/
theorem members_localsFit {file : ClassFile} {container : Container}
    {functions : List FunctionDecl} {constructors : List ConstructorDecl}
    {properties : List PropertyDecl} {c c' : Claims} {m : Members}
    (hfunctions : ∀ f ∈ functions, ∀ s ∈ f.signature, s.isConstructor = false)
    (hconstructors : ∀ d ∈ constructors, ∀ s ∈ d.signature, s.isConstructor = true)
    (h : members file container functions constructors properties c = .ok (m, c')) :
    m.LocalsFit := by
  obtain ⟨run, hrun⟩ := exists_declaredRun h
  have hfound : ∀ f ∈ run.boundFunctions, f.body.signature.isConstructor = false := by
    refine withDefaultValues_results (P := fun body => body.signature.isConstructor = false)
      (mapM_results (fun f hf _ found _ hfound candidate hcandidate => ?_) run.functions_run)
      run.functionHelpers_run
    exact hfunctions f hf _ (function_signature hfound candidate hcandidate)
  have hbuilt : ∀ f ∈ run.boundConstructors, f.body.signature.isConstructor = true := by
    refine withDefaultValues_results (P := fun body => body.signature.isConstructor = true)
      (mapM_results (fun d hd _ found _ hfound candidate hcandidate => ?_) run.constructors_run)
      run.constructorHelpers_run
    exact hconstructors d hd _ (constructor_signature hfound candidate hcandidate)
  cases hrun with
  | facade hlocals => exact run.takeLocals_fits hfound hbuilt hlocals
  | @classLike _ _ _ implicit locals _ _ _ _ _ _ himplicit hlocals =>
    have hall : ∀ f ∈ run.boundConstructors ++ implicit.map implicitFunction,
        f.body.signature.isConstructor = true := by
      intro f hf
      rcases List.mem_append.mp hf with hf | hf
      · exact hbuilt f hf
      · obtain ⟨body, hbody, rfl⟩ := List.mem_map.mp hf
        obtain ⟨method, hmethod, rfl⟩ := all_kind himplicit body hbody
        rw [isImplicitConstructor, Bool.and_eq_true, Bool.and_eq_true] at hmethod
        exact hmethod.1.1
    -- The static initializer only adds to the keys.
    intro body hbody
    refine (run.takeLocals_fits hfound hall hlocals body hbody).mono fun key hkey => ?_
    simp only [Members.localKeys, List.flatMap_append, List.mem_append] at hkey ⊢
    tauto

end Binding

namespace ClassFile

open Metadata (ClassDecl Document Header)

/-- No function that the metadata of a class file lists has the name of constructors. -/
def NamesFunctionsApart (file : ClassFile) : Prop :=
  ∀ header document, Header.ofClass? file = some header → header.decode = .ok document →
    ∀ f ∈ document.functions, ∀ s ∈ f.signature, s.isConstructor = false

variable {file : ClassFile} {policy : AccountingPolicy} {r : Resolution}

/-- The names of functions can be looked up. -/
theorem namesFunctionsApart_of_all
    (hall : ((Header.ofClass? file).bind fun header => header.decode.toOption).all
      (fun document => document.functions.all fun f =>
        f.signature.all fun s => !s.isConstructor) = true) : file.NamesFunctionsApart := by
  intro header document hheader hdecode
  rw [hheader, Option.bind_some, hdecode] at hall
  intro f hf s hs
  have happly := List.all_eq_true.mp hall f hf
  rw [Option.mem_def.mp hs] at happly
  simpa using happly

/-- Local functions of a unit continue the names of its members. -/
theorem Contributes.localsFit {document : Document}
    (hfunctions : ∀ f ∈ document.functions, ∀ s ∈ f.signature, s.isConstructor = false)
    (hconstructors : ∀ d ∈ document.constructors, ∀ s ∈ d.signature, s.isConstructor = true)
    (h : file.Contributes policy document r) : r.unit.LocalsFit := by
  cases h with
  | classUnit hbind | localClass kind origin hbind =>
    obtain ⟨c', hrun⟩ := bind_run hbind
    exact Binding.members_localsFit hfunctions hconstructors hrun
  | facade hbind | part hbind =>
    obtain ⟨c', hrun⟩ := bind_run hbind
    exact Binding.members_localsFit hfunctions (by simp) hrun
  | lambda => simp [ResolvedUnit.LocalsFit, Members.LocalsFit, lambdaMembers]
  | defaultImpls => trivial
  | compilerOnly => trivial

/-- The local functions of what a class file contributes are found by the keys of its members. -/
theorem resolve_localsFit (hnames : file.NamesFunctionsApart) (h : file.resolve policy = .ok r) :
    r.unit.LocalsFit := by
  rcases resolve_cases h with rfl | ⟨header, document, hheader, hdecode, hcontributes⟩
  · trivial
  · exact hcontributes.localsFit (hnames header document hheader hdecode)
      (Header.decode_constructors hdecode)

end ClassFile

end LineAtlas
