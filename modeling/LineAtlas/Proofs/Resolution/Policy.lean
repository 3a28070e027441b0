import Mathlib.Data.List.Find
import LineAtlas.Proofs.Resolution.Accounting

/-!
# What the accounting policy decides

Rules leave the free methods in the order of the class file, so the method that the strict
policy objects to is the first one that the ledger of the lenient policy shows as unaccounted.
What comes after the objection cannot fail, so the objection is the only difference.
-/

namespace LineAtlas

/-- The signature of the first unaccounted method. -/
def Ledger.firstUnaccounted? (l : Ledger) : Option Signature :=
  (l.entries.find? (·.2 == .unaccounted)).map Prod.fst

/-- No method is unaccounted exactly if every entry has another role. -/
theorem Ledger.firstUnaccounted?_eq_none {l : Ledger} :
    l.firstUnaccounted? = none ↔ ∀ entry ∈ l.entries, entry.2 ≠ .unaccounted := by
  simp [firstUnaccounted?, List.find?_eq_none]

namespace ClassFile

variable {α β : Type}

/-- What the strict policy makes of a result with a ledger: it objects to the first unaccounted
method. -/
def objecting (file : ClassFile) (ledger : α → Ledger) (a : α) : Except Failure α :=
  match (ledger a).firstUnaccounted? with
  | some signature => .error (.unaccountedMethod file.name signature.display)
  | none => .ok a

/-- The strict policy has no objection to a ledger without an unaccounted method. -/
theorem objecting_of_none {file : ClassFile} {ledger : α → Ledger} {a : α}
    (hnone : (ledger a).firstUnaccounted? = none) : file.objecting ledger a = .ok a := by
  simp [objecting, hnone]

/-- The strict policy names the first unaccounted method. -/
theorem objecting_of_some {file : ClassFile} {ledger : α → Ledger} {a : α} {signature : Signature}
    (hsome : (ledger a).firstUnaccounted? = some signature) :
    file.objecting ledger a = .error (.unaccountedMethod file.name signature.display) := by
  simp [objecting, hsome]

/-- Two outcomes of which the strict one differs from the lenient one by an objection only. -/
structure Tightens (file : ClassFile) (ledger : α → Ledger)
    (strict lenient : Except Failure α) : Prop where
  /-- The strict outcome is the lenient one, unless the policy objects. -/
  strict_eq : strict = lenient >>= file.objecting ledger
  /-- The lenient outcome is no objection. -/
  failure : ∀ className signature, lenient ≠ .error (.unaccountedMethod className signature)

section Tightens

variable {file : ClassFile} {ledger : α → Ledger} {strict lenient : Except Failure α}

/-- Outcomes are the same where no method is unaccounted. -/
theorem Tightens.of_none
    (hnone : ∀ a, lenient = .ok a → (ledger a).firstUnaccounted? = none)
    (hfailure : ∀ className signature, lenient ≠ .error (.unaccountedMethod className signature)) :
    file.Tightens ledger lenient lenient := by
  refine ⟨?_, hfailure⟩
  cases lenient with
  | error failure => rfl
  | ok a => exact (objecting_of_none (hnone a rfl)).symm

/-- A failure that is not about an unaccounted method is the same under both policies. -/
theorem tightens_error {failure : Failure}
    (hother : ∀ className signature, failure ≠ .unaccountedMethod className signature) :
    file.Tightens ledger (.error failure) (.error failure) :=
  .of_none nofun fun className signature h => hother className signature (Except.error.inj h)

/-- Steps that cannot fail and that keep the ledger keep the difference. -/
theorem Tightens.bind {ledger' : β → Ledger} {q : α → Except Failure β}
    (h : file.Tightens ledger strict lenient)
    (hq : ∀ a, ∃ b, q a = .ok b ∧ ledger' b = ledger a) :
    file.Tightens ledger' (strict >>= q) (lenient >>= q) := by
  obtain ⟨rfl, hfailure⟩ := h
  cases lenient with
  | error failure =>
    exact tightens_error fun className signature heq =>
      hfailure className signature (congrArg _ heq)
  | ok a =>
    obtain ⟨b, hb, hledger⟩ := hq a
    change file.Tightens ledger' (file.objecting ledger a >>= q) (q a)
    refine ⟨?_, by simp [hb]⟩
    rw [hb]
    change _ = file.objecting ledger' b
    unfold objecting
    rw [hledger]
    cases (ledger a).firstUnaccounted? with
    | some signature => rfl
    | none => exact hb

end Tightens

end ClassFile

namespace Claims

/-- No rule has run yet: the methods are free in the order of the class file. -/
theorem nodup_free_ofMethods (methods : List Method) : (ofMethods methods).free.Nodup := by
  refine List.Nodup.of_map Prod.fst ?_
  have hrange : (ofMethods methods).free.map Prod.fst = List.range methods.length := by
    apply List.ext_getElem <;> simp [ofMethods]
  exact hrange ▸ List.nodup_range

/-- The ledger, read off the methods with their positions. -/
theorem entries_ledger (c : Claims) (file : ClassFile) :
    (c.ledger file).entries
      = (ofMethods file.methods).free.map fun entry => (entry.2.signature, c.roleAt entry.1) := by
  apply List.ext_getElem <;> simp [ledger, ofMethods]

/-- Taking the first method of a kind keeps the order of the others. -/
theorem takeFirst?_sublist {c c' : Claims} {role : Role} {kind : Method → Bool} {body : Body}
    (htake : c.takeFirst? role kind = some (body, c')) : c'.free.Sublist c.free := by
  unfold takeFirst? at htake
  split at htake
  · simp at htake
  · simp only [Option.some.injEq, Prod.mk.injEq] at htake
    obtain ⟨-, rfl⟩ := htake
    exact List.eraseP_sublist

/-- Taking all methods of a kind keeps the order of the others. -/
theorem takeAll_sublist (c : Claims) (role : Role) (kind : Method → Bool) :
    (c.takeAll role kind).2.free.Sublist c.free := by
  simp [takeAll]

section Close

variable {file : ClassFile} {c : Claims} {bodies : List Body}

/-- After closing, a method that was free has the role of a leftover; the others have roles of
rules, which leave no method unaccounted. -/
theorem roleAt_classifyRest (hcarries : Carries (ofMethods file.methods) c bodies) :
    (∀ entry ∈ c.free, c.classifyRest.roleAt entry.1 = Role.ofLeftover entry.2) ∧
      ∀ entry ∈ (ofMethods file.methods).free,
        c.classifyRest.roleAt entry.1 = .unaccounted → entry ∈ c.free := by
  obtain ⟨grants, hgrants, -, hroles⟩ := hcarries
  have hall := hgrants.trans c.classifyRest_grants
  have hfree : c.classifyRest.free = [] := rfl
  refine ⟨fun entry hentry => ?_, fun entry hentry hrole => ?_⟩
  · exact hall.roleAt hfree
      (List.mem_append_right _ (List.mem_map.mpr ⟨entry, hentry, rfl⟩))
  · have hmem := hgrants.free.mem_iff.mp hentry
    rcases List.mem_append.mp hmem with hgrant | hleft
    · obtain ⟨g, hg, rfl⟩ := List.mem_map.mp hgrant
      rw [hall.roleAt hfree (List.mem_append_left _ hg)] at hrole
      exact absurd hrole (hroles g hg)
    · exact hleft

/-- The first leftover that fits no rule is the first unaccounted method of the ledger. -/
theorem firstUnaccounted?_ledger (hcarries : Carries (ofMethods file.methods) c bodies)
    (hsublist : c.free.Sublist (ofMethods file.methods).free) :
    (c.classifyRest.ledger file).firstUnaccounted?
      = (c.free.find? fun entry => Role.ofLeftover entry.2 == .unaccounted).map
        (·.2.signature) := by
  obtain ⟨hleftover, hunaccounted⟩ := roleAt_classifyRest hcarries
  have hfind : (ofMethods file.methods).free.find?
        (fun entry => c.classifyRest.roleAt entry.1 == .unaccounted)
      = c.free.find? fun entry => c.classifyRest.roleAt entry.1 == .unaccounted :=
    Lists.find?_of_sublist hsublist (nodup_free_ofMethods _)
      fun entry hentry hrole => hunaccounted entry hentry (by simpa using hrole)
  rw [Ledger.firstUnaccounted?, entries_ledger, List.find?_map, Option.map_map]
  simp only [Function.comp_def]
  rw [hfind, List.find?_congr fun entry hentry => by rw [hleftover entry hentry]]

/-- The strict policy closes as the lenient one does, unless it objects. -/
theorem close_strict (hcarries : Carries (ofMethods file.methods) c bodies)
    (hsublist : c.free.Sublist (ofMethods file.methods).free) :
    c.close file .strict = c.close file .lenient >>= file.objecting id := by
  have hfirst := firstUnaccounted?_ledger hcarries hsublist
  change _ = file.objecting id (c.classifyRest.ledger file)
  unfold close ClassFile.objecting
  rw [id_eq, hfirst]
  cases c.free.find? fun entry => Role.ofLeftover entry.2 == .unaccounted <;> rfl

/-- Where every leftover fits a rule, the policies close alike. -/
theorem close_of_find?_eq_none
    (hfind : c.free.find? (fun entry => Role.ofLeftover entry.2 == .unaccounted) = none)
    (policy : AccountingPolicy) : c.close file policy = .ok (c.classifyRest.ledger file) := by
  unfold close
  rw [hfind]
  cases policy <;> rfl

end Close

end Claims

/-- A rule that takes free methods out of their order and fails, if at all, for other reasons
than an unaccounted method. -/
structure Binding.Orderly {α : Type} (p : Binding α) : Prop where
  /-- What is still free is in the order in which it was. -/
  free : ∀ {c a c'}, p c = .ok (a, c') → c'.free.Sublist c.free
  /-- No failure is about an unaccounted method. -/
  failure : ∀ c className signature, p c ≠ .error (.unaccountedMethod className signature)

namespace Binding

open Metadata (FunctionDecl ConstructorDecl PropertyDecl)

variable {α β : Type}

/-- Giving a value is orderly. -/
theorem orderly_pure (a : α) : Orderly (pure a : Binding α) where
  free h := by
    obtain ⟨rfl, rfl⟩ := Prod.mk.inj (pure_eq_ok h)
    exact List.Sublist.refl _
  failure _ _ _ h := nomatch h

/-- Rules that follow one another are orderly when both are. -/
theorem Orderly.bind {p : Binding α} {q : α → Binding β} (hp : Orderly p)
    (hq : ∀ a, Orderly (q a)) : Orderly (p >>= q) where
  free h := by
    obtain ⟨a, c₁, hfirst, hrest⟩ := bind_eq_ok h
    exact ((hq a).free hrest).trans (hp.free hfirst)
  failure c className signature h := by
    change (p c >>= fun entry => q entry.1 entry.2) = _ at h
    cases hfirst : p c with
    | error failure =>
      rw [hfirst] at h
      obtain rfl := Except.error.inj h
      exact hp.failure c className signature hfirst
    | ok entry =>
      rw [hfirst] at h
      exact (hq entry.1).failure entry.2 className signature h

/-- A failure that is not about an unaccounted method. -/
theorem orderly_throw {failure : Failure}
    (hother : ∀ className signature, failure ≠ .unaccountedMethod className signature) :
    Orderly (throw failure : Binding α) where
  free h := nomatch h
  failure _ className signature h := hother className signature (Except.error.inj h)

/-- A rule that is applied to each item is orderly when it is for one. -/
theorem orderly_mapM {f : α → Binding β} (hf : ∀ a, Orderly (f a)) (items : List α) :
    Orderly (items.mapM f) := by
  induction items with
  | nil => exact orderly_pure _
  | cons a rest ih =>
    rw [List.mapM_cons]
    exact (hf a).bind fun b => ih.bind fun bs => orderly_pure _

/-- Taking the first method of a kind is orderly. -/
theorem orderly_first? (role : Role) (kind : Method → Bool) : Orderly (first? role kind) where
  free {c a c'} h := by
    unfold first? at h
    split at h
    · next body c₁ htake =>
      obtain ⟨rfl, rfl⟩ := Prod.mk.inj (Except.ok.inj h)
      exact Claims.takeFirst?_sublist htake
    · obtain ⟨rfl, rfl⟩ := Prod.mk.inj (Except.ok.inj h)
      exact List.Sublist.refl _
  failure c _ _ h := by
    unfold first? at h
    split at h <;> cases h

/-- Taking all methods of a kind is orderly. -/
theorem orderly_all (role : Role) (kind : Method → Bool) : Orderly (all role kind) where
  free {c a c'} h := by
    obtain ⟨rfl, rfl⟩ := Prod.mk.inj (Except.ok.inj h)
    exact c.takeAll_sublist role kind
  failure _ _ _ h := nomatch h

/-- Taking a method by its signature is orderly. -/
theorem orderly_withSignature? (role : Role) (signature : Option Signature) :
    Orderly (withSignature? role signature) := by
  cases signature with
  | none => exact orderly_pure _
  | some signature => exact orderly_first? _ _

/-- Taking the method of a declared member is orderly, also when there is none. -/
theorem orderly_declared (file : ClassFile) (role : Role) (memberName : String)
    (signature : Option Signature) : Orderly (declared file role memberName signature) := by
  refine (orderly_withSignature? role signature).bind fun found => ?_
  cases found with
  | some body => exact orderly_pure _
  | none =>
    dsimp only
    split
    · exact orderly_pure _
    · exact orderly_throw fun _ _ => by simp

/-- Binding a function is orderly. -/
theorem orderly_function (file : ClassFile) (f : FunctionDecl) : Orderly (function file f) := by
  unfold function
  split
  · exact (orderly_declared _ _ _ _).bind fun _ => orderly_pure _
  · exact (orderly_withSignature? _ _).bind fun _ => orderly_pure _

/-- Binding a constructor is orderly. -/
theorem orderly_constructor (file : ClassFile) (d : ConstructorDecl) :
    Orderly (constructor file d) :=
  (orderly_declared _ _ _ _).bind fun _ => orderly_pure _

/-- Binding an accessor is orderly. -/
theorem orderly_accessor (file : ClassFile) (name : String) (signature : Option Signature) :
    Orderly (accessor file name signature) := by
  cases signature with
  | none => exact orderly_pure _
  | some signature => exact orderly_declared file .accessor name (some signature)

/-- Binding a property is orderly. -/
theorem orderly_property (file : ClassFile) (p : PropertyDecl) : Orderly (property file p) := by
  unfold property
  split
  · exact (orderly_accessor _ _ _).bind fun _ => (orderly_accessor _ _ _).bind fun _ =>
      orderly_pure _
  · exact (orderly_withSignature? _ _).bind fun _ => (orderly_withSignature? _ _).bind fun _ =>
      orderly_pure _

/-- Taking a helper is orderly. -/
theorem orderly_withDefaultValues (candidate : Candidate) :
    Orderly (withDefaultValues candidate) :=
  (orderly_first? _ _).bind fun _ => orderly_pure _

/-- All rules for members are orderly. -/
theorem orderly_members (file : ClassFile) (container : Container)
    (functions : List FunctionDecl) (constructors : List ConstructorDecl)
    (properties : List PropertyDecl) :
    Orderly (members file container functions constructors properties) := by
  refine (orderly_mapM (orderly_function file) _).bind fun _ =>
    (orderly_mapM (orderly_constructor file) _).bind fun _ =>
    (orderly_mapM (orderly_property file) _).bind fun _ =>
    (orderly_mapM orderly_withDefaultValues _).bind fun _ =>
    (orderly_mapM orderly_withDefaultValues _).bind fun _ =>
    (orderly_first? _ _).bind fun _ => ?_
  cases container with
  | facade => exact (orderly_all _ _).bind fun _ => orderly_pure _
  | classLike isData isEnum hasCompanion =>
    refine (orderly_all _ _).bind fun _ => (orderly_all _ _).bind fun _ =>
      (orderly_all _ _).bind fun _ => ?_
    cases hasCompanion with
    | true => exact (orderly_all _ _).bind fun _ => orderly_pure _
    | false => exact orderly_pure _

end Binding

namespace ClassFile

open Metadata (ClassDecl PackageDecl Document)

variable {file : ClassFile}

/-- The strict policy binds as the lenient one does, unless it objects. -/
theorem bind_tightens {binding : Binding Members} (horderly : Binding.Orderly binding)
    (hcarries : ∀ m c', binding (Claims.ofMethods file.methods) = .ok (m, c') →
      Claims.Carries (Claims.ofMethods file.methods) c' m.bodies) :
    file.Tightens Prod.snd (file.bind .strict binding) (file.bind .lenient binding) := by
  unfold bind StateT.run
  cases hrun : binding (Claims.ofMethods file.methods) with
  | error failure =>
    exact tightens_error fun className signature heq =>
      horderly.failure _ className signature (heq ▸ hrun)
  | ok result =>
    obtain ⟨m, c⟩ := result
    have hclose := Claims.close_strict (hcarries m c hrun) (horderly.free hrun)
    exact Tightens.bind ⟨hclose, nofun⟩ fun l => ⟨(m, l), rfl, rfl⟩

/-- In the members of a class the policies differ by an objection only. -/
theorem bindClass_tightens (decl : ClassDecl) :
    file.Tightens Prod.snd (file.bindClass .strict decl) (file.bindClass .lenient decl) :=
  bind_tightens (Binding.orderly_members _ _ _ _ _) fun _ _ => Binding.members_carries

/-- For a class the policies differ by an objection only. -/
theorem resolveClass_tightens (decl : ClassDecl) :
    file.Tightens Resolution.ledger (file.resolveClass .strict decl)
      (file.resolveClass .lenient decl) := by
  unfold resolveClass nameSegments
  cases Mangled.split file.simpleName with
  | error cause => exact tightens_error fun _ _ => by simp
  | ok segments => exact (bindClass_tightens decl).bind fun _ => ⟨_, rfl, rfl⟩

/-- Taking a name apart is no objection. -/
theorem nameSegments_ne_unaccounted (className signature : String) :
    file.nameSegments ≠ .error (.unaccountedMethod className signature) := by
  unfold nameSegments
  split <;> simp

/-- A place can only be missing when the name of the class cannot be split. -/
theorem exists_origin {segments : List String} (hsegments : file.nameSegments = .ok segments) :
    ∃ origin, file.origin = .ok origin := by
  unfold origin
  rw [hsegments]
  cases file.enclosing <;> exact ⟨_, rfl⟩

/-- Looking for the enclosing class is no objection. -/
theorem origin_ne_unaccounted (className signature : String) :
    file.origin ≠ .error (.unaccountedMethod className signature) := by
  intro h
  cases hsegments : file.nameSegments with
  | error failure =>
    unfold origin at h
    rw [hsegments] at h
    cases henclosing : file.enclosing with
    | some place => simp [henclosing] at h
    | none =>
      rw [henclosing] at h
      obtain rfl := Except.error.inj h
      exact nameSegments_ne_unaccounted _ _ hsegments
  | ok segments =>
    obtain ⟨origin, horigin⟩ := exists_origin hsegments
    simp [horigin] at h

/-- When the name of a local class can be split, its place is known, so nothing fails after an
objection. -/
theorem resolveLocalClass_tightens (decl : ClassDecl) :
    file.Tightens Resolution.ledger (file.resolveLocalClass .strict decl)
      (file.resolveLocalClass .lenient decl) := by
  unfold resolveLocalClass
  cases hsegments : file.nameSegments with
  | error failure =>
    exact tightens_error fun className signature heq =>
      nameSegments_ne_unaccounted className signature (heq ▸ hsegments)
  | ok segments =>
    obtain ⟨origin, horigin⟩ := exists_origin hsegments
    simp only [horigin]
    exact (bindClass_tightens decl).bind fun _ => ⟨_, rfl, rfl⟩

/-- For the top level of a file the policies differ by an objection only. -/
theorem resolveFacade_tightens (package : PackageDecl) :
    file.Tightens Resolution.ledger (file.resolveFacade .strict package)
      (file.resolveFacade .lenient package) :=
  (bind_tightens (Binding.orderly_members _ _ _ _ _) fun _ _ => Binding.members_carries).bind
    fun _ => ⟨_, rfl, rfl⟩

/-- A ledger with one role for all has no unaccounted method, unless that is the role. -/
theorem uniformLedger_firstUnaccounted? {role : Role} (hrole : role ≠ .unaccounted) :
    (file.uniformLedger role).firstUnaccounted? = none :=
  Ledger.firstUnaccounted?_eq_none.mpr (file.uniformLedger_accountsFor hrole).2

/-- Under both policies a class without members of its own comes to the same. -/
theorem resolveOpaque_tightens :
    file.Tightens Resolution.ledger (.ok file.resolveOpaque) (.ok file.resolveOpaque) := by
  refine .of_none (fun r hr => ?_) nofun
  obtain rfl := Except.ok.inj hr
  exact uniformLedger_firstUnaccounted? (by decide)

/-- Under both policies a holder comes to the same. -/
theorem resolveDefaultImpls_tightens (interfaceName : String) :
    file.Tightens Resolution.ledger (.ok (file.resolveDefaultImpls interfaceName))
      (.ok (file.resolveDefaultImpls interfaceName)) := by
  refine .of_none (fun r hr => ?_) nofun
  obtain rfl := Except.ok.inj hr
  exact uniformLedger_firstUnaccounted? (by decide)

/-- The rule of a lambda class takes every method with lines, so neither policy finds one
unaccounted. -/
theorem exists_bind_lambdaBody (file : ClassFile) (body : Members) :
    ∃ l, l.firstUnaccounted? = none ∧ ∀ policy,
      file.bind policy (do let _ ← Binding.all .lambdaBody (!·.lines.isEmpty); return body)
        = .ok (body, l) := by
  set kind : Method → Bool := (!·.lines.isEmpty)
  set c := ((Claims.ofMethods file.methods).takeAll .lambdaBody kind).2 with hc
  have hfind : c.free.find? (fun entry => Role.ofLeftover entry.2 == .unaccounted) = none := by
    rw [List.find?_eq_none]
    intro entry hentry
    have hlines : entry.2.lines.isEmpty = true := by
      simp only [hc, Claims.takeAll, List.partition_eq_filter_filter, List.mem_filter] at hentry
      simpa [kind] using hentry.2
    unfold Role.ofLeftover
    rw [hlines]
    split <;> decide
  have hcarries : Claims.Carries (Claims.ofMethods file.methods) c _ :=
    Claims.takeAll_carries _ kind (by decide)
  have hfirst := Claims.firstUnaccounted?_ledger hcarries
    (Claims.takeAll_sublist _ .lambdaBody kind)
  rw [hfind] at hfirst
  refine ⟨c.classifyRest.ledger file, hfirst, fun policy => ?_⟩
  have hclose : c.close file policy = _ := Claims.close_of_find?_eq_none hfind policy
  change (c.close file policy >>= fun l => pure (body, l)) = _
  rw [hclose]
  rfl

/-- The place of a lambda class is looked up under both policies, as neither of them objects. -/
theorem resolveLambda_tightens :
    file.Tightens Resolution.ledger (file.resolveLambda .strict) (file.resolveLambda .lenient) := by
  unfold resolveLambda
  split
  · exact tightens_error fun _ _ => by simp
  · next method _ =>
    obtain ⟨l, hl, hbind⟩ := file.exists_bind_lambdaBody
      { functions := [⟨method.signature.name, none, false, method.body, none⟩] }
    rw [hbind, hbind]
    cases horigin : file.origin with
    | error failure =>
      exact tightens_error fun className signature heq =>
        origin_ne_unaccounted className signature (heq ▸ horigin)
    | ok origin =>
      refine .of_none (fun r hr => ?_) nofun
      obtain rfl := Except.ok.inj hr
      exact hl
  · exact tightens_error fun _ _ => by simp

/-- What is made of a document differs by an objection only. -/
theorem resolveDocument_tightens (document : Document) :
    file.Tightens Resolution.ledger (file.resolveDocument .strict document)
      (file.resolveDocument .lenient document) := by
  cases document with
  | classDecl decl =>
    simp only [resolveDocument]
    split
    · exact resolveLocalClass_tightens decl
    · exact resolveClass_tightens decl
  | fileFacade package | multiFilePart facade package => exact resolveFacade_tightens package
  | multiFileFacade parts => exact resolveOpaque_tightens
  | unknown kind version => exact tightens_error fun _ _ => by simp
  | syntheticClass lambda =>
    simp only [resolveDocument]
    split
    · exact resolveDefaultImpls_tightens _
    · split
      · exact resolveLambda_tightens
      · exact resolveOpaque_tightens
    · exact resolveOpaque_tightens

/-- What is made of a class file differs by an objection only. -/
theorem resolve_tightens (file : ClassFile) :
    file.Tightens Resolution.ledger (file.resolve .strict) (file.resolve .lenient) := by
  unfold resolve
  split
  · refine .of_none (fun r hr => ?_) nofun
    obtain rfl := Except.ok.inj hr
    rfl
  · split
    · exact tightens_error fun _ _ => by simp
    · exact resolveDocument_tightens _

/-- The policy changes nothing but the treatment of unaccounted methods. The strict policy
resolves to what the lenient one resolves to, if no method in it is unaccounted. Otherwise it
fails and names the first unaccounted method of the lenient ledger, and it fails so in no other
case. All other failures are those of the lenient policy, which never names an unaccounted
method. -/
theorem resolve_strict_iff_lenient (file : ClassFile) :
    (∀ r, file.resolve .strict = .ok r ↔
      file.resolve .lenient = .ok r ∧ ∀ entry ∈ r.ledger.entries, entry.2 ≠ .unaccounted) ∧
    (∀ className signature,
      file.resolve .strict = .error (.unaccountedMethod className signature) ↔
        ∃ r entry, file.resolve .lenient = .ok r ∧
          r.ledger.entries.find? (·.2 == .unaccounted) = some entry ∧
          className = file.name ∧ signature = entry.1.display) ∧
    (∀ failure, (∀ className signature, failure ≠ .unaccountedMethod className signature) →
      (file.resolve .strict = .error failure ↔ file.resolve .lenient = .error failure)) ∧
    ∀ className signature,
      file.resolve .lenient ≠ .error (.unaccountedMethod className signature) := by
  obtain ⟨hstrict, hfailure⟩ := file.resolve_tightens
  rw [hstrict]
  cases hlenient : file.resolve .lenient with
  | error failure =>
    rw [hlenient] at hfailure
    have hbind : (.error failure >>= file.objecting Resolution.ledger : Except Failure Resolution)
        = .error failure := rfl
    refine ⟨fun r => by simp [hbind], fun className signature => ?_, fun other _ => Iff.rfl,
      hfailure⟩
    rw [hbind]
    exact ⟨fun h => absurd h (hfailure className signature), by simp⟩
  | ok r =>
    have hbind : (.ok r >>= file.objecting Resolution.ledger : Except Failure Resolution)
        = file.objecting Resolution.ledger r := rfl
    rw [hbind]
    cases hfind : r.ledger.entries.find? (·.2 == .unaccounted) with
    | none =>
      have hnone : r.ledger.firstUnaccounted? = none := by simp [Ledger.firstUnaccounted?, hfind]
      rw [objecting_of_none hnone]
      refine ⟨fun s => ⟨fun hs => ⟨hs, ?_⟩, And.left⟩, fun _ _ => by simp [hfind],
        fun _ _ => Iff.rfl, nofun⟩
      obtain rfl := Except.ok.inj hs
      exact Ledger.firstUnaccounted?_eq_none.mp hnone
    | some entry =>
      have hsome : r.ledger.firstUnaccounted? = some entry.1 := by
        simp [Ledger.firstUnaccounted?, hfind]
      rw [objecting_of_some hsome]
      refine ⟨fun s => ⟨nofun, fun ⟨hs, hall⟩ => ?_⟩, fun className signature => ?_,
        fun other hother => ⟨fun h => ?_, nofun⟩, nofun⟩
      · obtain rfl := Except.ok.inj hs
        exact absurd (Ledger.firstUnaccounted?_eq_none.mpr hall) (by simp [hsome])
      · simp only [Except.error.injEq, Failure.unaccountedMethod.injEq]
        constructor
        · rintro ⟨rfl, rfl⟩
          exact ⟨r, entry, rfl, hfind, rfl, rfl⟩
        · rintro ⟨s, first, hs, hfirst, rfl, rfl⟩
          obtain rfl := Except.ok.inj hs
          obtain rfl := Option.some.inj (hfind.symm.trans hfirst)
          exact ⟨rfl, rfl⟩
      · exact absurd (Except.error.inj h).symm (hother _ _)

end ClassFile

end LineAtlas
