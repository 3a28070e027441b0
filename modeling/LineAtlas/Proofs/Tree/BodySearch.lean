import LineAtlas.Proofs.Name.DefaultHelper
import LineAtlas.Proofs.Tree.DefaultBodies
import LineAtlas.Proofs.Tree.LocalPlaces

/-!
# Searching bodies

A holder searches its methods for the bodies of the members of an interface, one member after the
other, and takes out what it finds, together with the helper for default arguments of a function.
What is taken out for one member is of no use to another one that has a different signature, so
that each member finds a body exactly if there is one.
-/

namespace LineAtlas

/-- A signature has the name of a helper for default arguments. -/
def Signature.IsHelper (s : Signature) : Prop :=
  ∃ base, s.name = base ++ DefaultHelper.functionSuffix

/-- It can be decided whether a signature is that of a helper. -/
instance (s : Signature) : Decidable s.IsHelper :=
  decidable_of_iff ((Text.dropTail? DefaultHelper.functionSuffix s.name).isSome = true) <| by
    simp only [Option.isSome_iff_exists, Text.dropTail?_eq_some_iff, Signature.IsHelper]

namespace SourceTree

variable {t t' : SourceTree}

/-- The helpers of some functions. -/
def helpersOf (t : SourceTree) (fs : List FunctionId) : List FunctionId :=
  fs.flatMap fun f => (t.function? f).toList.flatMap fun node => node.defaultValues.toList

/-- Functions have the helpers of each of them, in order. -/
theorem helpersOf_append (t : SourceTree) (fs gs : List FunctionId) :
    t.helpersOf (fs ++ gs) = t.helpersOf fs ++ t.helpersOf gs := List.flatMap_append

/-- Functions have the methods of each of them, in order. -/
theorem bodiesAt_append (t : SourceTree) (fs gs : List FunctionId) :
    t.bodiesAt (fs ++ gs) = t.bodiesAt fs ++ t.bodiesAt gs := by
  rw [bodiesAt, List.filterMap_append, List.map_append]
  rfl

/-- A function is there with a method that has a certain signature. -/
def HasSignature (t : SourceTree) (f : FunctionId) (s : Signature) : Prop :=
  (t.function? f).map (fun node => node.body.signature) = some s

/-- A function keeps its signature when trees grow. -/
theorem HasSignature.retains {f : FunctionId} {s : Signature} (h : t.HasSignature f s)
    (hretains : Retains FunctionNode.core t t') : t'.HasSignature f s :=
  hretains.map (fun core => core.2.1.signature) f s h

/-- A function is there and of a certain kind. -/
def HasKind (t : SourceTree) (f : FunctionId) (kind : FunctionKind) : Prop :=
  (t.function? f).map FunctionNode.kind = some kind

/-- A function keeps its kind when trees grow. -/
theorem HasKind.retains {f : FunctionId} {kind : FunctionKind} (h : t.HasKind f kind)
    (hretains : Retains FunctionNode.core t t') : t'.HasKind f kind :=
  hretains.map (fun core => core.1) f kind h

/-- A function with a signature is in the tree. -/
theorem HasSignature.exists_core {f : FunctionId} {s : Signature} (h : t.HasSignature f s) :
    ∃ node, t.function? f = some node ∧ node.body.signature = s := Option.map_eq_some_iff.mp h

/-- Functions that are there keep their methods. -/
theorem bodiesAt_eq_of_retains (hretains : Retains FunctionNode.core t t') {fs : List FunctionId}
    (hfs : ∀ f ∈ fs, ∃ s, t.HasSignature f s) : t'.bodiesAt fs = t.bodiesAt fs := by
  rw [bodiesAt, bodiesAt, List.map_filterMap, List.map_filterMap]
  refine List.filterMap_congr fun f hf => ?_
  obtain ⟨s, hs⟩ := hfs f hf
  obtain ⟨node, hnode, -⟩ := hs.exists_core
  have hbody : (t.function? f).map FunctionNode.body = some node.body := by
    rw [hnode, Option.map_some]
  rw [hbody]
  exact hretains.map (fun core => core.2.1) f _ hbody

/-- Functions that are there keep their helpers. -/
theorem helpersOf_eq_of_retains (hretains : Retains FunctionNode.core t t')
    {fs : List FunctionId} (hfs : ∀ f ∈ fs, ∃ s, t.HasSignature f s) :
    t'.helpersOf fs = t.helpersOf fs := by
  refine List.flatMap_congr fun f hf => ?_
  obtain ⟨s, hs⟩ := hfs f hf
  obtain ⟨node, hnode, -⟩ := hs.exists_core
  have hvalues : (t.function? f).map FunctionNode.defaultValues = some node.defaultValues := by
    rw [hnode, Option.map_some]
  have hvalues' := hretains.map (fun core => core.2.2) f _ hvalues
  obtain ⟨node', hnode', hsame⟩ := Option.map_eq_some_iff.mp hvalues'
  have hnode' : t'.function? f = some node' := hnode'
  rw [hnode, hnode', Option.toList_some, Option.toList_some, List.flatMap_singleton,
    List.flatMap_singleton]
  exact congrArg Option.toList hsame

end SourceTree

namespace Draft

open SourceTree

variable {d d' d'' : Draft} {found found' : List (Signature × Option FunctionId)}
  {bodies left left' : List Body}

/-- A step that searches a list of bodies for some signatures, one after the other. What it finds
becomes functions, some with helpers, and the other bodies are left. -/
structure Finds (d d' : Draft) (found : List (Signature × Option FunctionId))
    (bodies left : List Body) : Prop where
  /-- Functions are appended. -/
  appends : Appends d d'
  /-- The bodies that are left stay in order. -/
  rest : left.Sublist bodies
  /-- What is found has the signature that is searched. -/
  each : ∀ e ∈ found, ∀ f ∈ e.2, d'.tree.HasSignature f e.1
  /-- Helpers are named as helpers. -/
  helpers : ∀ h ∈ d'.tree.helpersOf (found.filterMap Prod.snd),
    ∃ s, d'.tree.HasSignature h s ∧ s.IsHelper
  /-- No body is lost, and none is taken twice. -/
  all : bodies.Perm (d'.tree.bodiesAt (found.filterMap Prod.snd)
    ++ d'.tree.bodiesAt (d'.tree.helpersOf (found.filterMap Prod.snd)) ++ left)
  /-- Of different signatures that are not named as helpers all are found that there are. -/
  complete : (found.map Prod.fst).Nodup → (∀ e ∈ found, ¬ e.1.IsHelper) →
    ∀ e ∈ found, e.2 = none → ∀ b ∈ bodies, b.signature ≠ e.1

/-- No search finds nothing and leaves all bodies. -/
theorem Finds.refl (d : Draft) (bodies : List Body) : Finds d d [] bodies bodies where
  appends := Appends.refl d
  rest := List.Sublist.refl bodies
  each := by simp
  helpers := by simp [helpersOf]
  all := List.Perm.refl bodies
  complete := by simp

/-- Whatever is found has one of the signatures that were searched for. -/
theorem Finds.exists_signature (h : Finds d d' found bodies left) :
    ∀ f ∈ found.filterMap Prod.snd, ∃ s ∈ found.map Prod.fst, d'.tree.HasSignature f s := by
  intro f hf
  obtain ⟨e, he, hsome⟩ := List.mem_filterMap.mp hf
  exact ⟨e.1, List.mem_map_of_mem he, h.each e he f hsome⟩

/-- A body that is not found, and is no helper, is left. -/
theorem Finds.mem_left (h : Finds d d' found bodies left) {b : Body} (hb : b ∈ bodies)
    (hsearched : b.signature ∉ found.map Prod.fst) (hhelper : ¬ b.signature.IsHelper) :
    b ∈ left := by
  have htaken {fs : List FunctionId} (hmem : b ∈ d'.tree.bodiesAt fs) :
      ∃ f ∈ fs, d'.tree.HasSignature f b.signature := by
    obtain ⟨node, hnode, rfl⟩ := List.mem_map.mp hmem
    obtain ⟨f, hf, hnode⟩ := List.mem_filterMap.mp hnode
    exact ⟨f, hf, by rw [HasSignature, hnode, Option.map_some]⟩
  rcases List.mem_append.mp (h.all.mem_iff.mp hb) with hmem | hmem
  · rcases List.mem_append.mp hmem with hmem | hmem
    · obtain ⟨f, hf, hbody⟩ := htaken hmem
      obtain ⟨s, hs, hsignature⟩ := h.exists_signature f hf
      rw [HasSignature, hbody] at hsignature
      exact absurd (Option.some.inj hsignature ▸ hs) hsearched
    · obtain ⟨f, hf, hbody⟩ := htaken hmem
      obtain ⟨s, hsignature, hs⟩ := h.helpers f hf
      rw [HasSignature, hbody] at hsignature
      exact absurd (Option.some.inj hsignature ▸ hs) hhelper
  · exact hmem

/-- Searches that follow one another find what both find. -/
theorem Finds.trans (h : Finds d d' found bodies left) (h' : Finds d' d'' found' left left') :
    Finds d d'' (found ++ found') bodies left' := by
  have hretains : Retains FunctionNode.core d'.tree d''.tree := h'.appends.retains
  have hfound : ∀ f ∈ found.filterMap Prod.snd, ∃ s, d'.tree.HasSignature f s := fun f hf => by
    obtain ⟨s, -, hs⟩ := h.exists_signature f hf
    exact ⟨s, hs⟩
  have hsome : ∀ f ∈ d'.tree.helpersOf (found.filterMap Prod.snd),
      ∃ s, d'.tree.HasSignature f s := fun f hf => by
    obtain ⟨s, hs, -⟩ := h.helpers f hf
    exact ⟨s, hs⟩
  have hhelpers := helpersOf_eq_of_retains hretains hfound
  refine ⟨h.appends.trans h'.appends, h'.rest.trans h.rest, fun e he f hf => ?_, fun f hf => ?_,
    ?_, fun hnodup hnames e he hnone b hb => ?_⟩
  · rcases List.mem_append.mp he with he | he
    · exact (h.each e he f hf).retains hretains
    · exact h'.each e he f hf
  · rw [List.filterMap_append, helpersOf_append, hhelpers, List.mem_append] at hf
    rcases hf with hf | hf
    · obtain ⟨s, hs, hhelper⟩ := h.helpers f hf
      exact ⟨s, hs.retains hretains, hhelper⟩
    · exact h'.helpers f hf
  · rw [List.filterMap_append, helpersOf_append, bodiesAt_append, bodiesAt_append, hhelpers,
      bodiesAt_eq_of_retains hretains hfound, bodiesAt_eq_of_retains hretains hsome]
    refine (h.all.trans (h'.all.append_left _)).trans ?_
    rw [← List.append_assoc]
    refine List.Perm.append_right _ ?_
    simp only [List.append_assoc]
    refine List.Perm.append_left _ ?_
    rw [← List.append_assoc, ← List.append_assoc]
    exact List.perm_append_comm.append_right _
  · rw [List.map_append, List.nodup_append] at hnodup
    rcases List.mem_append.mp he with hone | htwo
    · exact h.complete hnodup.1 (fun e he => hnames e (List.mem_append_left _ he)) e hone hnone b hb
    · -- The body for a later signature is none of those that were taken before.
      rintro heq
      have hsearched : b.signature ∉ found.map Prod.fst := fun hmem =>
        hnodup.2.2 _ hmem e.1 (List.mem_map_of_mem htwo) heq
      exact h'.complete hnodup.2.1 (fun e he => hnames e (List.mem_append_right _ he)) e htwo hnone
        b (h.mem_left hb hsearched (heq ▸ hnames e he)) heq

/-- Nothing is found. -/
theorem Finds.nothing {s : Signature} (htake : takeBody? (·.signature == s) bodies = none)
    (d : Draft) : Finds d d [(s, none)] bodies bodies := by
  have hnone : ∀ b ∈ bodies, b.signature ≠ s := by
    intro b hb heq
    unfold takeBody? at htake
    split at htake
    · simp at htake
    · next hfind => simpa [heq] using List.find?_eq_none.mp hfind b hb
  exact ⟨Appends.refl d, List.Sublist.refl bodies, by simp, by simp [helpersOf],
    List.Perm.refl _, by simpa using fun _ => hnone⟩

/-- A body is found. It may have a helper, which is taken out of what is left then. -/
theorem Finds.body {s : Signature} {node : FunctionNode} (more : List FunctionNode)
    (htake : takeBody? (·.signature == s) bodies = some (node.body, left))
    (hlocals : ∀ f ∈ node :: more, f.locals = [])
    (hhelper : node.defaultValues.toList
      = List.range' (d.tree.functions.length + 1) more.length)
    (hnames : ∀ f ∈ more, f.body.signature.IsHelper)
    (hrest : left.Perm (more.map FunctionNode.body ++ left')) (hsublist : left'.Sublist left) :
    Finds d (d.grow (node :: more)) [(s, some d.tree.functions.length)] bodies left' := by
  obtain ⟨hsignature, hleft⟩ := takeBody?_sublist htake
  have hnode : (d.grow (node :: more)).tree.function? d.tree.functions.length = some node :=
    grow_function? d (node :: more) 0
  have hhelpers : (d.grow (node :: more)).tree.helpersOf [d.tree.functions.length]
      = List.range' (d.tree.functions.length + 1) more.length := by
    rw [helpersOf, List.flatMap_singleton, hnode, ← hhelper]
    simp
  have hmore : (List.range' (d.tree.functions.length + 1) more.length).filterMap
      (d.grow (node :: more)).tree.function? = more := by
    have hall := Lists.filterMap_range'_getElem? (d.tree.functions ++ [node]) more
    rwa [List.length_append, List.append_assoc] at hall
  have hbodies : (d.grow (node :: more)).tree.bodiesAt
      (List.range' (d.tree.functions.length + 1) more.length) = more.map FunctionNode.body := by
    rw [bodiesAt, hmore]
  refine ⟨⟨_, rfl, hlocals⟩, hsublist.trans hleft, ?_, fun h hh => ?_, ?_, by simp⟩
  · intro e he f hf
    obtain rfl := List.mem_singleton.mp he
    rw [← Option.some.inj hf, HasSignature, hnode, Option.map_some]
    exact congrArg some (eq_of_beq hsignature)
  · have hh : h ∈ List.range' (d.tree.functions.length + 1) more.length := hhelpers ▸ hh
    obtain ⟨i, hi, rfl⟩ := List.mem_range'.mp hh
    have hget : (d.grow (node :: more)).tree.function? (d.tree.functions.length + 1 + 1 * i)
        = some more[i] := by
      rw [Nat.one_mul, Nat.add_assoc, Nat.add_comm 1 i, grow_function?, List.getElem?_cons_succ,
        List.getElem?_eq_getElem hi]
    exact ⟨_, by rw [HasSignature, hget, Option.map_some], hnames _ (List.getElem_mem hi)⟩
  · have hown : (d.grow (node :: more)).tree.bodiesAt [d.tree.functions.length] = [node.body] := by
      simp [bodiesAt, hnode]
    change bodies.Perm ((d.grow (node :: more)).tree.bodiesAt [d.tree.functions.length]
      ++ (d.grow (node :: more)).tree.bodiesAt
        ((d.grow (node :: more)).tree.helpersOf [d.tree.functions.length]) ++ left')
    rw [hown, hhelpers, hbodies, List.append_assoc]
    exact (takeBody?_perm htake).trans (hrest.cons node.body)

/-- The name of a helper is that of its function with an ending. -/
theorem isHelper_of_isOfFunction {candidate declared : Signature} {count : Option Nat}
    (h : DefaultHelper.isOfFunction candidate declared count = true) : candidate.IsHelper := by
  exact ⟨declared.name, (DefaultHelper.isOfFunction_iff.mp h).1⟩

/-- The body of a function of the interface is searched. -/
theorem addFunctionBody_finds (interfaceName : String) (f : FunctionNode) (bodies : List Body)
    (d : Draft) :
    Finds d (addFunctionBody interfaceName f bodies d).2
      [(f.body.signature.inDefaultImpls interfaceName,
        (addFunctionBody interfaceName f bodies d).1.1)]
      bodies (addFunctionBody interfaceName f bodies d).1.2 ∧
    ∀ id ∈ (addFunctionBody interfaceName f bodies d).1.1,
      (addFunctionBody interfaceName f bodies d).2.tree.HasKind id
        (.declared f.name none false) := by
  cases hbody : takeBody? (·.signature == f.body.signature.inDefaultImpls interfaceName)
    bodies with
  | none =>
    rw [addFunctionBody, hbody]
    exact ⟨Finds.nothing hbody d, by simp [pure_apply]⟩
  | some taken =>
    obtain ⟨body, rest⟩ := taken
    cases hhelper : takeBody? (DefaultHelper.isOfFunction ·.signature f.body.signature none)
      rest with
    | none =>
      rw [addFunctionBody_alone hbody hhelper]
      refine ⟨Finds.body [] hbody (by simp) rfl (by simp) (List.Perm.refl _)
        (List.Sublist.refl _), ?_⟩
      rintro id ⟨⟩
      exact congrArg (Option.map FunctionNode.kind) (grow_function? d [_] 0)
    | some more =>
      obtain ⟨helper, left⟩ := more
      obtain ⟨hnamed, hsublist⟩ := takeBody?_sublist hhelper
      rw [addFunctionBody_withHelper hbody hhelper]
      refine ⟨Finds.body _ hbody (by simp) rfl (by simpa using isHelper_of_isOfFunction hnamed)
        (takeBody?_perm hhelper) hsublist, ?_⟩
      rintro id ⟨⟩
      exact congrArg (Option.map FunctionNode.kind) (grow_function? d [_, _] 0)

/-- What is found for a function of an interface is known by its name. -/
def ServesFunction (t : SourceTree) (interfaceName : String)
    (found : List (Signature × Option FunctionId)) (f : BoundFunction)
    (entry : Option (String × FunctionId)) : Prop :=
  (f.body.signature.inDefaultImpls interfaceName, entry.map Prod.snd) ∈ found ∧
    ∀ e ∈ entry, e.1 = f.name ∧ t.HasKind e.2 (.declared f.name none false)

/-- What is found for an accessor of an interface. -/
def ServesAccessor (t : SourceTree) (interfaceName : String)
    (found : List (Signature × Option FunctionId)) (accessor : Option Body)
    (id : Option FunctionId) : Prop :=
  match accessor with
  | none => id = none
  | some b => (b.signature.inDefaultImpls interfaceName, id) ∈ found ∧
    ∀ f ∈ id, t.HasKind f .anonymous

/-- What is found for a property of an interface is known by its name. -/
structure ServesProperty (t : SourceTree) (interfaceName : String)
    (found : List (Signature × Option FunctionId)) (q : BoundProperty) (p : PropertyNode) :
    Prop where
  /-- The name is that of the property. -/
  name : p.name = q.name
  /-- The getter. -/
  getter : ServesAccessor t interfaceName found q.getter p.getter
  /-- The setter. -/
  setter : ServesAccessor t interfaceName found q.setter p.setter

section Serves

variable {t t' : SourceTree} {interfaceName : String}

/-- What is found for a function stays found. -/
theorem ServesFunction.later {f : BoundFunction} {entry : Option (String × FunctionId)}
    (h : ServesFunction t interfaceName found f entry)
    (hretains : Retains FunctionNode.core t t') (hfound : found ⊆ found') :
    ServesFunction t' interfaceName found' f entry :=
  ⟨hfound h.1, fun e he => ⟨(h.2 e he).1, (h.2 e he).2.retains hretains⟩⟩

/-- What is found for an accessor stays found. -/
theorem ServesAccessor.later {accessor : Option Body} {id : Option FunctionId}
    (h : ServesAccessor t interfaceName found accessor id)
    (hretains : Retains FunctionNode.core t t') (hfound : found ⊆ found') :
    ServesAccessor t' interfaceName found' accessor id := by
  cases accessor with
  | none => exact h
  | some b => exact ⟨hfound h.1, fun f hf => (h.2 f hf).retains hretains⟩

/-- What is found for a property stays found. -/
theorem ServesProperty.later {q : BoundProperty} {p : PropertyNode}
    (h : ServesProperty t interfaceName found q p)
    (hretains : Retains FunctionNode.core t t') (hfound : found ⊆ found') :
    ServesProperty t' interfaceName found' q p :=
  ⟨h.name, h.getter.later hretains hfound, h.setter.later hretains hfound⟩

end Serves

/-- The bodies of the functions of the interface are searched. -/
theorem addFunctionBodies_finds (interfaceName : String) {members : List FunctionNode}
    {bound : List BoundFunction} (hbound : List.Forall₂ (fun (node : FunctionNode)
      (f : BoundFunction) => node.name = f.name ∧ node.body = f.body) members bound)
    (bodies : List Body) (d : Draft) :
    ∃ keyed left d', addFunctionBodies interfaceName members bodies d = ((keyed, left), d') ∧
      ∃ found entries, Finds d d' found bodies left ∧
        found.map Prod.fst = bound.map (·.body.signature.inDefaultImpls interfaceName) ∧
        found.filterMap Prod.snd = keyed.map Prod.snd ∧ keyed = entries.filterMap id ∧
        List.Forall₂ (ServesFunction d'.tree interfaceName found) bound entries := by
  induction hbound generalizing bodies d with
  | nil => exact ⟨[], bodies, d, rfl, [], [], Finds.refl d bodies, rfl, rfl, rfl, .nil⟩
  | @cons node f members bound hfirst _ ih =>
    obtain ⟨hname, hbody⟩ := hfirst
    obtain ⟨hone, hkind⟩ := addFunctionBody_finds interfaceName node bodies d
    rcases hrun : addFunctionBody interfaceName node bodies d with ⟨⟨first, left⟩, d₁⟩
    rw [hrun] at hone hkind
    dsimp only at hone hkind
    rw [hbody] at hone
    rw [hname] at hkind
    obtain ⟨keyed, left', d₂, hmore, found, entries, htwo, hsearched, hids, hkeyed, hall⟩ :=
      ih left d₁
    refine ⟨(first.toList.map fun id => (f.name, id)) ++ keyed, left', d₂, ?_,
      [(f.body.signature.inDefaultImpls interfaceName, first)] ++ found,
      (first.map fun id => (f.name, id)) :: entries, hone.trans htwo, ?_, ?_, ?_, ?_⟩
    · rw [addFunctionBodies, bind_apply, hrun]
      dsimp only
      rw [bind_apply, hmore, hname]
      rfl
    · rw [List.map_append, hsearched]
      rfl
    · rw [List.filterMap_append, hids, List.map_append]
      cases first <;> rfl
    · cases first <;> simp [hkeyed]
    · refine .cons ⟨List.mem_append_left _ ?_, ?_⟩ (hall.imp fun _ _ h =>
        h.later (Retains.refl _ _) (List.subset_append_right _ _))
      · cases first <;> simp
      · intro e he
        obtain ⟨id, hid, rfl⟩ := Option.map_eq_some_iff.mp he
        exact ⟨rfl, (hkind id hid).retains htwo.appends.retains⟩

/-- The body of an accessor of the interface is searched. -/
theorem addAccessorBody_finds (interfaceName : String) {accessor : Option FunctionId}
    {bound : Option Body} (hbound : List.Forall₂ d.tree.HasBody accessor.toList bound.toList)
    (bodies : List Body) :
    ∃ id left d', addAccessorBody interfaceName accessor bodies d = ((id, left), d') ∧
      ∃ found, Finds d d' found bodies left ∧
        found.map Prod.fst = bound.toList.map (·.signature.inDefaultImpls interfaceName) ∧
        found.filterMap Prod.snd = id.toList ∧
        ServesAccessor d'.tree interfaceName found bound id := by
  rw [addAccessorBody, bind_apply, get_apply]
  dsimp only
  cases bound with
  | none =>
    have hnone : accessor = none := by
      cases accessor with
      | none => rfl
      | some id => cases hbound
    rw [hnone]
    exact ⟨none, bodies, d, rfl, [], Finds.refl d bodies, rfl, rfl, rfl⟩
  | some b =>
    obtain ⟨id, rfl, hbody⟩ : ∃ id, accessor = some id ∧ d.tree.HasBody id b := by
      cases accessor with
      | none => cases hbound
      | some id => exact ⟨id, rfl, (List.forall₂_cons.mp hbound).1⟩
    obtain ⟨node, hnode, rfl⟩ := Option.map_eq_some_iff.mp hbody
    rw [Option.bind_some, hnode]
    dsimp only
    cases htake : takeBody? (·.signature == node.body.signature.inDefaultImpls interfaceName)
      bodies with
    | none =>
      exact ⟨none, bodies, d, rfl, _, Finds.nothing htake d, rfl, rfl, List.mem_cons_self, by simp⟩
    | some taken =>
      obtain ⟨body, rest⟩ := taken
      refine ⟨some d.tree.functions.length, rest, d.grow [{ kind := .anonymous, body }], rfl, _,
        Finds.body [] htake (by simp) rfl (by simp) (List.Perm.refl _)
          (List.Sublist.refl _), rfl, rfl, List.mem_cons_self, ?_⟩
      rintro f ⟨⟩
      exact congrArg (Option.map FunctionNode.kind) (grow_function? d [_] 0)

/-- The signatures of the accessors of a property. -/
def accessorSignatures (q : BoundProperty) : List Signature :=
  (q.getter.toList ++ q.setter.toList).map Body.signature

/-- The bodies of the accessors of the interface are searched. Properties without any are left
out. -/
theorem addPropertyBodies_finds (interfaceName : String) {properties : List PropertyNode}
    {bound : List BoundProperty} (bodies : List Body) (d : Draft)
    (hbound : List.Forall₂ d.tree.HasProperty properties bound) :
    ∃ served left d', addPropertyBodies interfaceName properties bodies d = ((served, left), d') ∧
      ∃ found items, Finds d d' found bodies left ∧
        found.map Prod.fst
          = (bound.flatMap accessorSignatures).map (·.inDefaultImpls interfaceName) ∧
        found.filterMap Prod.snd = served.flatMap PropertyNode.accessors ∧
        served = items.filter (fun p => p.getter.isSome || p.setter.isSome) ∧
        List.Forall₂ (ServesProperty d'.tree interfaceName found) bound items := by
  induction properties generalizing bound bodies d with
  | nil =>
    obtain rfl := List.forall₂_nil_left_iff.mp hbound
    exact ⟨[], bodies, d, rfl, [], [], Finds.refl d bodies, rfl, rfl, rfl, .nil⟩
  | cons p rest ih =>
    obtain ⟨q, others, hp, hothers, rfl⟩ := List.forall₂_cons_left_iff.mp hbound
    obtain ⟨getter, left₁, d₁, hrunOne, found₁, hone, hsearchedOne, hidsOne, hgetter⟩ :=
      addAccessorBody_finds interfaceName hp.getter bodies
    obtain ⟨setter, left₂, d₂, hrunTwo, found₂, htwo, hsearchedTwo, hidsTwo, hsetter⟩ :=
      addAccessorBody_finds interfaceName (hp.retains hone.appends.retains).setter left₁
    have hboth := hone.trans htwo
    obtain ⟨served, left₃, d₃, hrunThree, found₃, items, hthree, hsearchedThree, hidsThree, rfl,
      hall⟩ := ih left₂ d₂ (hothers.imp fun _ _ h => h.retains hboth.appends.retains)
    refine ⟨(({ p with getter, setter } : PropertyNode) :: items).filter
      (fun p => p.getter.isSome || p.setter.isSome), left₃, d₃, ?_, found₁ ++ found₂ ++ found₃,
      { p with getter, setter } :: items, hboth.trans hthree, ?_, ?_, rfl, ?_⟩
    · rw [addPropertyBodies, bind_apply, hrunOne]
      dsimp only
      rw [bind_apply, hrunTwo]
      dsimp only
      rw [bind_apply, hrunThree, pure_apply, List.filter_cons]
      dsimp only
      split <;> rfl
    · rw [List.map_append, List.map_append, hsearchedOne, hsearchedTwo, hsearchedThree,
        List.flatMap_cons, List.map_append, accessorSignatures, List.map_append, List.map_append,
        List.map_map, List.map_map]
      rfl
    · rw [List.filterMap_append, List.filterMap_append, hidsOne, hidsTwo, hidsThree,
        List.filter_cons]
      cases getter <;> cases setter <;> rfl
    · have hlast : Retains FunctionNode.core d₂.tree d₃.tree := hthree.appends.retains
      refine .cons ⟨hp.name, ?_, ?_⟩ (hall.imp fun _ _ h =>
        h.later (Retains.refl _ _) (List.subset_append_right _ _))
      · refine hgetter.later (htwo.appends.retains.trans hlast) ?_
        rw [List.append_assoc]
        exact List.subset_append_left _ _
      · refine hsetter.later hlast ?_
        rw [List.append_assoc]
        exact List.Subset.trans (List.subset_append_left _ _) (List.subset_append_right _ _)

end Draft

end LineAtlas
