import LineAtlas.Proofs.Text.Split
import LineAtlas.Proofs.Tree.BackReferences
import LineAtlas.Proofs.Tree.PlacedLocals

/-!
# Bodies of interface members

A holder has the bodies of interface methods under signatures with the interface in front. Members
of an interface that have different signatures have different ones there, too. So when none of them
is named as a helper, every member gets a body if the holder has one for it. All other methods of
the holder are helpers of these bodies, local functions below them, or functions of their own.
-/

namespace LineAtlas

open ResolvedUnit

namespace Signature

/-- A descriptor begins with the parameters. -/
def HasParameters (s : Signature) : Prop := ∃ rest, s.descriptor = "(" ++ rest

/-- It can be decided whether a signature has parameters. -/
instance (s : Signature) : Decidable s.HasParameters :=
  decidable_of_iff ((Text.dropHead? "(" s.descriptor).isSome = true) <| by
    simp only [Option.isSome_iff_exists, Text.dropHead?_eq_some_iff, HasParameters]

/-- In a holder the interface itself comes as the first parameter. -/
theorem descriptor_inDefaultImpls {s : Signature} {rest : String} (h : s.descriptor = "(" ++ rest)
    (interfaceName : String) :
    (s.inDefaultImpls interfaceName).descriptor = "(L" ++ interfaceName ++ ";" ++ rest := by
  have hlist : s.descriptor.toList = '(' :: rest.toList := by
    rw [h, String.toList_append]
    rfl
  simp [inDefaultImpls, hlist]

/-- With the interface in front, different signatures are still different. -/
theorem inDefaultImpls_inj {s s' : Signature} {interfaceName : String} (hs : s.HasParameters)
    (hs' : s'.HasParameters)
    (h : s.inDefaultImpls interfaceName = s'.inDefaultImpls interfaceName) : s = s' := by
  obtain ⟨rest, hrest⟩ := hs
  obtain ⟨rest', hrest'⟩ := hs'
  have hname : s.name = s'.name := (congrArg Signature.name h :)
  have hdescriptor := congrArg Signature.descriptor h
  rw [descriptor_inDefaultImpls hrest, descriptor_inDefaultImpls hrest'] at hdescriptor
  have hsame : rest = rest' := String.append_right_inj _ |>.mp hdescriptor
  obtain ⟨name, descriptor⟩ := s
  obtain ⟨name', descriptor'⟩ := s'
  simp_all

end Signature

/-- A holder has a body for an interface method with a signature. -/
def DefaultImplsUnit.hasBody (u : DefaultImplsUnit) (s : Signature) : Bool :=
  u.methods.any (·.signature == s.inDefaultImpls u.interfaceName)

/-- A holder has a body for an accessor of a property. -/
def DefaultImplsUnit.hasAccessor (u : DefaultImplsUnit) (q : BoundProperty) : Bool :=
  q.getter.any (u.hasBody ·.signature) || q.setter.any (u.hasBody ·.signature)

/-- Changing the slots of a class makes no holder of it. -/
theorem ClassNode.shape_of_onNamed {change : NamedShape → NamedShape} {node : ClassNode}
    (h : (node.onNamed change).shape = .defaultImpls) : node.shape = .defaultImpls := by
  unfold onNamed at h
  split at h
  · simp at h
  · exact h

namespace SourceTree

variable {t : SourceTree} {u : DefaultImplsUnit} {keys : LocalKeys} {locals : List Body}

/-- A function of a kind has a body that a holder has for an interface method with a signature. -/
def Takes (t : SourceTree) (u : DefaultImplsUnit) (s : Signature) (kind : FunctionKind)
    (f : FunctionId) : Prop :=
  ∃ node, t.function? f = some node ∧ node.kind = kind ∧ node.body ∈ u.methods ∧
    node.body.signature = s.inDefaultImpls u.interfaceName

/-- A function with a body for a function of an interface is known by the name of that one. -/
def TakesFunction (t : SourceTree) (u : DefaultImplsUnit) (entry : String × FunctionId)
    (f : BoundFunction) : Prop :=
  entry.1 = f.name ∧ t.Takes u f.body.signature (.declared f.name none false) entry.2

/-- An accessor is there exactly if the holder has a body for it, and has such a body. -/
def TakesAccessor (t : SourceTree) (u : DefaultImplsUnit) (id : Option FunctionId)
    (accessor : Option Body) : Prop :=
  id.isSome = accessor.any (u.hasBody ·.signature) ∧
    ∀ f ∈ id, ∃ b ∈ accessor, t.Takes u b.signature .anonymous f

/-- A property with bodies for a property of an interface has the name of that one. -/
structure TakesProperty (t : SourceTree) (u : DefaultImplsUnit) (p : PropertyNode)
    (q : BoundProperty) : Prop where
  /-- The name. -/
  name : p.name = q.name
  /-- The getter. -/
  getter : t.TakesAccessor u p.getter q.getter
  /-- The setter. -/
  setter : t.TakesAccessor u p.setter q.setter

/-- A function is directly below another one. -/
def HasBelow (t : SourceTree) (f g : FunctionId) : Prop :=
  ∃ node, t.function? f = some node ∧ g ∈ node.below

/-- Methods are those of functions below others that have keys: each continues the key. -/
def NestsBelow (t : SourceTree) (keys : LocalKeys) (bodies : List Body) : Prop :=
  ∃ ids : List FunctionId, ids.Nodup ∧ (t.bodiesAt ids).Perm bodies ∧
    ∀ f ∈ ids, ∃ node, t.function? f = some node ∧ ∃ key outer rest, (key, outer) ∈ keys ∧
      LocalKeys.Continues key rest node.body.signature.name ∧ Relation.TransGen t.HasBelow outer f

/-- A holder has the bodies of the members of an interface, and all its other methods below or
beside them. -/
structure MatchesBodies (t : SourceTree) (c : ClassId) (node : ClassNode) (m : Members)
    (u : DefaultImplsUnit) : Prop where
  /-- Every method is that of one function of the class. -/
  once : (t.bodiesOf c).Perm u.methods
  /-- No method is a body for two members. -/
  apart : ∀ b ∈ u.methods, ∀ s ∈ Draft.memberSignatures m, ∀ s' ∈ Draft.memberSignatures m,
    b.signature = s.inDefaultImpls u.interfaceName →
      b.signature = s'.inDefaultImpls u.interfaceName → s = s'
  /-- Properties have the bodies of the accessors. -/
  properties : List.Forall₂ (t.TakesProperty u) node.properties (m.properties.filter u.hasAccessor)
  /-- There are no constructors. -/
  constructors : node.constructors = []
  /-- The first functions have the bodies of functions of the interface. The methods that are no
  bodies are helpers of these, local functions below them, and further functions. -/
  functions : ∃ (keyed : LocalKeys) (others : List FunctionId) (locals plain : List Body),
    node.functions = keyed.map Prod.snd ++ others ∧
    List.Forall₂ (t.TakesFunction u) keyed (m.functions.filter (u.hasBody ·.body.signature)) ∧
    u.methods.Perm (t.bodiesAt (Draft.implementing keyed node.properties)
      ++ (t.bodiesAt (t.helpersOf (Draft.implementing keyed node.properties))
        ++ (locals ++ plain))) ∧
    t.NestsBelow (Draft.holderKeys keyed node.properties) locals ∧
    List.Forall₂ (Draft.IsPlain t) others plain

/-- A local function that is shown below another one is below it in the tree. -/
theorem ShowsLocal.hasBelow {ids : List FunctionId} {p : PlacedLocal} {f : FunctionId}
    (h : t.ShowsLocal ids p f) : t.HasBelow p.outer f := by
  obtain ⟨-, outer, -, houter, -, -, ⟨-, hhelper, -⟩ | ⟨-, hlocal, -⟩⟩ := h
  · exact ⟨outer, houter, List.mem_append_left _ (by simp [hhelper])⟩
  · exact ⟨outer, houter, List.mem_append_right _ hlocal⟩

/-- Local functions are below functions of the class itself, by way of shorter ones. -/
theorem PlacesLocals.nestsBelow (h : t.PlacesLocals keys locals) : t.NestsBelow keys locals := by
  obtain ⟨-, placed, hbodies, hnodup, hplaced⟩ := h
  have hnode {p : PlacedLocal × FunctionId} (hp : p ∈ placed) :
      ∃ node, t.function? p.2 = some node ∧ node.body = p.1.body := by
    obtain ⟨node, -, hnode, -, hbody, -⟩ := (hplaced p hp).2
    exact ⟨node, hnode, hbody⟩
  refine ⟨placed.map Prod.snd, hnodup, ?_, fun f hf => ?_⟩
  · have hall : t.bodiesAt (placed.map Prod.snd) = placed.map fun p => p.1.body := by
      rw [bodiesAt, List.map_filterMap, List.filterMap_map]
      have hsome : ∀ p ∈ placed, ((t.function? p.2).map FunctionNode.body) = some p.1.body := by
        intro p hp
        obtain ⟨node, hfunction, hbody⟩ := hnode hp
        rw [hfunction, Option.map_some, hbody]
      rw [← List.filterMap_eq_map]
      exact List.filterMap_congr hsome
    rwa [hall]
  · obtain ⟨p, hp, rfl⟩ := List.mem_map.mp hf
    obtain ⟨node, hfunction, hbody⟩ := hnode hp
    refine ⟨node, hfunction, ?_⟩
    rw [hbody]
    -- By induction on the length of the name: a function around it that is local has a shorter one.
    induction hsize : p.1.name.utf8ByteSize using Nat.strong_induction_on generalizing p node with
    | _ size ih =>
      obtain ⟨hbelow, hshows⟩ := hplaced p hp
      obtain ⟨-, rest, hrest⟩ := hbelow.isOuterKey.exists_continues
      rcases List.mem_append.mp hbelow.mem with hkey | hlocal
      · exact ⟨_, _, rest, hkey, hrest, .single hshows.hasBelow⟩
      · obtain ⟨q, hq, heq⟩ := List.mem_map.mp hlocal
        obtain ⟨hname, hid⟩ := Prod.mk.inj heq
        obtain ⟨node', hfunction', hbody'⟩ := hnode hq
        have hshorter : q.1.name.utf8ByteSize < size := by
          rw [hname, ← hsize]
          exact hrest.size_lt
        obtain ⟨key, outer, rest', hkey, hrest', hpath⟩ :=
          ih _ hshorter q hq (List.mem_map_of_mem hq) node' hfunction' hbody' rfl
        refine ⟨key, outer, rest' ++ "$" ++ rest, hkey, ⟨?_, ?_⟩,
          hpath.tail (hid ▸ hshows.hasBelow)⟩
        · have hq' : p.1.key = key ++ "$" ++ rest' := hname.symm.trans hrest'.1
          rw [show p.1.body.signature.name = p.1.key ++ "$" ++ rest from hrest.1, hq']
          simp only [String.append_assoc]
        · simp [hrest.2]

end SourceTree

namespace Draft

open SourceTree

variable {d : Draft} {t : SourceTree} {m : Members} {u : DefaultImplsUnit} {node : ClassNode}
  {keyed : LocalKeys} {others : List FunctionId} {left : List Body}
  {found : List (Signature × Option FunctionId)}

/-- What is found for a signature has a body of the holder, and it is found if there is one. -/
theorem Divides.takes (h : Divides t m u node keyed others left)
    (hserves : Serves t m u node.properties keyed found)
    (hapart : ((memberSignatures m).map (·.inDefaultImpls u.interfaceName)).Nodup)
    (hnames : ∀ s ∈ memberSignatures m, ¬ s.IsHelper) {s : Signature} {id : Option FunctionId}
    (hfound : (s.inDefaultImpls u.interfaceName, id) ∈ found) :
    id.isSome = u.hasBody s ∧ ∀ f ∈ id, ∀ kind, t.HasKind f kind → t.Takes u s kind f := by
  have hsome : ∀ f ∈ id, ∃ node, t.function? f = some node ∧ node.body ∈ u.methods ∧
      node.body.signature = s.inDefaultImpls u.interfaceName := by
    intro f hf
    obtain ⟨node', hnode', hsignature⟩ := (hserves.each _ hfound f hf).exists_core
    have hmem : f ∈ implementing keyed node.properties := by
      rw [← hserves.ids]
      exact List.mem_filterMap.mpr ⟨_, hfound, hf⟩
    refine ⟨node', hnode', h.all.mem_iff.mpr ?_, hsignature⟩
    refine List.mem_append_left _ (List.mem_append_left _ (List.mem_map.mpr ⟨node', ?_, rfl⟩))
    exact List.mem_filterMap.mpr ⟨f, hmem, hnode'⟩
  refine ⟨?_, fun f hf kind hkind => ?_⟩
  · cases id with
    | none =>
      have hnone := hserves.complete (hserves.searched ▸ hapart) (fun e he => ?_) _ hfound rfl
      · simpa [DefaultImplsUnit.hasBody] using hnone
      · have hmem := List.mem_map_of_mem (f := Prod.fst) he
        rw [hserves.searched] at hmem
        obtain ⟨s', hs', heq⟩ := List.mem_map.mp hmem
        rw [← heq]
        exact hnames s' hs'
    | some f =>
      obtain ⟨node', -, hbody, hsignature⟩ := hsome f rfl
      have hany : u.hasBody s = true :=
        List.any_eq_true.mpr ⟨_, hbody, by rw [hsignature, beq_self_eq_true]⟩
      rw [hany, Option.isSome_some]
  · obtain ⟨node', hnode', hbody, hsignature⟩ := hsome f hf
    rw [HasKind, hnode', Option.map_some, Option.some.injEq] at hkind
    exact ⟨node', hnode', hkind, hbody, hsignature⟩

/-- An accessor is found if there is a body for it. -/
theorem Divides.takesAccessor (h : Divides t m u node keyed others left)
    (hserves : Serves t m u node.properties keyed found)
    (hapart : ((memberSignatures m).map (·.inDefaultImpls u.interfaceName)).Nodup)
    (hnames : ∀ s ∈ memberSignatures m, ¬ s.IsHelper) {accessor : Option Body}
    {id : Option FunctionId} (hserved : ServesAccessor t u.interfaceName found accessor id) :
    t.TakesAccessor u id accessor := by
  cases accessor with
  | none =>
    obtain rfl : id = none := hserved
    exact ⟨rfl, by simp⟩
  | some b =>
    obtain ⟨hfound, hkind⟩ := hserved
    obtain ⟨hsome, htakes⟩ := h.takes hserves hapart hnames hfound
    exact ⟨hsome, fun f hf => ⟨b, rfl, htakes f hf _ (hkind f hf)⟩⟩

/-- What is divided among members with different signatures matches them. -/
theorem Divides.matchesBodies (h : Divides t m u node keyed others left)
    (hplaced : t.PlacesLocals (holderKeys keyed node.properties)
      (left.filter (isLocalTo (holderKeys keyed node.properties))))
    {c : ClassId} (honce : (t.bodiesOf c).Perm u.methods) (hapart : (memberSignatures m).Nodup)
    (hparameters : ∀ s ∈ memberSignatures m, s.HasParameters)
    (hnames : ∀ s ∈ memberSignatures m, ¬ s.IsHelper) : t.MatchesBodies c node m u := by
  have hinj : ∀ s ∈ memberSignatures m, ∀ s' ∈ memberSignatures m,
      s.inDefaultImpls u.interfaceName = s'.inDefaultImpls u.interfaceName → s = s' :=
    fun s hs s' hs' heq =>
      Signature.inDefaultImpls_inj (hparameters s hs) (hparameters s' hs') heq
  have hshifted : ((memberSignatures m).map (·.inDefaultImpls u.interfaceName)).Nodup :=
    hapart.map_on hinj
  obtain ⟨found, hserves⟩ := h.found
  refine ⟨honce, fun b _ s hs s' hs' hone htwo => hinj s hs s' hs' (hone.symm.trans htwo), ?_,
    h.constructors, keyed, others, _, _, h.functions, ?_, ?_, hplaced.nestsBelow, h.others⟩
  · obtain ⟨items, hitems, hall⟩ := hserves.properties
    have htakes : List.Forall₂ (t.TakesProperty u) items m.properties :=
      (hall.imp fun q p hserved => ⟨hserved.name,
        h.takesAccessor hserves hshifted hnames hserved.getter,
        h.takesAccessor hserves hshifted hnames hserved.setter⟩).flip
    rw [hitems]
    refine List.rel_filter (fun p q htake => ?_) htakes
    change (p.getter.isSome || p.setter.isSome) = true ↔ u.hasAccessor q = true
    rw [htake.getter.1, htake.setter.1, DefaultImplsUnit.hasAccessor]
  · obtain ⟨entries, hkeyed, hall⟩ := hserves.functions
    rw [hkeyed]
    refine Lists.forall₂_filterMap (hall.imp fun f entry hserved => ?_)
    obtain ⟨hfound, hentry⟩ := hserved
    obtain ⟨hsome, htakes⟩ := h.takes hserves hshifted hnames hfound
    refine ⟨fun e he => ⟨(hentry e he).1, ?_⟩, ?_⟩
    · exact htakes e.2 (Option.mem_map_of_mem Prod.snd he) _ (hentry e he).2
    · rw [← hsome, Option.isSome_map]
  · rw [← List.append_assoc]
    exact h.all.trans ((List.filter_append_perm _ left).symm.append_left _)

/-- Local functions of a holder fit its keys, so that none of them is stray. -/
theorem not_strands_filter {failures : List ClassFailure} {jvmName : String} {keys : LocalKeys}
    (left : List Body) : ¬ Strands failures jvmName keys (left.filter (isLocalTo keys)) := by
  rintro ⟨body, hbody, hstray, -⟩
  have hlocal : isLocalTo keys body = true := (List.mem_filter.mp hbody).2
  have hfits := LocalKeys.longestKey?_isSome_iff.mp hlocal
  exact (hfits.mono (List.subset_append_left _ _)).not_isStray hstray

/-- No holder of a draft has failed. -/
def HoldersLive (d : Draft) : Prop :=
  ∀ node ∈ d.tree.classes, node.shape = .defaultImpls → node.failed = false

/-- Before holders are placed there is none. -/
theorem Added.holdersLive {kept : List ResolvedUnit} {rejected : List String}
    (h : Added d kept rejected) : HoldersLive d := by
  intro node hnode hshape
  obtain ⟨c, hc⟩ := List.getElem?_of_mem hnode
  obtain ⟨v, hv, hstands⟩ := h.holds.laid.exists_unit hc
  have hholder := List.of_mem_filter (List.mem_of_getElem? hv)
  cases v with
  | classUnit w => simp [ClassNode.StandsFor, hshape, ClassShape.bare] at hstands
  | localClass w => simp [ClassNode.StandsFor, hshape] at hstands
  | facade w => simp [ClassNode.StandsFor, hshape, ClassShape.IsFacade] at hstands
  | defaultImpls w => simp [isHolder] at hholder
  | opaqueUnit | foreign => exact hstands.elim

/-- Slots have nothing to do with failing. -/
theorem HoldersLive.modifyNamed (h : HoldersLive d) (o : ClassId)
    (change : NamedShape → NamedShape) : HoldersLive (modifyNamed o change d).2 := by
  rw [modifyNamed_apply]
  intro other hother hshape
  obtain ⟨i, hi⟩ := List.getElem?_of_mem hother
  obtain ⟨old, hold, rfl⟩ := Lists.getElem?_modify_eq_some hi
  have hlive := h old (List.mem_of_getElem? hold)
  by_cases hoi : o = i
  · rw [if_pos hoi] at hshape ⊢
    rw [ClassNode.onNamed_failed]
    exact hlive (ClassNode.shape_of_onNamed hshape)
  · rw [if_neg hoi] at hshape ⊢
    exact hlive hshape

/-- Placing a holder does not fail it. -/
theorem HoldersLive.placeHolder (h : HoldersLive d) (file : String) (u : DefaultImplsUnit) :
    HoldersLive (placeHolder file u d).2 := by
  cases hfind : d.namedWith? u.interfaceName with
  | none =>
    rw [placeHolder_apply_of_none file hfind]
    exact h
  | some o =>
    obtain ⟨interface, ho, -⟩ := exists_class_of_namedWith? hfind
    obtain ⟨block, node, source, hadd, -, -, -, hfailed⟩ := addHolder_withClass d file u interface
    have hall : HoldersLive (d.withClass block node source []) := by
      intro other hother hshape
      rcases List.mem_append.mp hother with hold | hnew
      · exact h other hold hshape
      · rw [List.mem_singleton.mp hnew, hfailed]
    rw [placeHolder_apply_of_some file hfind ho hadd]
    exact hall.modifyNamed o _

/-- When all holders are placed, none of them has failed. -/
theorem HoldersLive.placeHolders (h : HoldersLive d) : HoldersLive (placeHolders d).2 := by
  have hloop (holders : List (String × DefaultImplsUnit)) (d : Draft) (h : HoldersLive d) :
      HoldersLive (holders.forM (fun holder => Draft.placeHolder holder.1 holder.2) d).2 := by
    induction holders generalizing d with
    | nil => exact h
    | cons first rest ih => exact ih _ (h.placeHolder first.1 first.2)
  exact hloop d.holders d h

/-- Two units that are kept have different names. -/
theorem eq_of_mem_accepted {added : List (String × ResolvedUnit)} {one two : ResolvedUnit}
    {name : String} (hone : one ∈ accepted added) (htwo : two ∈ accepted added)
    (hname : one.jvmName? = some name) (hname' : two.jvmName? = some name) : one = two :=
  Option.some.inj ((find?_of_mem_accepted hone hname).symm.trans
    (find?_of_mem_accepted htwo hname'))

end Draft

namespace SourceTree

open Draft

/-- In a composed tree a holder whose interface is kept has a class, with a function for every
method. -/
theorem compose_emitsHolder (path : String) (policy : AccountingPolicy)
    {added : List (String × ResolvedUnit)} {w : ClassUnit} {u : DefaultImplsUnit}
    (hw : .classUnit w ∈ accepted added) (hu : .defaultImpls u ∈ accepted added)
    (hname : w.jvmName = u.interfaceName) :
    ∃ c node, (compose path policy added).tree.class? c = some node ∧
      node.StandsFor (.defaultImpls u) ∧
      ((compose path policy added).tree.bodiesOf c).Perm u.methods := by
  have hadded : Added (added.forM (fun unit => add unit.1 unit.2) (empty path)).2
      (accepted added) (rejected added) := (Added.empty path).all added
  obtain ⟨units, hprepared⟩ := hadded.prepared (accepted_names_nodup added)
  have hsettles := hprepared.settles
  have hkeeps := hsettles.keeps.trans (hprepared.moves hsettles policy).keeps
  have hunit : .defaultImpls u ∈ units := by
    by_contra hnot
    obtain ⟨_, ⟨⟩, hany⟩ := hprepared.left _ hu hnot
    exact List.any_eq_false.mp hany _ hw (isClassNamed_iff.mpr ⟨w, rfl, hname⟩)
  obtain ⟨c, hc⟩ := List.getElem?_of_mem hunit
  obtain ⟨old, hold, hstands⟩ := hprepared.laid.exists_class hc
  obtain ⟨v, hv, -, hbodies⟩ := exists_standsFor_of_laid hprepared.laid hold
  obtain rfl := Option.some.inj (hv.symm.trans hc)
  obtain ⟨node, hnode, hbare⟩ := hkeeps.exists_class hold
  refine ⟨c, node, hnode, hstands.of_bare hbare, ?_⟩
  rw [show (compose path policy added).tree.bodiesOf c = _ from hkeeps.bodiesOf c]
  exact hbodies (hadded.holdersLive.placeHolders old (List.mem_of_getElem? hold) hstands.2)

/-- The bodies of interface methods are matched completely. Let an interface have members with
different signatures that have parameters and are not named as helpers. Then in a composed tree its
holder has a body for every one that it has a method for, under the name of the member, and never
one for two. Every other method of the holder is the one of a function, too: of a helper of such a
body, of a local function below one whose key its name continues, or of a function with its own
name. -/
theorem compose_matchesBodies (path : String) (policy : AccountingPolicy)
    {added : List (String × ResolvedUnit)} {w : ClassUnit} {u : DefaultImplsUnit}
    (hw : .classUnit w ∈ accepted added) (hu : .defaultImpls u ∈ accepted added)
    (hname : w.jvmName = u.interfaceName) (hapart : (memberSignatures w.members).Nodup)
    (hparameters : ∀ s ∈ memberSignatures w.members, s.HasParameters)
    (hnames : ∀ s ∈ memberSignatures w.members, ¬ s.IsHelper) :
    ∃ c node, (compose path policy added).tree.class? c = some node ∧
      node.StandsFor (.defaultImpls u) ∧
      (compose path policy added).tree.MatchesBodies c node w.members u := by
  obtain ⟨c, node, hnode, hstands, honce⟩ := compose_emitsHolder path policy hw hu hname
  obtain ⟨keys, locals, hregisters, hplaces⟩ :=
    compose_houses path policy added node (List.mem_of_getElem? hnode)
  refine ⟨c, node, hnode, hstands, ?_⟩
  cases hregisters with
  | @members v m hv hm hv' hlists =>
    have hsame := eq_of_mem_accepted hv hu hv'.jvmName hstands.jvmName
    rw [hsame] at hm
    cases hm
  | @holder u' v m keyed others left hu' hv hv' hm hstands' hdivides =>
    obtain rfl : u' = u := ResolvedUnit.defaultImpls.inj
      (eq_of_mem_accepted hu' hu hstands'.jvmName hstands.jvmName)
    obtain rfl : v = .classUnit w := eq_of_mem_accepted hv hw hv' (congrArg some hname)
    obtain rfl := Option.some.inj hm
    exact hdivides.matchesBodies (hplaces.resolve_left (not_strands_filter left)) honce hapart
      hparameters hnames

/-- An interface with a function and a property. -/
def squareInterface : ClassUnit :=
  { jvmName := "Square", declaredName := ⟨"", "Square"⟩, isObject := false, isData := false
    isInterface := true, companion := none
    members :=
      { functions := [⟨"area", some "I", false, ⟨⟨"area", "(I)I"⟩, .ofList []⟩, none⟩]
        properties := [⟨"side", false, true, false,
          some ⟨⟨"getSide", "()I"⟩, .ofList []⟩, none⟩] } }

/-- The holder of the bodies of both, with a helper, a lambda and a method of its own. -/
def squareHolder : DefaultImplsUnit :=
  { jvmName := "Square$DefaultImpls", interfaceName := "Square"
    methods :=
      [⟨⟨"area$lambda$0", "(I)I"⟩, .ofList [4]⟩, ⟨⟨"check", "()V"⟩, .ofList [9]⟩,
        ⟨⟨"area", "(LSquare;I)I"⟩, .ofList [3, 5]⟩,
        ⟨⟨"area$default", "(LSquare;IILjava/lang/Object;)I"⟩, .ofList [3]⟩,
        ⟨⟨"getSide", "(LSquare;)I"⟩, .ofList [7]⟩] }

/-- The methods of the holder are those of a body, its helper, a lambda in it, the body of a getter
and a function. -/
theorem compose_matchesBodies_square :
    let added := [("Square.class", classUnit squareInterface),
      ("Square$DefaultImpls.class", defaultImpls squareHolder)]
    classUnit squareInterface ∈ accepted added ∧ defaultImpls squareHolder ∈ accepted added ∧
    squareInterface.jvmName = squareHolder.interfaceName ∧
    (memberSignatures squareInterface.members).Nodup ∧
    (∀ s ∈ memberSignatures squareInterface.members, s.HasParameters) ∧
    (∀ s ∈ memberSignatures squareInterface.members, ¬ s.IsHelper) ∧
    ∃ c node, (compose "Square.kt" .strict added).tree.class? c = some node ∧
      node.StandsFor (.defaultImpls squareHolder) ∧
      (compose "Square.kt" .strict added).tree.MatchesBodies c node squareInterface.members
        squareHolder := by
  intro added
  have hw : classUnit squareInterface ∈ accepted added := by decide +kernel
  have hu : defaultImpls squareHolder ∈ accepted added := by decide +kernel
  have hapart : (memberSignatures squareInterface.members).Nodup := by decide +kernel
  have hparameters : ∀ s ∈ memberSignatures squareInterface.members, s.HasParameters := by
    decide +kernel
  have hnames : ∀ s ∈ memberSignatures squareInterface.members, ¬ s.IsHelper := by
    decide +kernel
  exact ⟨hw, hu, rfl, hapart, hparameters, hnames,
    compose_matchesBodies "Square.kt" .strict hw hu rfl hapart hparameters hnames⟩

end SourceTree

end LineAtlas
