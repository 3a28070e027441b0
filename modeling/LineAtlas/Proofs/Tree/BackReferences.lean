import LineAtlas.Proofs.Tree.Composed
import LineAtlas.Proofs.Tree.Faults
import LineAtlas.Proofs.Tree.Shows

/-!
# Classes are where they say

A local class names the function around it, a class is named after the one around it, and a
holder names its interface. Every class in a finished tree is in the place that it names, and a
local class without a place names one that the tree does not have.
-/

namespace LineAtlas

namespace SourceTree

/-- The function of a tree that a local class names: one in the forest of the class that it
names, with the signature that it gives, or else the initializer of that class. -/
inductive Offers (t : SourceTree) (origin : Origin) : FunctionId → Prop
  /-- The class has a function of that signature. -/
  | function {o : ClassId} {owner : ClassNode} {signature : Signature} {f : FunctionId}
      {node : FunctionNode} (howner : t.class? o = some owner)
      (hname : owner.jvmName = origin.outerClass) (hmethod : origin.outerMethod = some signature)
      (hforest : f ∈ t.forest o) (hnode : t.function? f = some node)
      (hsignature : node.body.signature = signature) : Offers t origin f
  /-- The class has an initializer, and no method is named. -/
  | initializer {o : ClassId} {owner : ClassNode} {f : FunctionId}
      (howner : t.class? o = some owner) (hname : owner.jvmName = origin.outerClass)
      (hmethod : origin.outerMethod = none) (hforest : f ∈ t.forest o)
      (hinitializer : owner.initializer? = some f) : Offers t origin f

end SourceTree

namespace Draft

variable {d d' : Draft}

/-- The initializer does not depend on what stands in slots. -/
theorem bare_initializer? (node : ClassNode) : node.bare.initializer? = node.initializer? := by
  cases hshape : node.shape <;>
    simp [ClassNode.initializer?, ClassNode.bare, ClassShape.bare, hshape]

/-- The internal name does not depend on what stands in slots. -/
theorem jvmName_eq_of_bare {node other : ClassNode} (hbare : node.bare = other.bare) :
    node.jvmName = other.jvmName := by
  change node.bare.jvmName = other.bare.jvmName
  rw [hbare]

/-- What does not depend on slots is the same in a class that is kept. -/
theorem Keeps.exists_same (h : Keeps d d') {o : ClassId} {owner : ClassNode}
    (howner : d.tree.class? o = some owner) : ∃ new, d'.tree.class? o = some new ∧
      new.jvmName = owner.jvmName ∧ new.initializer? = owner.initializer? := by
  obtain ⟨new, hnew, hbare⟩ := h.exists_class howner
  refine ⟨new, hnew, jvmName_eq_of_bare hbare, ?_⟩
  rw [← bare_initializer? new, hbare, bare_initializer?]

/-- The methods of functions are kept. -/
theorem Keeps.exists_function (h : Keeps d d') {f : FunctionId} {node : FunctionNode}
    (hnode : d.tree.function? f = some node) :
    ∃ new, d'.tree.function? f = some new ∧ new.body = node.body := by
  have hbody := h.function?_map FunctionNode.body (fun _ => rfl) f
  rw [hnode, Option.map_some] at hbody
  exact Option.map_eq_some_iff.mp hbody

/-- What a tree offers to a local class is kept. -/
theorem Keeps.offers (h : Keeps d d') {origin : Origin} {f : FunctionId}
    (hoffers : d.tree.Offers origin f) : d'.tree.Offers origin f := by
  cases hoffers with
  | function howner hname hmethod hforest hnode hsignature =>
    obtain ⟨new, hnew, hsame, -⟩ := h.exists_same howner
    obtain ⟨node, hnode', hbody⟩ := h.exists_function hnode
    exact .function hnew (hsame.trans hname) hmethod (h.forest _ ▸ hforest) hnode'
      (hbody ▸ hsignature)
  | initializer howner hname hmethod hforest hinitializer =>
    obtain ⟨new, hnew, hsame, hsameInitializer⟩ := h.exists_same howner
    exact .initializer hnew (hsame.trans hname) hmethod (h.forest _ ▸ hforest)
      (hsameInitializer.trans hinitializer)

section Target

variable {t : SourceTree} {o : ClassId} {owner : ClassNode} {origin : Origin}

end Target

/-- The first unit with a name is the one that is kept. -/
theorem find?_of_mem_accepted {added : List (String × ResolvedUnit)} {u : ResolvedUnit}
    {name : String} (hu : u ∈ accepted added) (hname : u.jvmName? = some name) :
    (added.map Prod.snd).find? (·.jvmName? == some name) = some u := by
  have hloop (us : List ResolvedUnit) (sorted : List ResolvedUnit × List String)
      (hmem : u ∈ (us.foldl sortOut sorted).1) : u ∈ sorted.1 ∨
        name ∉ sorted.1.filterMap ResolvedUnit.jvmName? ∧
          us.find? (·.jvmName? == some name) = some u := by
    induction us generalizing sorted with
    | nil => exact Or.inl hmem
    | cons v rest ih =>
      have hrest := ih (sortOut sorted v) hmem
      unfold sortOut at hrest
      cases hv : v.jvmName? with
      | none =>
        rw [hv] at hrest
        exact hrest.imp id fun h => ⟨h.1, by simpa [hv] using h.2⟩
      | some other =>
        rw [hv] at hrest
        dsimp only at hrest
        split at hrest
        · next hcontains =>
          refine hrest.imp id fun h => ⟨h.1, ?_⟩
          have hne : other ≠ name := by
            rintro rfl
            exact h.1 (by simpa using hcontains)
          simpa [hv, hne] using h.2
        · next hcontains =>
          have hnew : other ∉ sorted.1.filterMap ResolvedUnit.jvmName? := by
            simpa using hcontains
          simp only [List.mem_append, List.filterMap_append, List.mem_singleton] at hrest
          rcases hrest with (hold | rfl) | ⟨hnot, hfind⟩
          · exact Or.inl hold
          · obtain rfl := Option.some.inj (hv.symm.trans hname)
            exact Or.inr ⟨hnew, by simp [hv]⟩
          · have hne : other ≠ name := fun heq => hnot (by simp [hv, heq])
            exact Or.inr ⟨fun hold => hnot (Or.inl hold), by simpa [hv, hne] using hfind⟩
  exact ((hloop _ ([], []) hu).resolve_left List.not_mem_nil).2

end Draft

namespace ResolvedUnit

variable {kept : List ResolvedUnit}

end ResolvedUnit

namespace SourceTree.Arranged

open ResolvedUnit

variable {units kept : List ResolvedUnit} {t : SourceTree} {id o : ClassId}

/-- The class of a unit with a declared name. -/
theorem exists_named (h : t.Arranged units kept) {c : Nat} {w : ClassUnit}
    (hw : units[c]? = some (.classUnit w)) : ∃ node shape, t.class? c = some node ∧
      node.shape = .named shape ∧ node.jvmName = w.jvmName ∧
      shape.declaredName = w.declaredName ∧ shape.companionName = w.companion := by
  obtain ⟨node, hnode, hstands⟩ := h.exists_class hw
  obtain ⟨shape, hshape, hdeclared, -, hcompanion⟩ := ClassShape.exists_named_of_bare hstands.2
  exact ⟨node, shape, hnode, hshape, hstands.1, hdeclared, hcompanion⟩

/-- A holder is in the slot of its interface. -/
theorem holder_agrees (h : t.Arranged units kept) (hid : id ∈ t.holderOf o) :
    ∃ owner shape node u, t.class? o = some owner ∧ owner.shape = .named shape ∧
      t.class? id = some node ∧ node.shape = .defaultImpls ∧ .defaultImpls u ∈ kept ∧
      node.jvmName = u.jvmName ∧ owner.jvmName = u.interfaceName := by
  obtain ⟨u, v, hu, hv, hholder, hencloses⟩ := h.holder id o hid
  obtain ⟨w, rfl⟩ := isHolder_iff.mp hholder
  obtain ⟨x, rfl, hinterface⟩ := isClassNamed_iff.mp hencloses.2
  obtain ⟨node, hnode, hjvm, hshape⟩ := h.exists_class hu
  obtain ⟨owner, shape, howner, hownerShape, hownerName, -⟩ := h.exists_named hv
  exact ⟨owner, shape, node, w, howner, hownerShape, hnode, hshape,
    h.subset (List.mem_of_getElem? hu), hjvm, hownerName.trans hinterface⟩

end SourceTree.Arranged

namespace Draft.Prepared

open ResolvedUnit

variable {d d' d'' : Draft} {units kept : List ResolvedUnit} {rejected : List String}
  {policy : AccountingPolicy} {id : ClassId}

end Draft.Prepared

/-- When no two holders are for one interface, every holder with a class is in a slot. -/
theorem Draft.Prepared.exists_holderOf {d : Draft} {t : SourceTree} {units kept : List ResolvedUnit}
    {rejected : List String} (h : Prepared d units kept rejected)
    (harranged : t.Arranged units kept)
    (hinterfaces : (units.filterMap ResolvedUnit.interfaceName?).Nodup) {id : ClassId}
    {u : DefaultImplsUnit} (hu : units[id]? = some (.defaultImpls u)) : ∃ o, id ∈ t.holderOf o := by
  obtain ⟨v, hv, hnamed⟩ := List.any_eq_true.mp (h.interfaces u (List.mem_of_getElem? hu))
  have hmem : v ∈ units := by
    by_contra hnot
    obtain ⟨w, rfl, -⟩ := ResolvedUnit.isClassNamed_iff.mp hnamed
    simpa [ResolvedUnit.isHolder] using harranged.left _ hv hnot
  obtain ⟨o, ho⟩ := List.getElem?_of_mem hmem
  exact ⟨o, harranged.holders hinterfaces id o _ v hu ho rfl ⟨hv, hnamed⟩⟩

namespace SourceTree

open Draft ResolvedUnit

/-- Of what class files contribute, every holder with a class is in the slot of the interface that
it names. Units at large could give one interface two holders. -/
theorem compose_placesHolders (path : String) (policy : AccountingPolicy)
    {added : List (String × ResolvedUnit)} (hresolved : ∀ u ∈ added.map Prod.snd, u.IsResolved)
    {id : ClassId} {node : ClassNode}
    (hnode : (compose path policy added).tree.class? id = some node)
    (hshape : node.shape = .defaultImpls) :
    ∃ o owner shape u, id ∈ (compose path policy added).tree.holderOf o ∧
      (compose path policy added).tree.class? o = some owner ∧ owner.shape = .named shape ∧
      (added.map Prod.snd).find? (·.jvmName? == some node.jvmName) = some (.defaultImpls u) ∧
      owner.jvmName = u.interfaceName := by
  have hadded : Added (added.forM (fun unit => add unit.1 unit.2) (empty path)).2
      (accepted added) (rejected added) := (Added.empty path).all added
  obtain ⟨units, hprepared⟩ := hadded.prepared (accepted_names_nodup added)
  have hsettles := hprepared.settles
  have harranged : (compose path policy added).tree.Arranged units (accepted added) :=
    hprepared.arranged hsettles (hprepared.moves hsettles policy)
  have hinterfaces : (units.filterMap interfaceName?).Nodup :=
    harranged.interfaces_nodup fun v hv =>
      (hresolved v (mem_of_mem_accepted (harranged.subset hv)).1).fitsKind
  obtain ⟨u, hu, hstands, -⟩ := harranged.stands id node hnode
  obtain ⟨w, rfl⟩ := hstands.exists_defaultImpls hshape
  obtain ⟨o, hid⟩ := hprepared.exists_holderOf harranged hinterfaces hu
  obtain ⟨owner, shape, node', u, howner, hnamed, hnode', -, hkept, hjvm, hinterface⟩ :=
    harranged.holder_agrees hid
  obtain rfl := Option.some.inj (hnode.symm.trans hnode')
  exact ⟨o, owner, shape, u, hid, howner, hnamed,
    find?_of_mem_accepted hkept (congrArg some hjvm.symm), hinterface⟩

end SourceTree

end LineAtlas
