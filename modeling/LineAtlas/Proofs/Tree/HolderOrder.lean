import LineAtlas.Proofs.Tree.Homes
import LineAtlas.Proofs.Tree.UnitOrder
import Mathlib.Data.List.Find

/-!
# Holders in another order

A holder of bodies adds its part and goes into the slot of its interface. Holders for different
interfaces may be placed in either order.
-/

namespace LineAtlas.Draft

open ResolvedUnit

variable {d d' : Draft}

/-- A draft in which a holder is in the slot of its interface, if there is one. -/
def fill (d : Draft) : Option ClassId → ClassId → Draft
  | none, _ => d
  | some o, c => (modifyNamed o (fun shape => { shape with defaultImpls := some c }) d).2

/-- A holder goes into the slot of a class with a name of its own, and into no other. -/
theorem onNamed_holder (node : ClassNode) (c : ClassId) :
    (node.onNamed fun shape => { shape with defaultImpls := some c }).shape.holder
      = match node.bare.shape with
        | .named _ => [c]
        | _ => [] := by
  cases hshape : node.shape <;>
    simp [ClassNode.onNamed, ClassShape.holder, ClassNode.bare, ClassShape.bare, hshape]

/-- Filling a slot changes only the interface. -/
theorem fill_class? (d : Draft) (o : Option ClassId) (c i : ClassId) :
    (d.fill o c).tree.class? i = (d.tree.class? i).map fun node =>
      if o = some i then node.onNamed fun shape => { shape with defaultImpls := some c }
      else node := by
  cases o with
  | none => simp [fill]
  | some o =>
    rw [fill, modifyNamed_class?]
    simp only [Option.some.injEq]

/-- What does not depend on holders stays as it is. -/
theorem fill_map {β : Type} {g : ClassNode → β} (hg : ∀ node (c : ClassId),
      g (node.onNamed fun shape => { shape with defaultImpls := some c }) = g node)
    (d : Draft) (o : Option ClassId) (c i : ClassId) :
    ((d.fill o c).tree.class? i).map g = (d.tree.class? i).map g := by
  rw [fill_class?, Option.map_map]
  refine congrArg (Option.map · _) (funext fun node => ?_)
  rw [Function.comp_apply]
  split
  · exact hg node c
  · rfl

/-- Filling a slot keeps what classes are. -/
theorem fill_keeps (d : Draft) (o : Option ClassId) (c : ClassId) : Keeps d (d.fill o c) := by
  cases o with
  | none => exact Keeps.refl d
  | some o => exact modifyNamed_keeps o _ (fun shape => ⟨_, _, _, rfl⟩) d

/-- Filling a slot adds no function. -/
theorem fill_functions (d : Draft) (o : Option ClassId) (c : ClassId) :
    (d.fill o c).tree.functions = d.tree.functions := by
  cases o <;> rfl

/-- What does not depend on holders is the same when a slot is filled. -/
theorem fill_flatMap {β : Type} {g : ClassNode → List β} (hg : ∀ node (c : ClassId),
      g (node.onNamed fun shape => { shape with defaultImpls := some c }) = g node)
    (d : Draft) (o : Option ClassId) (c i : ClassId) :
    ((d.fill o c).tree.class? i).toList.flatMap g = (d.tree.class? i).toList.flatMap g := by
  have hmap := congrArg (·.toList.flatten) (fill_map hg d o c i)
  simpa [Option.toList_map, ← List.flatMap_def] using hmap

/-- Filling the slot of a holder leaves the other slots. -/
theorem fill_slot (d : Draft) (o : Option ClassId) (c : ClassId) (s : Slot) :
    (d.fill o c).tree.slot s = d.tree.slot s := by
  cases s with
  | topLevel => cases o <;> rfl
  | body f => cases o <;> rfl
  | nested i =>
    refine fill_flatMap (fun node c => ?_) d o c i
    cases hshape : node.shape <;> simp [ClassNode.onNamed, ClassShape.nested, hshape]

/-- Filling the slot of a holder leaves the companions. -/
theorem fill_companionOf (d : Draft) (o : Option ClassId) (c i : ClassId) :
    (d.fill o c).tree.companionOf i = d.tree.companionOf i := by
  refine fill_flatMap (fun node c => ?_) d o c i
  cases hshape : node.shape <;> simp [ClassNode.onNamed, ClassShape.companion, hshape]

/-- Filling a slot lets no class fail. -/
theorem fill_isFailed (d : Draft) (o : Option ClassId) (c i : ClassId) :
    (d.fill o c).tree.isFailed i = d.tree.isFailed i :=
  SourceTree.isFailed_eq_of_map_failed
    (fill_map (fun node _ => node.onNamed_failed _) d o c i)

/-- What waits does not depend on holders. -/
theorem fill_lists (d : Draft) (o : Option ClassId) (c : ClassId) :
    (d.fill o c).names = d.names ∧ (d.fill o c).holders = d.holders ∧
      (d.fill o c).failures = d.failures ∧ (d.fill o c).tree.path = d.tree.path := by
  cases o <;> exact ⟨rfl, rfl, rfl, rfl⟩

section Corresponds

variable {ρ : Equiv.Perm FunctionId} {κ : Equiv.Perm ClassId}

/-- Filling slots at corresponding positions gives corresponding holders. -/
theorem Corresponds.holderOf_fill (h : Corresponds ρ κ d d') {o : Option ClassId}
    {c c' : ClassId} (hc : o = none ∨ c' = κ c) (i : ClassId) :
    (d'.fill (o.map κ) c').tree.holderOf (κ i) = ((d.fill o c).tree.holderOf i).map κ := by
  cases o with
  | none => exact h.tree.holder i
  | some o =>
    obtain rfl := hc.resolve_left (by simp)
    have hholder := h.tree.holder i
    rw [SourceTree.holderOf, SourceTree.holderOf] at hholder ⊢
    rw [fill_class?, fill_class?]
    by_cases ho : o = i
    · subst ho
      have hclass := h.tree.classes o
      cases hold : d.tree.class? o with
      | none =>
        rw [hold] at hclass
        rw [Option.map_eq_none_iff.mp hclass]
        rfl
      | some node =>
        rw [hold] at hclass
        obtain ⟨node', hnode', hbare⟩ := Option.map_eq_some_iff.mp hclass
        rw [hnode']
        simp only [Option.map_some, if_true, Option.toList_some, List.flatMap_cons,
          List.flatMap_nil, List.append_nil, onNamed_holder, hbare, ClassNode.rename_bare]
        cases hshape : node.bare.shape <;> simp [ClassNode.rename, ClassShape.rename, hshape]
    · have hne : ¬ κ o = κ i := fun heq => ho (κ.injective heq)
      simpa [ho, hne] using hholder

/-- Drafts correspond when their slots are filled at corresponding positions. -/
theorem Corresponds.fill (h : Corresponds ρ κ d d') {o : Option ClassId} {c c' : ClassId}
    (hc : o = none ∨ c' = κ c) : Corresponds ρ κ (d.fill o c) (d'.fill (o.map κ) c') := by
  have hkeeps := fill_keeps d o c
  have hkeeps' := fill_keeps d' (o.map κ) c'
  obtain ⟨hnames, hholders, hfailures, hpath⟩ := fill_lists d o c
  obtain ⟨hnames', hholders', hfailures', hpath'⟩ := fill_lists d' (o.map κ) c'
  refine ⟨⟨hpath'.trans (h.tree.path.trans hpath.symm), fun f => ?_, fun i => ?_, fun i => ?_,
    fun s => ?_, fun i => ?_, fun i => ?_, ?_⟩, ?_, fun f hf => ?_, ?_, fun i hi => ?_,
    fun i => ?_, ?_, ?_, ?_, ?_, ?_⟩
  · rw [SourceTree.function?, SourceTree.function?, fill_functions, fill_functions]
    exact h.tree.functions f
  · rw [hkeeps'.class?_bare, h.tree.classes]
    have hbare := congrArg (Option.map (ClassNode.rename ρ)) (hkeeps.class?_bare i)
    simp only [Option.map_map, Function.comp_def, ← ClassNode.rename_bare] at hbare
    exact hbare.symm
  · rw [fill_isFailed, fill_isFailed, h.tree.failed]
  · rw [fill_slot, fill_slot]
    exact h.tree.slots s
  · rw [fill_companionOf, fill_companionOf, h.tree.companion]
  · exact h.holderOf_fill hc i
  · rw [hkeeps.facades, hkeeps'.facades]
    exact h.tree.facades
  · rw [hkeeps.functions_length, hkeeps'.functions_length, h.functionsLength]
  · exact h.functionsFixed f (hkeeps.functions_length ▸ hf)
  · rw [hkeeps.classes_length, hkeeps'.classes_length, h.classesLength]
  · exact h.classesFixed i (hkeeps.classes_length ▸ hi)
  · rw [hkeeps.sources, hkeeps'.sources, h.sources]
  · rw [hnames, hnames']
    exact h.names
  · rw [hkeeps.named, hkeeps'.named]
    exact h.named
  · rw [hkeeps.localClasses, hkeeps'.localClasses]
    exact h.localClasses
  · rw [hholders, hholders']
    exact h.holders
  · rw [hfailures, hfailures']
    exact h.failures

end Corresponds

/-- Holders go into different slots in either order. -/
theorem fill_fill (d : Draft) {o i : Option ClassId} (hne : o ≠ i ∨ o = none) (c e : ClassId) :
    (d.fill o c).fill i e = (d.fill i e).fill o c := by
  cases o with
  | none => rfl
  | some o =>
    cases i with
    | none => rfl
    | some i =>
      have hoi : o ≠ i := fun heq => hne.resolve_right (by simp) (congrArg some heq)
      simp only [fill, modifyNamed_apply, List.modify_modify_ne _ _ d.tree.classes hoi]

/-- A part goes behind the slot of an interface. -/
theorem fill_withPart (d : Draft) {o : Option ClassId}
    (ho : ∀ i ∈ o, i < d.tree.classes.length) (c : ClassId) (p : Part) :
    (d.fill o c).withPart p = (d.withPart p).fill o c := by
  cases o with
  | none => rfl
  | some o =>
    simp only [fill, modifyNamed_apply, withPart,
      Lists.modify_append_left (ho o rfl)]

/-- How a holder without an interface is reported. -/
def lostHolder (file : String) (u : DefaultImplsUnit) : Part :=
  { failures := [⟨file, some u.jvmName,
      .composition u.jvmName (PlacementFault.interfaceNotFound u.interfaceName).message⟩] }

/-- A holder without an interface adds a part with a failure. -/
theorem placeHolder_of_none (file : String) {u : DefaultImplsUnit}
    (hnone : d.namedWith? u.interfaceName = none) :
    (placeHolder file u d).2 = d.withPart (lostHolder file u) := by
  rw [placeHolder_apply_of_none file hnone]
  simp [withPart, lostHolder]
  rfl

/-- A holder with an interface adds its part and fills the slot. -/
theorem placeHolder_of_some (file : String) {u : DefaultImplsUnit} {o : ClassId}
    (ho : d.namedWith? u.interfaceName = some o) {interface : ClassNode}
    (hclass : d.tree.class? o = some interface) {block : List FunctionNode} {node : ClassNode}
    {source : ClassSource} {new : List ClassFailure}
    (hrun : addHolder file u interface d
      = (d.tree.classes.length, d.withClass block node source new)) :
    (placeHolder file u d).2
      = (d.withPart ⟨block, [node], [source], new⟩).fill (some o) d.tree.classes.length := by
  rw [placeHolder_apply_of_some file ho hclass hrun]
  rfl

/-- A holder adds a part and goes into a slot. To a draft with the same functions and the same
interface it adds the same part. -/
structure IsPartOf (d : Draft) (file : String) (u : DefaultImplsUnit) (p : Part) : Prop where
  /-- The part refers to its own functions. -/
  closed : p.ClosedAt d.tree.functions.length
  /-- It has a class if the interface is there. -/
  empty : p.nodes = [] → d.namedWith? u.interfaceName = none
  /-- It is added, and its class goes into a slot. -/
  run : (placeHolder file u d).2
    = (d.withPart p).fill (d.namedWith? u.interfaceName) d.tree.classes.length
  /-- So it is at other positions. -/
  same : ∀ (ρ : FunctionId → FunctionId) d', Embeds ρ d d' → HasSources d' →
    ((d'.namedWith? u.interfaceName).bind d'.tree.class?).map ClassNode.bare
      = ((d.namedWith? u.interfaceName).bind d.tree.class?).map
        (fun node => (node.rename ρ).bare) →
    (placeHolder file u d').2 = (d'.withPart (p.rename ρ)).fill
      (d'.namedWith? u.interfaceName) d'.tree.classes.length

/-- Every holder has a part. -/
theorem exists_isPartOf (hd : HasSources d) (file : String) (u : DefaultImplsUnit) :
    ∃ p, IsPartOf d file u p := by
  cases hfind : d.namedWith? u.interfaceName with
  | none =>
    have hclosed : (lostHolder file u).ClosedAt d.tree.functions.length :=
      ⟨rfl, by simp [lostHolder], by simp [lostHolder], by simp [lostHolder], by simp [lostHolder]⟩
    refine ⟨lostHolder file u, hclosed, fun _ => hfind, ?_, fun ρ d' _ _ hsame => ?_⟩
    · rw [hfind]
      exact placeHolder_of_none file hfind
    cases hfind' : d'.namedWith? u.interfaceName with
    | none => exact placeHolder_of_none file hfind'
    | some o' =>
      obtain ⟨node', hnode', -⟩ := exists_class_of_namedWith? hfind'
      simp [hfind, hfind', hnode'] at hsame
  | some o =>
    obtain ⟨interface, hclass, -⟩ := exists_class_of_namedWith? hfind
    obtain ⟨block, node, source, hrun, hfills, -, hshape, -⟩ :=
      addHolder_withClass d file u interface
    have hclosed := hfills.closedAt (by rw [hshape]; rfl) source []
    refine ⟨⟨block, [node], [source], []⟩, hclosed, by simp, ?_, fun ρ d' hembeds hd' hsame => ?_⟩
    · rw [hfind]
      exact placeHolder_of_some file hfind hclass hrun
    cases hfind' : d'.namedWith? u.interfaceName with
    | none => simp [hfind, hfind', hclass] at hsame
    | some o' =>
      obtain ⟨interface', hclass', -⟩ := exists_class_of_namedWith? hfind'
      have hbare : interface'.bare = (interface.rename ρ).bare := by
        simpa [hfind, hfind', hclass, hclass'] using hsame
      obtain ⟨block', node', source', hrun', hfills', -, hshape', -⟩ :=
        addHolder_withClass d' file u interface'
      obtain ⟨rfl, rfl, rfl, -⟩ := (addHolder_addsAlike hembeds hd hd' file u hbare).same hrun hrun'
        hembeds.fresh hclosed.blank (hfills'.closedAt (by rw [hshape']; rfl) source' []).blank
      exact placeHolder_of_some file hfind' hclass' hrun'

/-- The internal name of a class. -/
def nameAt? (d : Draft) (c : ClassId) : Option String := (d.tree.class? c).map ClassNode.jvmName

/-- No two classes with names of their own have the same internal name. -/
def NamesOnce (d : Draft) : Prop :=
  ∀ c ∈ d.named, ∀ o ∈ d.named, ∀ name, d.nameAt? c = some name → d.nameAt? o = some name → c = o

/-- A class is known by its name where names are different. -/
theorem eq_of_nameAt? (hnames : (d.tree.classes.map ClassNode.jvmName).Nodup) {c o : ClassId}
    {name : String} (hc : d.nameAt? c = some name) (ho : d.nameAt? o = some name) : c = o := by
  have hget (i : ClassId) : (d.tree.classes.map ClassNode.jvmName)[i]? = d.nameAt? i :=
    List.getElem?_map
  have hlt := (List.getElem?_eq_some_iff.mp ((hget c).trans hc)).1
  exact (List.getElem?_inj hlt hnames).mp ((hget c).trans (hc.trans ((hget o).trans ho).symm))

/-- An interface is looked for by its internal name, among the classes with names of their own. -/
theorem namedWith?_eq (d : Draft) (name : String) :
    d.namedWith? name = d.named.find? fun c => d.nameAt? c == some name := by
  refine congrArg (List.find? · d.named) (funext fun c => ?_)
  rw [nameAt?]
  cases d.tree.class? c <;> simp

/-- Classes at corresponding positions have the same internal name. -/
theorem Corresponds.nameAt? {ρ : Equiv.Perm FunctionId} {κ : Equiv.Perm ClassId}
    (h : Corresponds ρ κ d d') (c : ClassId) : d'.nameAt? (κ c) = d.nameAt? c := by
  have hclass := congrArg (Option.map ClassNode.jvmName) (h.tree.classes c)
  rw [Option.map_map, Option.map_map] at hclass
  exact hclass

/-- An interface is found at the corresponding position. -/
theorem Corresponds.namedWith? {ρ : Equiv.Perm FunctionId} {κ : Equiv.Perm ClassId}
    (h : Corresponds ρ κ d d') (honce : NamesOnce d) (name : String) :
    d'.namedWith? name = (d.namedWith? name).map κ := by
  rw [namedWith?_eq, namedWith?_eq]
  refine Lists.find?_perm_map h.named (fun c _ => by rw [h.nameAt?]) fun c hc o ho hone htwo => ?_
  exact honce c hc o ho name (eq_of_beq hone) (eq_of_beq htwo)

/-- A draft that is ready for holders for different interfaces. -/
structure AwaitsHolders (d : Draft) (holders : List (String × DefaultImplsUnit)) : Prop where
  /-- Every class has a source. -/
  sources : HasSources d
  /-- Classes stand for units. -/
  holds : ∃ units others, Holds d units others ∧ HoldersFit d units
  /-- Their names differ. -/
  names : NamesOnce d
  /-- No two holders are for the same interface. -/
  nodup : (holders.map fun holder => holder.2.interfaceName).Nodup

/-- Filling a slot leaves the functions of a draft embedded. -/
theorem Embeds.fill {ρ : FunctionId → FunctionId} (h : Embeds ρ d d') (o : Option ClassId)
    (c : ClassId) : Embeds ρ d (d'.fill o c) where
  injective := h.injective
  fresh := by
    rw [fill_functions]
    exact h.fresh
  functions := by
    unfold SourceTree.function?
    rw [fill_functions]
    exact h.functions

/-- Filling a slot leaves each class its source. -/
theorem HasSources.fill (hd : HasSources d) (o : Option ClassId) (c : ClassId) :
    HasSources (d.fill o c) := by
  rw [HasSources, (fill_keeps d o c).sources, (fill_keeps d o c).classes_length]
  exact hd

/-- Classes keep their names when a holder is placed. -/
theorem nameAt?_of_lt {p : Part} {c : ClassId} (hc : c < d.tree.classes.length)
    (o : Option ClassId) (e : ClassId) : ((d.withPart p).fill o e).nameAt? c = d.nameAt? c := by
  rw [nameAt?, fill_map (fun node _ => node.onNamed_jvmName _), nameAt?, SourceTree.class?,
    withPart, List.getElem?_append_left hc]
  rfl

/-- Classes with names of their own are classes of the tree. -/
theorem Unplaced.lt_of_mem_named (h : Unplaced d) {c : ClassId} (hc : c ∈ d.named) :
    c < d.tree.classes.length :=
  h.waiting c (List.mem_append_left _ (List.mem_append_right _ hc))

/-- Holders are looked for among the same classes. -/
theorem Unplaced.namedWith? (h : Unplaced d) (p : Part) (o : Option ClassId) (e : ClassId)
    (name : String) : ((d.withPart p).fill o e).namedWith? name = d.namedWith? name := by
  rw [namedWith?_eq, namedWith?_eq, (fill_keeps (d.withPart p) o e).named]
  refine List.find?_congr fun c hc => ?_
  rw [nameAt?_of_lt (h.lt_of_mem_named hc)]

/-- The interface of a holder is in the draft. -/
theorem Unplaced.lt_of_namedWith? (h : Unplaced d) {name : String} :
    ∀ i ∈ d.namedWith? name, i < d.tree.classes.length :=
  fun _ hi => h.lt_of_mem_named (List.mem_of_find?_eq_some hi)

/-- A holder that is placed second adds its part behind that of the first one. -/
theorem IsPartOf.run_second {file : String} {u : DefaultImplsUnit} {q : Part}
    (hq : IsPartOf d file u q) (h : Unplaced d) {p : Part} (hp : p.ClosedAt d.tree.functions.length)
    {o : Option ClassId} (ho : ∀ i ∈ o, i < d.tree.classes.length) :
    (placeHolder file u ((d.withPart p).fill o d.tree.classes.length)).2
      = (((d.withPart p).withPart
          (q.rename (Lists.shift d.tree.functions.length p.block.length))).fill
            o d.tree.classes.length).fill (d.namedWith? u.interfaceName)
              (d.tree.classes.length + p.nodes.length) := by
  have hlength : (d.withPart p).tree.classes.length = d.tree.classes.length + p.nodes.length :=
    List.length_append
  obtain ⟨e, he⟩ : ∃ e, e = (d.withPart p).fill o d.tree.classes.length := ⟨_, rfl⟩
  have hnamed : e.namedWith? u.interfaceName = d.namedWith? u.interfaceName := by
    rw [he, h.namedWith?]
  have hinterface : ((e.namedWith? u.interfaceName).bind e.tree.class?).map ClassNode.bare
      = ((d.namedWith? u.interfaceName).bind d.tree.class?).map fun node =>
        (node.rename (Lists.shift d.tree.functions.length p.block.length)).bare := by
    rw [hnamed]
    cases hfind : d.namedWith? u.interfaceName with
    | none => rfl
    | some i =>
      have hi := h.lt_of_namedWith? i hfind
      rw [Option.bind_some, Option.bind_some, he, (fill_keeps _ _ _).class?_bare,
        SourceTree.class?, SourceTree.class?, withPart, List.getElem?_append_left hi,
        List.getElem?_eq_getElem hi, Option.map_some, Option.map_some,
        ClassNode.rename_congr (σ := id), ClassNode.rename_id]
      exact fun f hf => Lists.shift_of_lt (h.members _ (List.getElem_mem hi) f hf) _
  rw [he] at hinterface
  rw [hq.same _ _ ((h.embeds p).fill o _) ((h.sources.withPart hp).fill o _) hinterface,
    h.namedWith?, (fill_keeps _ _ _).classes_length, hlength, fill_withPart]
  exact fun i hi => hlength ▸ Nat.lt_add_right _ (ho i hi)

namespace AwaitsHolders

variable {file file' : String} {u v : DefaultImplsUnit}
  {holders holders' : List (String × DefaultImplsUnit)}

/-- The order of holders does not matter for whether a draft is ready for them. -/
theorem perm (h : AwaitsHolders d holders) (hperm : holders.Perm holders') :
    AwaitsHolders d holders' :=
  ⟨h.sources, h.holds, h.names, (hperm.map _).nodup_iff.mp h.nodup⟩

/-- A draft that is ready for holders has no class placed. -/
theorem unplaced (h : AwaitsHolders d holders) : Unplaced d := by
  obtain ⟨units, others, hholds, hfit⟩ := h.holds
  exact hholds.unplaced hfit h.sources

/-- When a holder is placed, the draft is ready for the others. -/
theorem next (h : AwaitsHolders d ((file, u) :: holders)) :
    AwaitsHolders (placeHolder file u d).2 holders := by
  obtain ⟨units, others, hholds, hfit⟩ := h.holds
  obtain ⟨p, hp⟩ := exists_isPartOf h.sources file u
  obtain ⟨hholds', hfit'⟩ := placeHolder_next hholds hfit file u
  refine ⟨?_, ⟨_, _, hholds', hfit'⟩, ?_, (List.nodup_cons.mp h.nodup).2⟩
  · rw [hp.run]
    exact (h.sources.withPart hp.closed).fill _ _
  · rw [hp.run]
    intro c hc o ho name hcname honame
    rw [(fill_keeps _ _ _).named] at hc ho
    rw [nameAt?_of_lt (h.unplaced.lt_of_mem_named hc)] at hcname
    rw [nameAt?_of_lt (h.unplaced.lt_of_mem_named ho)] at honame
    exact h.names c hc o ho name hcname honame

/-- Alike drafts stay so when a holder is placed. -/
theorem placeHolder_alike (h : AwaitsHolders d ((file, u) :: holders))
    (h' : AwaitsHolders d' ((file, u) :: holders)) (halike : Alike d d') :
    Alike (placeHolder file u d).2 (placeHolder file u d').2 := by
  obtain ⟨ρ, κ, hcorresponds⟩ := halike
  obtain ⟨p, hp⟩ := exists_isPartOf h.sources file u
  have hinterface := hcorresponds.namedWith? h.names u.interfaceName
  have hrun' := hp.same ρ d' hcorresponds.embeds h'.sources (by
    rw [hinterface]
    cases d.namedWith? u.interfaceName with
    | none => rfl
    | some o => exact hcorresponds.tree.classes o)
  rw [hp.run, hrun', hinterface]
  refine ⟨ρ, κ, (hcorresponds.withPart h.sources h'.sources hp.closed).fill (Or.inr ?_)⟩
  rw [hcorresponds.classesFixed _ le_rfl, hcorresponds.classesLength]

/-- It does not matter which of two holders is placed first. -/
theorem placeHolder_placeHolder (h : AwaitsHolders d ((file, u) :: (file', v) :: holders)) :
    Alike (placeHolder file' v (placeHolder file u d).2).2
      (placeHolder file u (placeHolder file' v d).2).2 := by
  obtain ⟨p, hp⟩ := exists_isPartOf h.sources file u
  obtain ⟨q, hq⟩ := exists_isPartOf h.sources file' v
  have hu : ∀ i ∈ d.namedWith? u.interfaceName, i < d.tree.classes.length :=
    h.unplaced.lt_of_namedWith?
  have hv : ∀ i ∈ d.namedWith? v.interfaceName, i < d.tree.classes.length :=
    h.unplaced.lt_of_namedWith?
  rw [hp.run, hq.run, hq.run_second h.unplaced hp.closed hu, hp.run_second h.unplaced hq.closed hv]
  have hfixed {o : Option ClassId} (ho : ∀ i ∈ o, i < d.tree.classes.length) :
      o.map (Lists.exchange d.tree.classes.length p.nodes.length q.nodes.length) = o :=
    (Option.map_congr fun i hi => Lists.exchange_of_lt (ho i hi) _ _).trans
      (congrFun Option.map_id o)
  have hone : d.namedWith? u.interfaceName = none ∨ d.tree.classes.length + q.nodes.length
      = Lists.exchange d.tree.classes.length p.nodes.length q.nodes.length
        d.tree.classes.length := by
    rcases List.eq_nil_or_concat p.nodes with hnil | ⟨rest, node, hnodes⟩
    · exact Or.inl (hp.empty hnil)
    · exact Or.inr (Lists.exchange_first (by simp [hnodes]) _ _).symm
  have htwo : d.namedWith? v.interfaceName = none ∨ d.tree.classes.length
      = Lists.exchange d.tree.classes.length p.nodes.length q.nodes.length
        (d.tree.classes.length + p.nodes.length) := by
    rcases List.eq_nil_or_concat q.nodes with hnil | ⟨rest, node, hnodes⟩
    · exact Or.inl (hq.empty hnil)
    · exact Or.inr (Lists.exchange_second (by simp [hnodes]) _ _).symm
  have hexchange := ((withPart_exchange h.unplaced hp.closed hq.closed).fill hone).fill htwo
  have hne : d.namedWith? u.interfaceName ≠ d.namedWith? v.interfaceName ∨
      d.namedWith? u.interfaceName = none := by
    cases hfind : d.namedWith? u.interfaceName with
    | none => exact Or.inr rfl
    | some o =>
      refine Or.inl fun hsame => ?_
      obtain ⟨node, hnode, hname⟩ := exists_class_of_namedWith? hfind
      obtain ⟨other, hother, hname'⟩ := exists_class_of_namedWith? hsame.symm
      obtain rfl := Option.some.inj (hnode.symm.trans hother)
      exact (List.nodup_cons.mp h.nodup).1
        (List.mem_map.mpr ⟨(file', v), List.mem_cons_self, hname'.symm.trans hname⟩)
  rw [hfixed hu, hfixed hv, fill_fill ((d.withPart q).withPart _) hne] at hexchange
  exact ⟨_, _, hexchange⟩

end AwaitsHolders

/-- The order of holders for different interfaces does not matter. -/
theorem placeHolders_alike (h : AwaitsHolders d d.holders) (h' : AwaitsHolders d' d.holders)
    (halike : Alike d d') : Alike (placeHolders d).2 (placeHolders d').2 := by
  obtain ⟨ρ, κ, hcorresponds⟩ := halike
  exact forM_alike (fun hperm h => h.perm hperm) AwaitsHolders.next AwaitsHolders.placeHolder_alike
    AwaitsHolders.placeHolder_placeHolder hcorresponds.holders.symm h h' ⟨ρ, κ, hcorresponds⟩

end LineAtlas.Draft
