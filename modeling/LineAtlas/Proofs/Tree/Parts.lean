import LineAtlas.Proofs.Tree.Correspondence

/-!
# Parts of drafts

What a unit adds to a draft is a part: a block of functions, a class and its source. Parts refer
to nothing but themselves, so two parts that are added in the other order change their positions
and nothing else.
-/

namespace LineAtlas

namespace Lists

variable {α β : Type}

/-- Exchanges two neighbouring ranges of positions. -/
def exchange (start one two : Nat) : Equiv.Perm Nat where
  toFun i := if i < start then i else if i < start + one then i + two
    else if i < start + one + two then i - one else i
  invFun i := if i < start then i else if i < start + two then i + one
    else if i < start + two + one then i - two else i
  left_inv i := by
    dsimp only
    split_ifs <;> omega
  right_inv i := by
    dsimp only
    split_ifs <;> omega

/-- Makes room for a range of positions. -/
def shift (start count i : Nat) : Nat := if i < start then i else i + count

/-- Making room keeps positions apart. -/
theorem shift_injective (start count : Nat) : Function.Injective (shift start count) := by
  intro i j hij
  simp only [shift] at hij
  split_ifs at hij <;> omega

/-- Positions before the new range stay. -/
theorem shift_of_lt {start i : Nat} (hi : i < start) (count : Nat) : shift start count i = i :=
  if_pos hi

/-- Positions behind the new range move up by its length. -/
theorem shift_of_le {start i : Nat} (hi : start ≤ i) (count : Nat) :
    shift start count i = i + count := if_neg (Nat.not_lt.mpr hi)

/-- Making room moves a position by no more than the range. -/
theorem shift_lt {start one i : Nat} (hi : i < start + one) (count : Nat) :
    shift start count i < start + count + one := by
  rw [shift]
  split_ifs <;> omega

/-- Each of the two ranges moves by the length of the other, and nothing else moves. -/
theorem exchange_apply (start one two i : Nat) : exchange start one two i =
    if i < start then i else if i < start + one then i + two
      else if i < start + one + two then i - one else i := rfl

/-- Positions before both ranges stay. -/
theorem exchange_of_lt {start i : Nat} (hi : i < start) (one two : Nat) :
    exchange start one two i = i := by
  rw [exchange_apply, if_pos hi]

/-- Positions behind both ranges stay. -/
theorem exchange_of_le {start one two i : Nat} (hi : start + one + two ≤ i) :
    exchange start one two i = i := by
  rw [exchange_apply]
  split_ifs <;> omega

/-- The first range comes to begin behind the second one. -/
theorem exchange_first {one : Nat} (hone : 0 < one) (start two : Nat) :
    exchange start one two start = start + two := by
  rw [exchange_apply]
  split_ifs <;> omega

/-- The second range comes to begin where the first one did. -/
theorem exchange_second {two : Nat} (htwo : 0 < two) (start one : Nat) :
    exchange start one two (start + one) = start := by
  rw [exchange_apply]
  split_ifs <;> omega

/-- What is behind the start stays behind it. -/
theorem le_exchange {start i : Nat} (hi : start ≤ i) (one two : Nat) :
    start ≤ exchange start one two i := by
  rw [exchange_apply]
  split_ifs <;> omega

/-- The first range makes room for the second one. -/
theorem exchange_eq_shift {start one i : Nat} (hi : i < start + one) (two : Nat) :
    exchange start one two i = shift start two i := by
  rw [exchange_apply, shift]
  split_ifs <;> omega

/-- The second range moves back to where the first one was. -/
theorem exchange_shift {start two i : Nat} (one : Nat) (hi : i < start + two) :
    exchange start one two (shift start one i) = i := by
  rw [exchange_apply, shift]
  split_ifs <;> omega

/-- Exchanging ranges of positions exchanges the lists that stand there. -/
theorem getElem?_exchange (l p q : List α) (i : Nat) :
    (l ++ q ++ p)[exchange l.length p.length q.length i]? = (l ++ p ++ q)[i]? := by
  rw [exchange_apply]
  rcases Nat.lt_or_ge i l.length with hl | hl
  · rw [if_pos hl, List.append_assoc, List.append_assoc, List.getElem?_append_left hl,
      List.getElem?_append_left hl]
  obtain ⟨j, rfl⟩ := Nat.exists_eq_add_of_le hl
  rw [if_neg (by omega), List.append_assoc l p q,
    List.getElem?_append_right (Nat.le_add_right _ _), Nat.add_sub_cancel_left]
  rcases Nat.lt_or_ge j p.length with hp | hp
  · rw [if_pos (by omega), List.getElem?_append_left hp, Nat.add_right_comm,
      List.getElem?_append_right (by rw [List.length_append]; omega), List.length_append,
      Nat.add_sub_cancel_left]
  obtain ⟨k, rfl⟩ := Nat.exists_eq_add_of_le hp
  rw [if_neg (by omega), List.getElem?_append_right (Nat.le_add_right _ _),
    Nat.add_sub_cancel_left]
  rcases Nat.lt_or_ge k q.length with hq | hq
  · rw [if_pos (by omega), show l.length + (p.length + k) - p.length = l.length + k by omega,
      List.append_assoc, List.getElem?_append_right (Nat.le_add_right _ _),
      Nat.add_sub_cancel_left, List.getElem?_append_left hq]
  · rw [if_neg (by omega), List.getElem?_eq_none (by simp only [List.length_append]; omega),
      List.getElem?_eq_none hq]

/-- Lists that two parts were added to, in both orders. -/
theorem getElem?_map_exchange {l p p' q q' : List α} {g g' : α → β} (hl : l.map g' = l.map g)
    (hp : p'.map g' = p.map g) (hq : q.map g' = q'.map g) (i : Nat) :
    ((l ++ q ++ p')[exchange l.length p.length q.length i]?).map g'
      = ((l ++ p ++ q')[i]?).map g := by
  have hexchange := getElem?_exchange (l.map g) (p.map g) (q'.map g) i
  rw [List.length_map, List.length_map, List.length_map,
    show q'.length = q.length by simpa using (congrArg List.length hq).symm] at hexchange
  rw [← List.getElem?_map, ← List.getElem?_map, List.map_append, List.map_append, List.map_append,
    List.map_append, hl, hp, hq]
  exact hexchange

/-- Lists that the same was added to. -/
theorem getElem?_map_append {l l' p p' : List α} {g g' : α → β} {κ : Nat → Nat}
    (hlength : l'.length = l.length) (hfixed : ∀ i, l.length ≤ i → κ i = i)
    (hl : ∀ i, (l'[κ i]?).map g' = (l[i]?).map g) (hp : p'.map g' = p.map g) (i : Nat) :
    ((l' ++ p')[κ i]?).map g' = ((l ++ p)[i]?).map g := by
  rcases Nat.lt_or_ge i l.length with hi | hi
  · have hlt : κ i < l'.length := by
      have hsome := hl i
      rw [List.getElem?_eq_getElem hi] at hsome
      by_contra hge
      rw [List.getElem?_eq_none (Nat.le_of_not_lt hge)] at hsome
      simp at hsome
    rw [List.getElem?_append_left hlt, List.getElem?_append_left hi, hl]
  · obtain ⟨j, rfl⟩ := Nat.exists_eq_add_of_le hi
    rw [hfixed _ hi, List.getElem?_append_right hi, Nat.add_sub_cancel_left, ← hlength,
      List.getElem?_append_right (Nat.le_add_right _ _), Nat.add_sub_cancel_left,
      ← List.getElem?_map, ← List.getElem?_map, hp]

/-- What new items do not have is not found at their positions. -/
theorem flatMap_getElem?_append {l p : List α} {g : α → List β} (hp : ∀ a ∈ p, g a = [])
    (i : Nat) : ((l ++ p)[i]?).toList.flatMap g = (l[i]?).toList.flatMap g := by
  rcases Nat.lt_or_ge i l.length with hi | hi
  · rw [List.getElem?_append_left hi]
  · rw [List.getElem?_append_right hi, List.getElem?_eq_none hi]
    cases hnew : p[i - l.length]? with
    | none => rfl
    | some a => simp [hp a (List.mem_of_getElem? hnew)]

end Lists

namespace Draft

/-- What a unit adds to a draft. -/
structure Part where
  /-- Functions. -/
  block : List FunctionNode := []
  /-- The class, if there is one. -/
  nodes : List ClassNode := []
  /-- Where the class comes from. -/
  sources : List ClassSource := []
  /-- What goes wrong. -/
  failures : List ClassFailure := []

namespace Part

/-- A part whose functions are at other positions. -/
def rename (ρ : FunctionId → FunctionId) (p : Part) : Part :=
  { p with
    block := p.block.map (FunctionNode.rename ρ)
    nodes := p.nodes.map (ClassNode.rename ρ) }

/-- A part is the same under its own positions. -/
theorem rename_id (p : Part) : p.rename id = p := by
  have hblock : FunctionNode.rename id = id := funext FunctionNode.rename_id
  have hnodes : ClassNode.rename id = id := funext ClassNode.rename_id
  simp [rename, hblock, hnodes]

/-- A part is renamed in two steps as in one. -/
theorem rename_rename {ρ σ : FunctionId → FunctionId} (p : Part) :
    (p.rename ρ).rename σ = p.rename (σ ∘ ρ) := by
  simp [rename, FunctionNode.rename_rename, ClassNode.rename_rename, Function.comp_def]

/-- What is read off the functions of a renamed part is read off the renamed functions. -/
theorem map_block_rename {β : Type} (p : Part) (ρ : FunctionId → FunctionId)
    (g : FunctionNode → β) :
    (p.rename ρ).block.map g = p.block.map fun node => g (node.rename ρ) := by
  rw [rename, List.map_map]
  rfl

/-- What is read off the classes of a renamed part is read off the renamed classes. -/
theorem map_nodes_rename {β : Type} (p : Part) (ρ : FunctionId → FunctionId)
    (g : ClassNode → β) :
    (p.rename ρ).nodes.map g = p.nodes.map fun node => g (node.rename ρ) := by
  rw [rename, List.map_map]
  rfl

/-- Renaming a part leaves the number of its functions. -/
theorem length_block_rename (p : Part) (ρ : FunctionId → FunctionId) :
    (p.rename ρ).block.length = p.block.length := List.length_map _

/-- Renaming a part leaves the number of its classes. -/
theorem length_nodes_rename (p : Part) (ρ : FunctionId → FunctionId) :
    (p.rename ρ).nodes.length = p.nodes.length := List.length_map _

/-- A part refers to its own functions, which are numbered from a base on, and to no classes. -/
structure ClosedAt (base : Nat) (p : Part) : Prop where
  /-- The class has a source. -/
  sources : p.sources.length = p.nodes.length
  /-- What is below a function is in the part. -/
  below : ∀ node ∈ p.block, ∀ f ∈ node.below, f < base + p.block.length
  /-- The members of the class are in the part. -/
  members : ∀ node ∈ p.nodes, ∀ f ∈ node.memberFunctions, f < base + p.block.length
  /-- There are no classes in the functions. -/
  blank : ∀ node ∈ p.block, node.classes = []
  /-- There are no classes in the slots. -/
  slots : ∀ node ∈ p.nodes, node.shape.children = []

end Part

/-- A draft with one more part. -/
def withPart (d : Draft) (p : Part) : Draft :=
  { d with
    tree := { d.tree with
      functions := d.tree.functions ++ p.block
      classes := d.tree.classes ++ p.nodes }
    sources := d.sources ++ p.sources
    failures := d.failures ++ p.failures }

/-- A draft before local and nested classes are placed, which refers to nothing outside of it. -/
structure Unplaced (d : Draft) : Prop where
  /-- Every class has a source. -/
  sources : HasSources d
  /-- What is below a function is in the draft. -/
  below : ∀ node ∈ d.tree.functions, ∀ f ∈ node.below, f < d.tree.functions.length
  /-- Members of classes are in the draft. -/
  members : ∀ node ∈ d.tree.classes, ∀ f ∈ node.memberFunctions, f < d.tree.functions.length
  /-- No class is in a place. -/
  slots : ∀ s, d.tree.slot s = []
  /-- No companion object is in its slot. -/
  companion : ∀ c, d.tree.companionOf c = []
  /-- Holders in slots are in the draft. -/
  holder : ∀ c, ∀ h ∈ d.tree.holderOf c, h < d.tree.classes.length
  /-- Classes that wait are in the draft. -/
  waiting : ∀ c ∈ d.tree.facades ++ d.named ++ d.localClasses, c < d.tree.classes.length

variable {d d' : Draft} {p q : Part} {base : Nat}

namespace Part.ClosedAt

/-- New functions and classes leave all places as they are. -/
theorem slot (h : p.ClosedAt base) (d : Draft) (s : Slot) :
    (d.withPart p).tree.slot s = d.tree.slot s := by
  cases s with
  | topLevel => rfl
  | nested o =>
    exact Lists.flatMap_getElem?_append (fun node hnode =>
      (List.append_eq_nil_iff.mp (List.append_eq_nil_iff.mp (h.slots node hnode)).1).1) o
  | body f => exact Lists.flatMap_getElem?_append h.blank f

/-- A part that refers to no classes adds no companion. -/
theorem companionOf (h : p.ClosedAt base) (d : Draft) (c : ClassId) :
    (d.withPart p).tree.companionOf c = d.tree.companionOf c :=
  Lists.flatMap_getElem?_append (fun node hnode =>
    (List.append_eq_nil_iff.mp (List.append_eq_nil_iff.mp (h.slots node hnode)).1).2) c

/-- A part that refers to no classes adds no holder. -/
theorem holderOf (h : p.ClosedAt base) (d : Draft) (c : ClassId) :
    (d.withPart p).tree.holderOf c = d.tree.holderOf c :=
  Lists.flatMap_getElem?_append (fun node hnode =>
    (List.append_eq_nil_iff.mp (h.slots node hnode)).2) c

/-- Renaming a part depends only on the positions that it can refer to. -/
theorem rename_congr (h : p.ClosedAt base) {ρ σ : FunctionId → FunctionId}
    (hsame : ∀ f < base + p.block.length, ρ f = σ f) : p.rename ρ = p.rename σ := by
  have hblock : p.block.map (FunctionNode.rename ρ) = p.block.map (FunctionNode.rename σ) :=
    List.map_congr_left fun node hnode =>
      FunctionNode.rename_congr fun f hf => hsame f (h.below node hnode f hf)
  have hnodes : p.nodes.map (ClassNode.rename ρ) = p.nodes.map (ClassNode.rename σ) :=
    List.map_congr_left fun node hnode =>
      ClassNode.rename_congr fun f hf => hsame f (h.members node hnode f hf)
  rw [Part.rename, Part.rename, hblock, hnodes]

/-- A part whose functions are at other positions refers to no classes either. -/
theorem rename (h : p.ClosedAt base) {base' : Nat} {ρ : FunctionId → FunctionId}
    (hρ : ∀ f < base + p.block.length, ρ f < base' + p.block.length) :
    (p.rename ρ).ClosedAt base' where
  sources := by
    change p.sources.length = (p.nodes.map _).length
    rw [List.length_map, h.sources]
  below := by
    intro node hnode f hf
    obtain ⟨old, hold, rfl⟩ := List.mem_map.mp hnode
    rw [FunctionNode.rename_below] at hf
    obtain ⟨g, hg, rfl⟩ := List.mem_map.mp hf
    change ρ g < base' + (p.block.map _).length
    rw [List.length_map]
    exact hρ g (h.below old hold g hg)
  members := by
    intro node hnode f hf
    obtain ⟨old, hold, rfl⟩ := List.mem_map.mp hnode
    rw [ClassNode.rename_memberFunctions] at hf
    obtain ⟨g, hg, rfl⟩ := List.mem_map.mp hf
    change ρ g < base' + (p.block.map _).length
    rw [List.length_map]
    exact hρ g (h.members old hold g hg)
  blank := by
    intro node hnode
    obtain ⟨old, hold, rfl⟩ := List.mem_map.mp hnode
    exact h.blank old hold
  slots := by
    intro node hnode
    obtain ⟨old, hold, rfl⟩ := List.mem_map.mp hnode
    exact (ClassShape.rename_children ρ old.shape).trans (h.slots old hold)

end Part.ClosedAt

/-- A part of a draft is one of every draft with the same functions. -/
theorem Embeds.closedAt {ρ : FunctionId → FunctionId} (h : Embeds ρ d d')
    (hp : p.ClosedAt d.tree.functions.length) :
    (p.rename ρ).ClosedAt d'.tree.functions.length :=
  hp.rename fun f hf => by
    rcases Nat.lt_or_ge f d.tree.functions.length with hold | hnew
    · exact Nat.lt_add_right _ ((h.lt_iff f).mpr hold)
    · obtain ⟨j, rfl⟩ := Nat.exists_eq_add_of_le hnew
      rw [h.fresh]
      exact Nat.add_lt_add_left (Nat.lt_of_add_lt_add_left hf) _

/-- Drafts that correspond still do with the same part added to both. -/
theorem Corresponds.withPart {ρ : Equiv.Perm FunctionId} {κ : Equiv.Perm ClassId}
    (h : Corresponds ρ κ d d') (hd : HasSources d) (hd' : HasSources d')
    (hp : p.ClosedAt d.tree.functions.length) :
    Corresponds ρ κ (d.withPart p) (d'.withPart (p.rename ρ)) where
  tree := {
    path := h.tree.path
    functions := Lists.getElem?_map_append h.functionsLength h.functionsFixed h.tree.functions
      (by simp [Part.rename, Function.comp_def])
    classes := Lists.getElem?_map_append h.classesLength h.classesFixed h.tree.classes
      (by simp [Part.rename, Function.comp_def])
    failed := fun c => SourceTree.isFailed_eq_of_map_failed
      (Lists.getElem?_map_append h.classesLength h.classesFixed h.tree.class?_failed
        (by simp [Part.rename, Function.comp_def, ClassNode.rename]) c)
    slots := fun s => by
      rw [(h.embeds.closedAt hp).slot, hp.slot]
      exact h.tree.slots s
    companion := fun c => by
      rw [(h.embeds.closedAt hp).companionOf, hp.companionOf]
      exact h.tree.companion c
    holder := fun c => by
      rw [(h.embeds.closedAt hp).holderOf, hp.holderOf]
      exact h.tree.holder c
    facades := h.tree.facades }
  functionsLength := by
    simp [Draft.withPart, Part.rename, h.functionsLength]
  functionsFixed := fun f hf => by
    rw [Draft.withPart, List.length_append] at hf
    exact h.functionsFixed f (by omega)
  classesLength := by
    simp [Draft.withPart, Part.rename, h.classesLength]
  classesFixed := fun c hc => by
    rw [Draft.withPart, List.length_append] at hc
    exact h.classesFixed c (by omega)
  sources := fun c => by
    have hlength : d'.sources.length = d.sources.length := hd'.trans (h.classesLength.trans hd.symm)
    have hsame (i : Nat) : (d'.sources[κ i]?).map id = (d.sources[i]?).map id := by
      rw [h.sources]
    have happend := Lists.getElem?_map_append (p := p.sources) hlength
      (fun i hi => h.classesFixed i (hd ▸ hi)) hsame rfl c
    simp only [Option.map_id_fun, id_eq] at happend
    exact happend
  names := h.names
  named := h.named
  localClasses := h.localClasses
  holders := h.holders
  failures := h.failures.append_right p.failures

/-- A draft is in itself with another part added to it. -/
theorem Unplaced.embeds (hd : Unplaced d) (q : Part) :
    Embeds (Lists.shift d.tree.functions.length q.block.length) d (d.withPart q) where
  injective := Lists.shift_injective _ _
  fresh := fun j => by
    rw [Lists.shift_of_le (Nat.le_add_right _ j), withPart, List.length_append,
      Nat.add_right_comm]
  functions := fun f => by
    rcases Nat.lt_or_ge f d.tree.functions.length with hf | hf
    · rw [Lists.shift_of_lt hf, SourceTree.function?, SourceTree.function?, withPart,
        List.getElem?_append_left hf, List.getElem?_eq_getElem hf, Option.map_some,
        Option.map_some, FunctionNode.rename_congr (σ := id), FunctionNode.rename_id]
      exact fun g hg => Lists.shift_of_lt (hd.below _ (List.getElem_mem hf) g hg) _
    · have hnone : (d.tree.functions ++ q.block)[f + q.block.length]? = none := by
        rw [List.getElem?_eq_none_iff, List.length_append]
        exact Nat.add_le_add_right hf _
      rw [Lists.shift_of_le hf, SourceTree.function?, SourceTree.function?, withPart, hnone,
        List.getElem?_eq_none hf]
      rfl

section Exchange

/-- The part that is added first makes room for the other one. -/
theorem Part.ClosedAt.rename_shift (hp : p.ClosedAt base) (count : Nat) :
    p.rename (Lists.shift base count) = p.rename (Lists.exchange base p.block.length count) :=
  hp.rename_congr fun _ hf => (Lists.exchange_eq_shift hf count).symm

/-- The part that is added second moves back to where the other one was. -/
theorem Part.ClosedAt.rename_shift_exchange (hq : q.ClosedAt base) (count : Nat) :
    (q.rename (Lists.shift base count)).rename (Lists.exchange base count q.block.length) = q := by
  rw [Part.rename_rename, hq.rename_congr (σ := id) fun f hf => ?_, Part.rename_id]
  rw [Function.comp_apply, Lists.exchange_shift _ hf, id_eq]

variable (hd : Unplaced d)
include hd

/-- What is exchanged behind a draft is not below its functions. -/
theorem Unplaced.functions_exchange (one two : Nat) :
    d.tree.functions.map FunctionNode.bare = d.tree.functions.map fun node =>
      (node.rename (Lists.exchange d.tree.functions.length one two)).bare :=
  List.map_congr_left fun node hnode => by
    rw [FunctionNode.rename_congr (σ := id), FunctionNode.rename_id]
    exact fun f hf => Lists.exchange_of_lt (hd.below node hnode f hf) _ _

/-- The classes before two ranges refer to nothing in them, so exchanging the ranges leaves them as
they are. -/
theorem Unplaced.classes_exchange (one two : Nat) :
    d.tree.classes.map ClassNode.bare = d.tree.classes.map fun node =>
      (node.rename (Lists.exchange d.tree.functions.length one two)).bare :=
  List.map_congr_left fun node hnode => by
    rw [ClassNode.rename_congr (σ := id), ClassNode.rename_id]
    exact fun f hf => Lists.exchange_of_lt (hd.members node hnode f hf) _ _

/-- Classes that wait stay where they are. -/
theorem Unplaced.waiting_exchange (one two : Nat) {ids : List ClassId}
    (hids : ids ⊆ d.tree.facades ++ d.named ++ d.localClasses) :
    ids.Perm (ids.map (Lists.exchange d.tree.classes.length one two)) := by
  refine List.Perm.of_eq (Eq.symm ?_)
  exact (List.map_congr_left fun c hc => Lists.exchange_of_lt (hd.waiting c (hids hc)) _ _).trans
    (List.map_id' ids)

/-- Holders of bodies stay in their slots. -/
theorem Unplaced.holderOf_exchange (one two : Nat) (c : ClassId) :
    d.tree.holderOf (Lists.exchange d.tree.classes.length one two c)
      = (d.tree.holderOf c).map (Lists.exchange d.tree.classes.length one two) := by
  have hnone {o : ClassId} (ho : d.tree.classes.length ≤ o) : d.tree.holderOf o = [] := by
    rw [SourceTree.holderOf, SourceTree.class?, List.getElem?_eq_none ho]
    rfl
  rcases Nat.lt_or_ge c d.tree.classes.length with hc | hc
  · rw [Lists.exchange_of_lt hc]
    exact ((List.map_congr_left fun h hh =>
      Lists.exchange_of_lt (hd.holder c h hh) _ _).trans (List.map_id' _)).symm
  · rw [hnone hc, hnone (Lists.le_exchange hc _ _)]
    rfl

variable (hp : p.ClosedAt d.tree.functions.length) (hq : q.ClosedAt d.tree.functions.length)
include hp hq

/-- Trees that two parts are added to, in both orders. -/
theorem tree_exchange : SourceTree.Corresponds
    (Lists.exchange d.tree.functions.length p.block.length q.block.length)
    (Lists.exchange d.tree.classes.length p.nodes.length q.nodes.length)
    ((d.withPart p).withPart
      (q.rename (Lists.shift d.tree.functions.length p.block.length))).tree
    ((d.withPart q).withPart
      (p.rename (Lists.shift d.tree.functions.length q.block.length))).tree := by
  have hpclosed := hp.rename fun f hf => Lists.shift_lt hf q.block.length
  have hqclosed := hq.rename fun f hf => Lists.shift_lt hf p.block.length
  -- In both orders, the first part is the renamed one and the second is what it was.
  have hback := hq.rename_shift_exchange p.block.length
  rw [hp.rename_shift] at hpclosed ⊢
  generalize q.rename (Lists.shift d.tree.functions.length p.block.length) = q' at hqclosed hback ⊢
  have hblock := (congrArg (·.block.map FunctionNode.bare) hback).symm.trans
    (q'.map_block_rename _ FunctionNode.bare)
  have hnodes {β : Type} (g : ClassNode → β) :=
    (congrArg (·.nodes.map g) hback).symm.trans (q'.map_nodes_rename _ g)
  refine ⟨rfl, ?_, ?_, fun c => SourceTree.isFailed_eq_of_map_failed ?_, fun s => ?_, fun c => ?_,
    fun c => ?_, ?_⟩
  · exact Lists.getElem?_map_exchange (hd.functions_exchange _ _) (p.map_block_rename _ _)
      hblock
  · exact Lists.getElem?_map_exchange (hd.classes_exchange _ _) (p.map_nodes_rename _ _) (hnodes _)
  · exact Lists.getElem?_map_exchange (l := d.tree.classes) rfl (p.map_nodes_rename _ _)
      (hnodes _) c
  · rw [hpclosed.slot, hq.slot, hqclosed.slot, hp.slot, hd.slots, hd.slots]
    exact List.Perm.refl _
  · rw [hpclosed.companionOf, hq.companionOf, hqclosed.companionOf, hp.companionOf,
      hd.companion, hd.companion]
    rfl
  · rw [hpclosed.holderOf, hq.holderOf, hqclosed.holderOf, hp.holderOf]
    exact hd.holderOf_exchange _ _ c
  · exact hd.waiting_exchange _ _ (List.append_assoc _ _ _ ▸ List.subset_append_left _ _)

/-- It does not matter which of two parts is added first. -/
theorem withPart_exchange : Corresponds
    (Lists.exchange d.tree.functions.length p.block.length q.block.length)
    (Lists.exchange d.tree.classes.length p.nodes.length q.nodes.length)
    ((d.withPart p).withPart (q.rename (Lists.shift d.tree.functions.length p.block.length)))
    ((d.withPart q).withPart (p.rename (Lists.shift d.tree.functions.length q.block.length))) where
  tree := tree_exchange hd hp hq
  functionsLength := by
    simp only [withPart, List.length_append, Part.length_block_rename]
    omega
  functionsFixed := fun f hf => by
    simp only [withPart, List.length_append, Part.length_block_rename] at hf
    exact Lists.exchange_of_le hf
  classesLength := by
    simp only [withPart, List.length_append, Part.length_nodes_rename]
    omega
  classesFixed := fun c hc => by
    simp only [withPart, List.length_append, Part.length_nodes_rename] at hc
    exact Lists.exchange_of_le hc
  sources := fun c => by
    have hexchange := Lists.getElem?_exchange d.sources p.sources q.sources c
    rwa [show d.sources.length = d.tree.classes.length from hd.sources, hp.sources, hq.sources]
      at hexchange
  names := List.Perm.refl _
  named := hd.waiting_exchange _ _ fun _ hc => List.mem_append_left _ (List.mem_append_right _ hc)
  localClasses := hd.waiting_exchange _ _ (List.subset_append_right _ _)
  holders := List.Perm.refl _
  failures := by
    change (d.failures ++ q.failures ++ p.failures).Perm (d.failures ++ p.failures ++ q.failures)
    rw [List.append_assoc, List.append_assoc]
    exact List.perm_append_comm.append_left _

end Exchange

end Draft

end LineAtlas
