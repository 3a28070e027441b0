import LineAtlas.Proofs.Tree.Forest
import LineAtlas.Tree.Draft
import Mathlib.Algebra.Order.Group.Multiset
import Mathlib.Tactic.Abel

/-!
# Blocks of functions

A class adds its functions next to each other: those that it owns, which are the roots of the
block, and below them their helpers and local functions.
-/

namespace LineAtlas.Draft

/-- A function of a block that the report shows without a name. The functions of a block are
numbered from a base on. -/
def Unnamed (base : Nat) (block : List FunctionNode) (f : FunctionId) : Prop :=
  ∃ (i : Nat) (node : FunctionNode), f = base + i ∧ block[i]? = some node ∧ node.kind = .anonymous

/-- A block whose functions are its roots and what is below them, with the methods that they
stand for. -/
structure Rooted (base : Nat) (roots : List FunctionId) (block : List FunctionNode)
    (bodies : List Body) : Prop where
  /-- Every function is a root or below another function, and has no second place. -/
  places : (roots ++ block.flatMap FunctionNode.below).Perm (List.range' base block.length)
  /-- The functions stand for these methods. -/
  bodies : (block.map FunctionNode.body).Perm bodies
  /-- There are no classes in the functions yet. -/
  blank : ∀ (i : Nat) (node : FunctionNode), block[i]? = some node → node.classes = []
  /-- Functions without a name have no helper. -/
  anonymous : ∀ (i : Nat) (node : FunctionNode), block[i]? = some node →
    node.kind = .anonymous → node.defaultValues = none
  /-- Helpers have no name. -/
  helper : ∀ (i : Nat) (node : FunctionNode), block[i]? = some node →
    ∀ h, node.defaultValues = some h → Unnamed base block h
  /-- Only roots come after what is below them. -/
  order : ∀ (i : Nat) (node : FunctionNode), block[i]? = some node →
    ∀ f ∈ node.below, base + i < f ∨ base + i ∈ roots

/-- A block with a new function at its end, which is local in another one. -/
def putBelow (base i : Nat) (new : FunctionNode) (block : List FunctionNode) :
    List FunctionNode :=
  (block ++ [new]).modify i fun node =>
    { node with locals := node.locals ++ [base + block.length] }

variable {base : Nat} {roots : List FunctionId} {block : List FunctionNode} {bodies : List Body}

/-- A function without a name is one also when the block goes on. -/
theorem Unnamed.append_right {f : FunctionId} (hf : Unnamed base block f)
    (more : List FunctionNode) : Unnamed base (block ++ more) f := by
  obtain ⟨i, node, rfl, hnode, hkind⟩ := hf
  refine ⟨i, node, rfl, ?_, hkind⟩
  rw [List.getElem?_append_left (List.getElem?_eq_some_iff.mp hnode).1, hnode]

/-- A function without a name is one also when the block begins earlier. -/
theorem Unnamed.append_left {f : FunctionId} {more : List FunctionNode}
    (hf : Unnamed (base + block.length) more f) : Unnamed base (block ++ more) f := by
  obtain ⟨i, node, rfl, hnode, hkind⟩ := hf
  refine ⟨block.length + i, node, Nat.add_assoc _ _ _, ?_, hkind⟩
  rw [List.getElem?_append_right (by omega), Nat.add_sub_cancel_left, hnode]

/-- Changes that leave functions without names as they are in this respect. -/
theorem Unnamed.modify {f : FunctionId} (hf : Unnamed base block f) {i : Nat}
    {change : FunctionNode → FunctionNode}
    (hchange : ∀ node, node.kind = .anonymous → (change node).kind = .anonymous) :
    Unnamed base (block.modify i change) f := by
  obtain ⟨j, node, rfl, hnode, hkind⟩ := hf
  refine ⟨j, if i = j then change node else node, rfl, ?_, ?_⟩
  · rw [List.getElem?_modify, hnode]
    split <;> rfl
  · split
    · exact hchange node hkind
    · exact hkind

namespace Rooted

/-- No functions have no roots. -/
theorem nil (base : Nat) : Rooted base [] [] [] :=
  ⟨List.Perm.refl _, List.Perm.refl _, by simp, by simp, by simp, by simp⟩

/-- A function with nothing below it. -/
theorem single (base : Nat) (kind : FunctionKind) (body : Body) :
    Rooted base [base] [{ kind, body }] [body] := by
  have hnode (i : Nat) (node : FunctionNode)
      (h : [({ kind, body } : FunctionNode)][i]? = some node) : node = { kind, body } := by
    simpa using List.mem_of_getElem? h
  refine ⟨List.Perm.refl _, List.Perm.refl _, ?_, ?_, ?_, ?_⟩
  · intro i node h
    rw [hnode i node h]
  · intro i node h _
    rw [hnode i node h]
  · intro i node h helper hhelper
    rw [hnode i node h] at hhelper
    simp at hhelper
  · intro i node h f hf
    rw [hnode i node h] at hf
    simp [FunctionNode.below] at hf

/-- The roots of a block are functions of the block. -/
theorem mem_range_of_mem_roots (h : Rooted base roots block bodies) {f : FunctionId}
    (hf : f ∈ roots) : f ∈ List.range' base block.length :=
  h.places.mem_iff.mp (List.mem_append_left _ hf)

/-- The order of the roots does not matter. -/
theorem perm_roots (h : Rooted base roots block bodies) {roots' : List FunctionId}
    (hperm : roots.Perm roots') : Rooted base roots' block bodies where
  places := (hperm.symm.append_right _).trans h.places
  bodies := h.bodies
  blank := h.blank
  anonymous := h.anonymous
  helper := h.helper
  order := fun i node hnode f hf =>
    (h.order i node hnode f hf).imp id fun hroot => hperm.mem_iff.mp hroot

/-- Blocks next to each other make up one block. -/
theorem append {roots' : List FunctionId} {block' : List FunctionNode} {bodies' : List Body}
    (h : Rooted base roots block bodies)
    (h' : Rooted (base + block.length) roots' block' bodies') :
    Rooted base (roots ++ roots') (block ++ block') (bodies ++ bodies') := by
  have hcases (i : Nat) (node : FunctionNode) (hnode : (block ++ block')[i]? = some node) :
      block[i]? = some node ∨ ∃ j, i = block.length + j ∧ block'[j]? = some node := by
    rw [List.getElem?_append] at hnode
    split at hnode
    · exact Or.inl hnode
    · exact Or.inr ⟨i - block.length, by omega, hnode⟩
  constructor
  · rw [List.length_append, ← List.range'_append_1, List.flatMap_append]
    refine List.Perm.trans ?_ (h.places.append h'.places)
    rw [← Multiset.coe_eq_coe]
    simp only [← Multiset.coe_add]
    abel
  · rw [List.map_append]
    exact h.bodies.append h'.bodies
  · intro i node hnode
    rcases hcases i node hnode with hnode | ⟨j, -, hnode⟩
    · exact h.blank i node hnode
    · exact h'.blank j node hnode
  · intro i node hnode
    rcases hcases i node hnode with hnode | ⟨j, -, hnode⟩
    · exact h.anonymous i node hnode
    · exact h'.anonymous j node hnode
  · intro i node hnode helper hhelper
    rcases hcases i node hnode with hnode | ⟨j, -, hnode⟩
    · exact (h.helper i node hnode helper hhelper).append_right block'
    · exact (h'.helper j node hnode helper hhelper).append_left
  · intro i node hnode f hf
    rcases hcases i node hnode with hleft | ⟨j, rfl, hright⟩
    · exact (h.order i node hleft f hf).imp id fun hroot => List.mem_append_left _ hroot
    · rw [← Nat.add_assoc]
      exact (h'.order j node hright f hf).imp id fun hroot => List.mem_append_right _ hroot

/-- A function after its helper. -/
theorem afterHelper (base : Nat) (kind : FunctionKind) (body helper : Body)
    (hkind : kind ≠ .anonymous) :
    Rooted base [base + 1]
      [{ kind := .anonymous, body := helper }, { kind, body, defaultValues := some base }]
      [body, helper] := by
  refine ⟨List.Perm.swap _ _ _, List.Perm.swap _ _ _, ?_, ?_, ?_, ?_⟩
  all_goals
    intro i node hnode
    rcases i with _ | _ | i
  all_goals simp at hnode
  all_goals subst hnode
  · rfl
  · rfl
  · exact fun _ => rfl
  · exact fun h => absurd h hkind
  · simp
  · rintro h hh
    obtain rfl : base = h := by simpa using hh
    exact ⟨0, _, rfl, rfl, rfl⟩
  · simp [FunctionNode.below]
  · exact fun _ _ => Or.inr List.mem_cons_self

/-- A function before its helper. -/
theorem beforeHelper (base : Nat) (kind : FunctionKind) (body helper : Body)
    (hkind : kind ≠ .anonymous) :
    Rooted base [base]
      [{ kind, body, defaultValues := some (base + 1) }, { kind := .anonymous, body := helper }]
      [body, helper] := by
  refine ⟨List.Perm.refl _, List.Perm.refl _, ?_, ?_, ?_, ?_⟩
  all_goals
    intro i node hnode
    rcases i with _ | _ | i
  all_goals simp at hnode
  all_goals subst hnode
  · rfl
  · rfl
  · exact fun h => absurd h hkind
  · exact fun _ => rfl
  · rintro h hh
    obtain rfl : base + 1 = h := by simpa using hh
    exact ⟨1, _, rfl, rfl, rfl⟩
  · simp
  · exact fun _ _ => Or.inr List.mem_cons_self
  · simp [FunctionNode.below]

/-- What is below a function that is no root comes later in the block. -/
theorem exists_later (h : Rooted base roots block bodies) {i : Nat} {node : FunctionNode}
    (hnode : block[i]? = some node) (hroot : base + i ∉ roots) {f : FunctionId}
    (hf : f ∈ node.below) : ∃ j, i < j ∧ j < block.length ∧ f = base + j := by
  have hlt := (h.order i node hnode f hf).resolve_right hroot
  have hmem : f ∈ List.range' base block.length :=
    h.places.mem_iff.mp (List.mem_append_right _
      (List.mem_flatMap.mpr ⟨node, List.mem_of_getElem? hnode, hf⟩))
  have hbound := List.mem_range'_1.mp hmem
  exact ⟨f - base, by omega, by omega, (Nat.add_sub_of_le hbound.1).symm⟩

/-- Moves the last root, with nothing below it, below another function. -/
theorem moveBelow {f : FunctionId} (h : Rooted base (roots ++ [f]) block bodies) {i : Nat}
    (hi : i < block.length) (hlater : base + i < f)
    (hleaf : ∀ (j : Nat) (node : FunctionNode), f = base + j → block[j]? = some node →
      node.below = []) :
    Rooted base roots
      (block.modify i fun node => { node with locals := node.locals ++ [f] }) bodies := by
  constructor
  · rw [List.length_modify]
    refine List.Perm.trans ?_ h.places
    rw [List.append_assoc]
    refine List.Perm.append_left _ ((Lists.flatMap_modify_perm _ _ [f]
      (List.getElem?_eq_getElem hi) (List.Perm.of_eq ?_)).trans List.perm_append_comm)
    simp [FunctionNode.below]
  · rw [Lists.map_modify]
    · exact h.bodies
    · exact fun _ => rfl
  · intro j node hnode
    obtain ⟨old, hold, rfl⟩ := Lists.getElem?_modify_eq_some hnode
    have hblank := h.blank j old hold
    split <;> exact hblank
  · intro j node hnode
    obtain ⟨old, hold, rfl⟩ := Lists.getElem?_modify_eq_some hnode
    have hanonymous := h.anonymous j old hold
    split <;> exact hanonymous
  · intro j node hnode helper hhelper
    obtain ⟨old, hold, rfl⟩ := Lists.getElem?_modify_eq_some hnode
    have hvalues : old.defaultValues = some helper := by
      split at hhelper <;> exact hhelper
    exact (h.helper j old hold helper hvalues).modify fun _ hkind => hkind
  · intro j node hnode g hg
    obtain ⟨old, hold, rfl⟩ := Lists.getElem?_modify_eq_some hnode
    have hcases : g ∈ old.below ∨ i = j ∧ g = f := by
      split at hg
      · next hij => simpa [FunctionNode.below, hij, or_assoc] using hg
      · exact Or.inl hg
    rcases hcases with hbelow | ⟨rfl, rfl⟩
    · rcases h.order j old hold g hbelow with hlt | hroot
      · exact Or.inl hlt
      · rcases List.mem_append.mp hroot with hroot | hlast
        · exact Or.inr hroot
        · rw [hleaf j old (List.mem_singleton.mp hlast).symm hold] at hbelow
          exact absurd hbelow List.not_mem_nil
    · exact Or.inl hlater

/-- A new function below another one leaves a block rooted. -/
theorem putBelow (h : Rooted base roots block bodies) {i : Nat} (hi : i < block.length)
    (kind : FunctionKind) (body : Body) :
    Rooted base roots (Draft.putBelow base i { kind, body } block) (bodies ++ [body]) := by
  refine (h.append (single _ kind body)).moveBelow ?_ (Nat.add_lt_add_left hi base) ?_
  · rw [List.length_append]
    omega
  · intro j node hj hnode
    obtain rfl : block.length = j := Nat.add_left_cancel hj
    obtain rfl : ({ kind, body } : FunctionNode) = node := by simpa using hnode
    rfl

/-- Leaves a function without its name. -/
theorem unname (h : Rooted base roots block bodies) {i : Nat}
    (hnone : ∀ node : FunctionNode, block[i]? = some node → node.defaultValues = none) :
    Rooted base roots (block.modify i fun node => { node with kind := .anonymous }) bodies := by
  constructor
  · rw [List.length_modify, List.flatMap_def, Lists.map_modify, ← List.flatMap_def]
    · exact h.places
    · exact fun _ => rfl
  · rw [Lists.map_modify]
    · exact h.bodies
    · exact fun _ => rfl
  · intro j node hnode
    obtain ⟨old, hold, rfl⟩ := Lists.getElem?_modify_eq_some hnode
    have hblank := h.blank j old hold
    split <;> exact hblank
  · intro j node hnode hkind
    obtain ⟨old, hold, rfl⟩ := Lists.getElem?_modify_eq_some hnode
    by_cases hij : i = j
    · subst hij
      simpa using hnone old hold
    · rw [if_neg hij] at hkind ⊢
      exact h.anonymous j old hold hkind
  · intro j node hnode helper hhelper
    obtain ⟨old, hold, rfl⟩ := Lists.getElem?_modify_eq_some hnode
    have hvalues : old.defaultValues = some helper := by
      split at hhelper <;> exact hhelper
    exact (h.helper j old hold helper hvalues).modify fun _ _ => rfl
  · intro j node hnode g hg
    obtain ⟨old, hold, rfl⟩ := Lists.getElem?_modify_eq_some hnode
    refine h.order j old hold g ?_
    split at hg <;> exact hg

/-- Turns a local function without a name into the helper of the function around it. -/
theorem adopt (h : Rooted base roots block bodies) {i : Nat} {node : FunctionNode}
    (hnode : block[i]? = some node) (hkind : node.kind ≠ .anonymous)
    (hnone : node.defaultValues = none) {helper : FunctionId} (hhelper : helper ∈ node.locals)
    (hunnamed : Unnamed base block helper) :
    Rooted base roots (block.modify i fun node =>
      { node with locals := node.locals.erase helper, defaultValues := some helper }) bodies := by
  have hbelow : ({ node with
      locals := node.locals.erase helper, defaultValues := some helper } : FunctionNode).below.Perm
        node.below := by
    simpa [FunctionNode.below, hnone] using (List.perm_cons_erase hhelper).symm
  have hsame {j : Nat} {old : FunctionNode} (hold : block[j]? = some old) (hij : i = j) :
      old = node := by
    subst hij
    exact Option.some.inj (hold.symm.trans hnode)
  constructor
  · rw [List.length_modify]
    refine List.Perm.trans (List.Perm.append_left _ ?_) h.places
    have hmodify := Lists.flatMap_modify_perm (fun node : FunctionNode =>
      { node with locals := node.locals.erase helper, defaultValues := some helper })
      FunctionNode.below [] hnode (by rwa [List.append_nil])
    rwa [List.append_nil] at hmodify
  · rw [Lists.map_modify]
    · exact h.bodies
    · exact fun _ => rfl
  · intro j new hnew
    obtain ⟨old, hold, rfl⟩ := Lists.getElem?_modify_eq_some hnew
    have hblank := h.blank j old hold
    split <;> exact hblank
  · intro j new hnew hanonymous
    obtain ⟨old, hold, rfl⟩ := Lists.getElem?_modify_eq_some hnew
    by_cases hij : i = j
    · rw [if_pos hij] at hanonymous
      exact absurd (hsame hold hij ▸ hanonymous) hkind
    · rw [if_neg hij] at hanonymous ⊢
      exact h.anonymous j old hold hanonymous
  · intro j new hnew g hg
    obtain ⟨old, hold, rfl⟩ := Lists.getElem?_modify_eq_some hnew
    refine Unnamed.modify ?_ fun _ hanonymous => hanonymous
    split at hg
    · obtain rfl : helper = g := by simpa using hg
      exact hunnamed
    · exact h.helper j old hold g hg
  · intro j new hnew g hg
    obtain ⟨old, hold, rfl⟩ := Lists.getElem?_modify_eq_some hnew
    refine h.order j old hold g ?_
    split at hg
    · next hij =>
      obtain rfl := hsame hold hij
      exact hbelow.mem_iff.mp hg
    · exact hg

end Rooted

end LineAtlas.Draft
