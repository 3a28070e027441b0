import LineAtlas.Proofs.Lists
import Mathlib.Data.List.Perm.Subperm

/-!
# Levels of a forest

The nodes below some roots, level by level. A walk that goes down to a given depth comes by the
nodes of as many levels. Where every node has at most one place there are no more levels than
nodes, so that a walk which may go down that far comes by all of them.
-/

namespace LineAtlas.Levels

variable {α β : Type} (kids : α → List α)

/-- The nodes at a given depth below some roots. -/
def level : Nat → List α → List α
  | 0, roots => roots
  | depth + 1, roots => level depth (roots.flatMap kids)

/-- The nodes down to a given depth below some roots, which are the first level. -/
def levels : Nat → List α → List α
  | 0, _ => []
  | depth + 1, roots => roots ++ levels depth (roots.flatMap kids)

/-- Nothing is below no roots. -/
theorem level_nil (depth : Nat) : level kids depth [] = [] := by
  induction depth with
  | zero => rfl
  | succ depth ih => exact ih

/-- The nodes below two lists of roots are those below either, level by level. -/
theorem level_append (depth : Nat) (one two : List α) :
    level kids depth (one ++ two) = level kids depth one ++ level kids depth two := by
  induction depth generalizing one two with
  | zero => rfl
  | succ depth ih => rw [level, List.flatMap_append, ih, level, level]

/-- Going down in two stretches comes to the same level as going down in one. -/
theorem level_add (one two : Nat) (roots : List α) :
    level kids (one + two) roots = level kids two (level kids one roots) := by
  induction one generalizing roots with
  | zero => rw [Nat.zero_add, level]
  | succ one ih => rw [Nat.succ_add, level, ih, level]

/-- Below a level without nodes there are no nodes. -/
theorem level_eq_nil_of_le {depth deeper : Nat} {roots : List α} (hle : depth ≤ deeper)
    (hnil : level kids depth roots = []) : level kids deeper roots = [] := by
  obtain ⟨more, rfl⟩ := Nat.exists_eq_add_of_le hle
  rw [level_add, hnil, level_nil]

/-- A level that is empty below some roots is empty below each of them. -/
theorem level_eq_nil_of_mem {depth : Nat} {roots : List α} {a : α} (ha : a ∈ roots)
    (hnil : level kids depth roots = []) : level kids depth [a] = [] := by
  obtain ⟨before, after, rfl⟩ := List.append_of_mem ha
  rw [← List.singleton_append, level_append, level_append, List.append_eq_nil_iff,
    List.append_eq_nil_iff] at hnil
  exact hnil.2.1

/-- A level that is empty below each root is empty below all of them. -/
theorem level_eq_nil_of_forall {depth : Nat} {roots : List α}
    (hnil : ∀ a ∈ roots, level kids depth [a] = []) : level kids depth roots = [] := by
  induction roots with
  | nil => exact level_nil kids depth
  | cons a rest ih =>
    rw [← List.singleton_append, level_append, hnil a List.mem_cons_self,
      ih fun b hb => hnil b (List.mem_cons_of_mem a hb)]
    rfl

/-- The last of several levels comes last. -/
theorem levels_succ (depth : Nat) (roots : List α) :
    levels kids (depth + 1) roots = levels kids depth roots ++ level kids depth roots := by
  induction depth generalizing roots with
  | zero => simp [levels, level]
  | succ depth ih => rw [levels, ih, levels, level, List.append_assoc]

/-- The levels below the kids of some roots are the kids of the levels. -/
theorem levels_flatMap (depth : Nat) (roots : List α) :
    levels kids depth (roots.flatMap kids) = (levels kids depth roots).flatMap kids := by
  induction depth generalizing roots with
  | zero => rfl
  | succ depth ih => rw [levels, levels, ih (roots.flatMap kids), List.flatMap_append]

/-- Where the levels end, what they have is the roots and the nodes below what they have. -/
theorem levels_eq {depth : Nat} {roots : List α} (hnil : level kids depth roots = []) :
    levels kids depth roots = roots ++ (levels kids depth roots).flatMap kids := by
  have hsucc := levels_succ kids depth roots
  rw [hnil, List.append_nil, levels, levels_flatMap] at hsucc
  exact hsucc.symm

/-- Whatever is the roots and the nodes below what it has, and ends, has the levels. -/
theorem perm_levels_of_perm {depth : Nat} {roots all : List α}
    (hall : all.Perm (roots ++ all.flatMap kids)) (hnil : level kids depth all = []) :
    all.Perm (levels kids depth roots) := by
  induction depth generalizing roots all with
  | zero =>
    have hempty : all = [] := hnil
    rw [hempty]
    exact List.Perm.refl _
  | succ depth ih =>
    have hbelow : (all.flatMap kids).Perm
        (roots.flatMap kids ++ (all.flatMap kids).flatMap kids) := by
      rw [← List.flatMap_append]
      exact hall.flatMap_right kids
    exact hall.trans ((ih hbelow hnil).append_left roots)

/-- A node with no level so deep below it has no endless way down. -/
theorem acc_of_level_eq_nil {depth : Nat} {a : α} (hnil : level kids depth [a] = []) :
    Acc (fun below node => below ∈ kids node) a := by
  induction depth generalizing a with
  | zero => exact absurd hnil (List.cons_ne_nil a [])
  | succ depth ih =>
    rw [level, List.flatMap_singleton] at hnil
    exact Acc.intro a fun b hb => ih (level_eq_nil_of_mem kids hb hnil)

/-- Where a node has no level so deep below it, neither have the nodes right below it. -/
theorem level_kid_eq_nil {depth : Nat} {a b : α} (hnil : level kids depth [a] = [])
    (hb : b ∈ kids a) : level kids depth [b] = [] := by
  have hnext := level_eq_nil_of_le kids (Nat.le_succ depth) hnil
  rw [level, List.flatMap_singleton] at hnext
  exact level_eq_nil_of_mem kids hb hnext

/-- What holds of the roots and is handed down holds at every level. -/
theorem forall_mem_levels {P : α → Prop} {roots : List α} (hroots : ∀ a ∈ roots, P a)
    (hkids : ∀ a, P a → ∀ b ∈ kids a, P b) (depth : Nat) :
    ∀ a ∈ levels kids depth roots, P a := by
  induction depth generalizing roots with
  | zero => exact fun a ha => absurd ha List.not_mem_nil
  | succ depth ih =>
    intro a ha
    rcases List.mem_append.mp ha with ha | ha
    · exact hroots a ha
    · refine ih (fun b hb => ?_) a ha
      obtain ⟨c, hc, hb⟩ := List.mem_flatMap.mp hb
      exact hkids c (hroots c hc) b hb

/-- A walk that has something of its own at every node, and something else at the nodes where
it may not go down any further. -/
theorem flatMap_walk_perm (walk : Nat → α → List β) (own last : α → List β) (P : α → Prop)
    (hzero : ∀ a, P a → (walk 0 a).Perm (last a))
    (hsucc : ∀ depth a, P a →
      (walk (depth + 1) a).Perm (own a ++ (kids a).flatMap (walk depth)))
    (hkids : ∀ a, P a → ∀ b ∈ kids a, P b) (depth : Nat) {roots : List α}
    (hroots : ∀ a ∈ roots, P a) :
    (roots.flatMap (walk depth)).Perm
      ((levels kids depth roots).flatMap own ++ (level kids depth roots).flatMap last) := by
  induction depth generalizing roots with
  | zero => exact List.Perm.flatMap_left roots fun a ha => hzero a (hroots a ha)
  | succ depth ih =>
    have hbelow : ∀ b ∈ roots.flatMap kids, P b := by
      intro b hb
      obtain ⟨a, ha, hb⟩ := List.mem_flatMap.mp hb
      exact hkids a (hroots a ha) b hb
    calc
      (roots.flatMap (walk (depth + 1))).Perm
          (roots.flatMap fun a => own a ++ (kids a).flatMap (walk depth)) :=
        List.Perm.flatMap_left roots fun a ha => hsucc depth a (hroots a ha)
      _ |>.Perm (roots.flatMap own ++ (roots.flatMap kids).flatMap (walk depth)) := by
        rw [List.flatMap_assoc]
        exact (List.flatMap_append_perm roots _ _).symm
      _ |>.Perm (roots.flatMap own ++ ((levels kids depth (roots.flatMap kids)).flatMap own
          ++ (level kids depth (roots.flatMap kids)).flatMap last)) :=
        (ih hbelow).append_left _
      _ |>.Perm ((levels kids (depth + 1) roots).flatMap own
          ++ (level kids (depth + 1) roots).flatMap last) := by
        rw [levels, level, List.flatMap_append, List.append_assoc]

/-- A level that has nodes is below as many others that have nodes. -/
theorem lt_length_levels {depth : Nat} {roots : List α} (hlevel : level kids depth roots ≠ []) :
    depth < (levels kids (depth + 1) roots).length := by
  induction depth generalizing roots with
  | zero => simpa [levels, level, List.length_pos_iff] using hlevel
  | succ depth ih =>
    have hroots : roots ≠ [] := by
      rintro rfl
      exact hlevel (level_nil kids (depth + 1))
    have hpos := List.length_pos_iff.mpr hroots
    have hbelow := ih hlevel
    rw [levels, List.length_append]
    omega

section Places

variable {ι : Type} (ids : α → List ι) (slots : ι → List ι) {all : List ι} {roots : List α}

/-- Nodes whose ids have one place each are met once. -/
theorem nodup_levels_of_places
    (hkids : ∀ a, ((kids a).flatMap ids).Subperm ((ids a).flatMap slots))
    (hplaces : (roots.flatMap ids ++ all.flatMap slots).Nodup)
    (hall : roots.flatMap ids ++ all.flatMap slots ⊆ all) (depth : Nat) :
    ((levels kids depth roots).flatMap ids).Nodup ∧
      (levels kids depth roots).flatMap ids ⊆ all := by
  induction depth with
  | zero => exact ⟨List.nodup_nil, List.nil_subset _⟩
  | succ depth ih =>
    obtain ⟨hnodup, hsubset⟩ := ih
    have hbelow : (((levels kids depth roots).flatMap kids).flatMap ids).Subperm
        (all.flatMap slots) := by
      have hslots := Lists.Subperm.flatMap (List.subperm_of_subset hnodup hsubset) slots
      rw [List.flatMap_assoc] at hslots ⊢
      exact (Lists.Subperm.flatMap_left _ fun a _ => hkids a).trans hslots
    have hsubperm : ((levels kids (depth + 1) roots).flatMap ids).Subperm
        (roots.flatMap ids ++ all.flatMap slots) := by
      rw [levels, levels_flatMap, List.flatMap_append]
      exact (List.Subperm.refl _).append hbelow
    exact ⟨Lists.Subperm.nodup hsubperm hplaces, fun i hi => hall (hsubperm.subset hi)⟩

/-- There are no more levels than nodes. -/
theorem level_eq_nil_of_places (hids : ∀ a, ids a ≠ [])
    (hkids : ∀ a, ((kids a).flatMap ids).Subperm ((ids a).flatMap slots))
    (hplaces : (roots.flatMap ids ++ all.flatMap slots).Nodup)
    (hall : roots.flatMap ids ++ all.flatMap slots ⊆ all) :
    level kids all.length roots = [] := by
  by_contra hlevel
  have hlength := lt_length_levels kids hlevel
  obtain ⟨hnodup, hsubset⟩ :=
    nodup_levels_of_places kids ids slots hkids hplaces hall (all.length + 1)
  have hfew := (List.subperm_of_subset hnodup hsubset).length_le
  have hcount : (levels kids (all.length + 1) roots).length
      ≤ ((levels kids (all.length + 1) roots).flatMap ids).length := by
    induction levels kids (all.length + 1) roots with
    | nil => exact Nat.le_refl _
    | cons a rest ih =>
      have hpos := List.length_pos_iff.mpr (hids a)
      rw [List.flatMap_cons, List.length_append, List.length_cons]
      omega
  omega

end Places

section Numbers

variable (ids : α → List Nat) (slots : Nat → List Nat) {size : Nat} {roots : List α}

/-- Nodes whose numbers have one place each are met once. -/
theorem nodup_levels (hkids : ∀ a, ((kids a).flatMap ids).Subperm ((ids a).flatMap slots))
    (hplaces : (roots.flatMap ids ++ (List.range size).flatMap slots).Nodup)
    (hbound : ∀ i ∈ roots.flatMap ids ++ (List.range size).flatMap slots, i < size)
    (depth : Nat) : ((levels kids depth roots).flatMap ids).Nodup ∧
      ∀ i ∈ (levels kids depth roots).flatMap ids, i < size := by
  obtain ⟨hnodup, hsubset⟩ := nodup_levels_of_places kids ids slots hkids hplaces
    (fun i hi => List.mem_range.mpr (hbound i hi)) depth
  exact ⟨hnodup, fun i hi => List.mem_range.mp (hsubset hi)⟩

/-- There are no more levels than numbers. -/
theorem level_eq_nil (hids : ∀ a, ids a ≠ [])
    (hkids : ∀ a, ((kids a).flatMap ids).Subperm ((ids a).flatMap slots))
    (hplaces : (roots.flatMap ids ++ (List.range size).flatMap slots).Nodup)
    (hbound : ∀ i ∈ roots.flatMap ids ++ (List.range size).flatMap slots, i < size) :
    level kids size roots = [] := by
  have hlevel := level_eq_nil_of_places kids ids slots hids hkids hplaces
    fun i hi => List.mem_range.mpr (hbound i hi)
  rwa [List.length_range] at hlevel

end Numbers

end LineAtlas.Levels
