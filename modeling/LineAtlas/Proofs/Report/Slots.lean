import LineAtlas.Proofs.Report.Walk
import LineAtlas.Proofs.Tree.Places

/-!
# What a walk over classes shows

The entry of a class shows its members, the classes nested in it, and those in its slots. The
entry of an object shows no slots. Companion objects are shown as objects whatever they are.
-/

namespace LineAtlas.SourceTree

open Report

variable {t : SourceTree} {nesting : Nesting}

/-- Whether a class is shown as an object: objects are, and classes in the slot of a companion
object. -/
def shownAsObject (t : SourceTree) (c : ClassId) : Bool :=
  (t.class? c).any ClassNode.isObject
    || t.classes.any fun owner => owner.shape.companion.contains c

/-- The classes nested in a class. -/
def nestedOf (t : SourceTree) (c : ClassId) : List ClassId :=
  (t.class? c).toList.flatMap (·.shape.nested)

/-- The companion object of a class. -/
def companionOf (t : SourceTree) (c : ClassId) : List ClassId :=
  (t.class? c).toList.flatMap (·.shape.companion)

/-- The holder of the bodies of an interface. -/
def holderOf (t : SourceTree) (c : ClassId) : List ClassId :=
  (t.class? c).toList.flatMap (·.shape.holder)

/-- A class and those in its slots that are shown along with it. -/
def withSlots (t : SourceTree) (c : ClassId) : List ClassId :=
  if t.shownAsObject c then [c]
  else c :: ((t.companionOf c ++ t.holderOf c).filter t.isLive)

/-- A class is shown with itself. -/
theorem mem_withSlots_self (t : SourceTree) (c : ClassId) : c ∈ t.withSlots c := by
  rw [withSlots]
  split <;> exact List.mem_cons_self

/-- The classes nested in a class and in those in its slots that did not fail. -/
def nestedBoth (t : SourceTree) (c : ClassId) : List ClassId :=
  (t.withSlots c).flatMap fun e => (t.nestedOf e).filter t.isLive

/-- What a class shows of itself and its members. -/
def listedItems (t : SourceTree) (c : ClassId) : List Item :=
  (t.class? c).toList.flatMap fun node => node.item :: (t.memberEntries t.contents node).items

/-- What several nested classes show. -/
def nestedItems (nesting : Nesting) (ids : List ClassId) : List Item :=
  ClassEntry.itemsOf (nesting ids).classes ++ ObjectEntry.itemsOf (nesting ids).objects

/-- What the entry of a class shows. -/
def entryItems (t : SourceTree) (nesting : Nesting) (c : ClassId) : List Item :=
  (t.class? c).toList.flatMap fun node =>
    if t.shownAsObject c then (t.objectEntry nesting node).items
    else (t.classEntry nesting node).items

/-- An object shows its name, its members and what is nested in it. -/
theorem objectEntry_items {node : ClassNode} (hnamed : node.shape.IsNamed) :
    (t.objectEntry nesting node).items
      = node.item :: ((t.memberEntries t.contents node).items
        ++ nestedItems nesting node.shape.nested) := by
  obtain ⟨shape, hshape⟩ := hnamed
  simp only [objectEntry, hshape, ObjectEntry.items, ClassNode.item, nestedItems,
    ClassShape.nested, List.append_assoc]

/-- A slot has at most one class. -/
theorem live_head? (o : Option ClassId) : (t.live o.toList).head?.toList = t.live o.toList := by
  cases o with
  | none => rfl
  | some c =>
    have hlength : (t.live [c]).length ≤ 1 :=
      (List.length_filter_le _ _).trans (List.length_filterMap_le _ _)
    rw [Option.toList_some]
    match t.live [c], hlength with
    | [], _ => rfl
    | [node], _ => rfl

/-- A class shows what an object does, and its companion and its holder. -/
theorem classEntry_items {node : ClassNode} (hnamed : node.shape.IsNamed) :
    (t.classEntry nesting node).items
      = node.item :: ((t.memberEntries t.contents node).items
        ++ nestedItems nesting node.shape.nested
        ++ (t.live node.shape.companion).flatMap (fun c => (t.objectEntry nesting c).items)
        ++ (t.live node.shape.holder).flatMap fun c =>
          (t.anonymousClass t.contents c).items) := by
  obtain ⟨shape, hshape⟩ := hnamed
  have hcompanion : ObjectEntry.itemsOf? ((t.live shape.companion.toList).head?.map
      (t.objectEntry nesting))
        = (t.live shape.companion.toList).flatMap fun c => (t.objectEntry nesting c).items := by
    rw [ObjectEntry.itemsOf?_eq_flatMap, ← live_head?, ← List.flatMap_map]
    cases (t.live shape.companion.toList).head? <;> rfl
  have hholder : AnonymousClass.itemsOf? ((t.live shape.defaultImpls.toList).head?.map
      (t.anonymousClass t.contents))
        = (t.live shape.defaultImpls.toList).flatMap fun c =>
          (t.anonymousClass t.contents c).items := by
    rw [AnonymousClass.itemsOf?_eq_flatMap, ← live_head?, ← List.flatMap_map]
    cases (t.live shape.defaultImpls.toList).head? <;> rfl
  simp only [classEntry, hshape, ClassEntry.items, ClassNode.item, nestedItems,
    ClassShape.nested, ClassShape.companion, ClassShape.holder, hcompanion, hholder,
    List.append_assoc]

/-- The entry of a class shows the class and those in its slots, and what is nested in them. -/
theorem PlacesClasses.entryItems_eq (h : t.PlacesClasses) {c : ClassId} {node : ClassNode}
    (hnode : t.class? c = some node) (hnamed : node.shape.IsNamed)
    (hnil : nestedItems nesting [] = []) :
    t.entryItems nesting c = (t.withSlots c).flatMap fun e =>
      t.listedItems e ++ nestedItems nesting (t.nestedOf e) := by
  have howner : node ∈ t.classes := List.mem_of_getElem? hnode
  have hlisted : t.listedItems c = node.item :: (t.memberEntries t.contents node).items := by
    simp [listedItems, hnode]
  have hnested : t.nestedOf c = node.shape.nested := by simp [nestedOf, hnode]
  rw [entryItems, hnode, Option.toList_some, List.flatMap_singleton, withSlots]
  split
  · rw [objectEntry_items hnamed, List.flatMap_singleton, hlisted, hnested, List.cons_append]
  · rw [classEntry_items hnamed, live_flatMap, live_flatMap, List.flatMap_cons, hlisted, hnested,
      List.filter_append, List.flatMap_append]
    have hcompanion : ((node.shape.companion.filter t.isLive).flatMap fun e =>
        (t.class? e).toList.flatMap fun n => (t.objectEntry nesting n).items)
          = ((t.companionOf c).filter t.isLive).flatMap fun e =>
            t.listedItems e ++ nestedItems nesting (t.nestedOf e) := by
      rw [companionOf, hnode, Option.toList_some, List.flatMap_singleton]
      refine List.flatMap_congr fun e he => ?_
      cases hclass : t.class? e with
      | none => simp [listedItems, nestedOf, hclass, hnil]
      | some n =>
        have hn : n.shape.IsNamed := h.nested node howner e
          (List.mem_append_right _ (List.mem_of_mem_filter he)) n hclass
        rw [Option.toList_some, List.flatMap_singleton, objectEntry_items hn]
        simp [listedItems, nestedOf, hclass]
    have hholder : ((node.shape.holder.filter t.isLive).flatMap fun e =>
        (t.class? e).toList.flatMap fun n => (t.anonymousClass t.contents n).items)
          = ((t.holderOf c).filter t.isLive).flatMap fun e =>
            t.listedItems e ++ nestedItems nesting (t.nestedOf e) := by
      rw [holderOf, hnode, Option.toList_some, List.flatMap_singleton]
      refine List.flatMap_congr fun e he => ?_
      cases hclass : t.class? e with
      | none => simp [listedItems, nestedOf, hclass, hnil]
      | some n =>
        have hn : n.shape = .defaultImpls :=
          h.holder node howner e (List.mem_of_mem_filter he) n hclass
        simp [listedItems, nestedOf, hclass, hn, ClassShape.nested, hnil, anonymousClass,
          AnonymousClass.items, ClassNode.item]
    rw [hcompanion, hholder]
    simp only [List.append_assoc, List.cons_append]

/-- A walk that may not go deeper shows nothing of nested classes. -/
theorem nestedItems_zero (ids : List ClassId) : nestedItems (t.nestedWithin 0) ids = [] := rfl

/-- No nested classes show nothing. -/
theorem nestedItems_nil (depth : Nat) : nestedItems (t.nestedWithin depth) [] = [] := by
  cases depth with
  | zero => rfl
  | succ depth => rfl

/-- Nested classes that stand in no slot are told apart by whether they are objects. -/
theorem nestedItems_succ (depth : Nat) {ids : List ClassId}
    (hids : ∀ c ∈ ids, t.shownAsObject c = (t.class? c).any ClassNode.isObject) :
    (nestedItems (t.nestedWithin (depth + 1)) ids).Perm
      ((ids.filter t.isLive).flatMap (t.entryItems (t.nestedWithin depth))) := by
  have hentry : (t.live ids).flatMap (fun node =>
        if node.isObject then (t.objectEntry (t.nestedWithin depth) node).items
        else (t.classEntry (t.nestedWithin depth) node).items)
      = (ids.filter t.isLive).flatMap (t.entryItems (t.nestedWithin depth)) := by
    rw [live_flatMap]
    refine List.flatMap_congr fun c hc => ?_
    have hobject := hids c (List.mem_of_mem_filter hc)
    cases hclass : t.class? c with
    | none => simp [entryItems, hclass]
    | some node =>
      have heq : t.shownAsObject c = node.isObject := by simpa [hclass] using hobject
      simp [entryItems, hclass, heq]
  rw [← hentry]
  simp only [nestedItems, nestedWithin, List.partition_eq_filter_filter,
    ClassEntry.itemsOf_eq_flatMap, ObjectEntry.itemsOf_eq_flatMap, List.flatMap_map]
  induction t.live ids with
  | nil => exact List.Perm.refl _
  | cons node rest ih =>
    cases hobject : node.isObject with
    | true =>
      simp only [List.filter_cons, hobject, if_true, Bool.not_true, Bool.false_eq_true, if_false,
        List.flatMap_cons, Function.comp_apply] at ih ⊢
      exact (List.perm_append_comm_assoc _ _ _).trans (ih.append_left _)
    | false =>
      simp only [List.filter_cons, hobject, if_true, Bool.not_false, Bool.false_eq_true, if_false,
        List.flatMap_cons, Function.comp_apply] at ih ⊢
      rw [List.append_assoc]
      exact ih.append_left _

end LineAtlas.SourceTree
