import LineAtlas.Proofs.Tree.Conservation
import LineAtlas.Proofs.Tree.SameHomes

/-!
# Compositions of units in another order

Class files arrive in no particular order. Whatever the order, the tree of a source file is the
same but for the positions of its nodes and the order of classes in their places, and the same
goes wrong. The order of units does not matter while they are added, nor that of holders while
they look for their interfaces. After that every class has a home, which does not depend on the
other classes that look for theirs.
-/

namespace LineAtlas

namespace Draft

open ResolvedUnit

variable {d d' e e' f f' : Draft} {units kept units' kept' : List ResolvedUnit}
  {rejected rejected' : List String} {ρ : Equiv.Perm FunctionId} {κ : Equiv.Perm ClassId}
  {policy : AccountingPolicy}

namespace Prepared

/-- Kept units with different declared names have classes with different ones. -/
theorem declaredOnce (h : Prepared d units kept rejected)
    (hdeclared : (kept.filterMap ResolvedUnit.declaredName?).Nodup) : DeclaredOnce d := by
  intro c _ o _ name hc ho
  rw [h.declaredName?_eq] at hc ho
  exact Lists.eq_of_nodup_filterMap (h.filterMap_nodup hdeclared) hc ho

/-- The same classes wait for their places. -/
theorem waiting_map (h : Prepared d units kept rejected) (h' : Prepared d' units' kept' rejected')
    (hc : Corresponds ρ κ d d') : (waiting d').Perm ((waiting d).map κ) := by
  refine h'.waiting_perm.trans ?_
  refine (hc.localClasses.append hc.named).trans ?_
  rw [← List.map_append]
  exact (h.waiting_perm.map κ).symm

/-- A class failed if the failures name it. -/
theorem isFailed_iff (h : Prepared d units kept []) (hkeeps : Keeps d f) (c : ClassId) :
    f.tree.isFailed c = true ↔ ∃ name, d.nameAt? c = some name ∧ name ∈ namesOf f.failures := by
  obtain ⟨others, hholds, hothers⟩ := h.holds
  have hreports := hkeeps.reports others hholds.failures
  have hname {i : ClassId} {node : ClassNode} (hnode : f.tree.class? i = some node) :
      d.nameAt? i = some node.jvmName := by
    rw [nameAt?, ← hkeeps.class?_map ClassNode.jvmName (fun _ => rfl) i, hnode, Option.map_some]
  constructor
  · intro hfailed
    rw [SourceTree.isFailed, Option.any_eq_true] at hfailed
    obtain ⟨node, hnode, hfailed⟩ := hfailed
    exact ⟨node.jvmName, hname hnode,
      (hreports _).mpr (Or.inr ⟨node, List.mem_of_getElem? hnode, hfailed, rfl⟩)⟩
  · rintro ⟨name, hc, hmem⟩
    rcases (hreports name).mp hmem with hother | ⟨node, hnode, hfailed, rfl⟩
    · obtain ⟨u, hu, hnot, huname⟩ := ((hothers name).mp hother).resolve_left List.not_mem_nil
      obtain ⟨node, hnode, rfl⟩ := Option.map_eq_some_iff.mp hc
      obtain ⟨v, hv, hstands⟩ := h.laid.exists_unit hnode
      have hsame := eq_of_names_nodup h.names hu (h.mem_kept hv) huname hstands.jvmName
      exact absurd (List.mem_of_getElem? hv) (hsame ▸ hnot)
    · obtain ⟨i, hi⟩ := List.getElem?_of_mem hnode
      have hclass : f.tree.class? i = some node := hi
      rw [eq_of_nameAt? h.names_nodup hc (hname hclass), SourceTree.isFailed, hclass]
      exact hfailed

end Prepared

/-- Two drafts that correspond to each other before their classes are put into their homes. -/
structure SettleAlike (ρ : Equiv.Perm FunctionId) (κ : Equiv.Perm ClassId) (d d' e e' : Draft) :
    Prop where
  /-- Before, they correspond. -/
  corresponds : Corresponds ρ κ d d'
  /-- The one draft is ready. -/
  prepared : ∃ units kept, Prepared d units kept []
  /-- The other one is ready. -/
  prepared' : ∃ units kept, Prepared d' units kept []
  /-- No declared name comes twice. -/
  once : DeclaredOnce d
  /-- Classes are put into their homes. -/
  settles : Settles d.home? d.blame? d e (Prepared.waiting d)
  /-- So they are in the other draft. -/
  settles' : Settles d'.home? d'.blame? d' e' (Prepared.waiting d')

namespace SettleAlike

/-- While classes are settled their names stay different. -/
theorem names_nodup (h : SettleAlike ρ κ d d' e e') :
    (d'.tree.classes.map ClassNode.jvmName).Nodup := by
  obtain ⟨units, kept, hprepared⟩ := h.prepared'
  exact hprepared.names_nodup

/-- The same classes are in every place. -/
theorem slot_perm (h : SettleAlike ρ κ d d' e e') (s : Slot) :
    (e'.tree.slot (s.rename ρ κ)).Perm ((e.tree.slot s).map κ) := by
  obtain ⟨units, kept, hprepared⟩ := h.prepared
  obtain ⟨units', kept', hprepared'⟩ := h.prepared'
  have hwaiting := hprepared.waiting_map hprepared' h.corresponds
  rw [hprepared.slot_settled h.settles, hprepared'.slot_settled h.settles']
  refine (hwaiting.filter _).trans (List.Perm.of_eq ?_)
  rw [List.filter_map]
  refine congrArg (List.map κ) (List.filter_congr fun c _ => ?_)
  rw [Function.comp_apply, h.corresponds.home? h.once h.names_nodup, Bool.eq_iff_iff, beq_iff_eq,
    beq_iff_eq, ← Option.map_some, (Option.map_injective (Slot.rename_inj ρ κ)).eq_iff]

/-- The same classes were left without a place. -/
theorem failures_perm (h : SettleAlike ρ κ d d' e e') : e'.failures.Perm e.failures := by
  obtain ⟨units, kept, hprepared⟩ := h.prepared
  obtain ⟨units', kept', hprepared'⟩ := h.prepared'
  rw [h.settles.blamed, h.settles'.blamed]
  refine h.corresponds.failures.append ?_
  refine ((hprepared.waiting_map hprepared' h.corresponds).filterMap _).trans (List.Perm.of_eq ?_)
  rw [List.filterMap_map]
  exact List.filterMap_congr fun c _ => h.corresponds.blame? h.once h.names_nodup c

/-- A class that is nested in another one has a name of its own. -/
theorem mem_named_of_mem_nested (h : SettleAlike ρ κ d d' e e') {c o : ClassId}
    (hc : c ∈ e.tree.nestedOf o) : c ∈ d.named := by
  obtain ⟨units, kept, hprepared⟩ := h.prepared
  obtain ⟨u, v, hu, -⟩ := hprepared.mem_slot_nested.mp
    ((hprepared.mem_slot h.settles (s := .nested o)).mp hc)
  exact hprepared.mem_named.mpr ⟨u, hu⟩

/-- A class has the same companion object. -/
theorem chosen? (h : SettleAlike ρ κ d d' e e') (o : ClassId) :
    e'.chosen? (κ o) = (e.chosen? o).map κ := by
  have hkeeps := h.settles.keeps
  have hkeeps' := h.settles'.keeps
  have hexpected : e'.expected? (κ o) = e.expected? o := by
    rw [hkeeps'.expected?, h.corresponds.expected?, hkeeps.expected?]
  rw [chosen?_eq_find?, chosen?_eq_find?, hexpected]
  cases e.expected? o with
  | none => rfl
  | some name =>
    refine Lists.find?_perm_map (h.slot_perm (.nested o)) (fun c _ => ?_)
      fun a ha b hb haname hbname => ?_
    · rw [hkeeps'.declaredName?, h.corresponds.declaredName?, hkeeps.declaredName?]
    · rw [hkeeps.declaredName?] at haname hbname
      exact h.once a (h.mem_named_of_mem_nested ha) b (h.mem_named_of_mem_nested hb) name
        (eq_of_beq haname) (eq_of_beq hbname)

/-- The same is reported of a class because of its companion object. -/
theorem companionBlame? (h : SettleAlike ρ κ d d' e e') (policy : AccountingPolicy)
    (o : ClassId) : e'.companionBlame? policy (κ o) = e.companionBlame? policy o := by
  have hkeeps := h.settles.keeps
  have hkeeps' := h.settles'.keeps
  have hfault : e'.companionFault? policy (κ o) = e.companionFault? policy o := by
    rw [companionFault?, companionFault?, hkeeps'.expected?, h.corresponds.expected?,
      hkeeps.expected?, h.chosen?]
    refine congrArg (Option.bind _) (funext fun name => ?_)
    cases e.chosen? o with
    | none => rfl
    | some c =>
      dsimp only [Option.map_some]
      rw [hkeeps'.forwarderFault?, h.corresponds.forwarderFault?, hkeeps.forwarderFault?]
  rw [Draft.companionBlame?, Draft.companionBlame?, hfault]
  cases hnode : d.tree.class? o with
  | none =>
    have hnone := hkeeps.class?_bare o
    have hnone' := hkeeps'.class?_bare (κ o)
    rw [hnode, Option.map_none, Option.map_eq_none_iff] at hnone
    rw [h.corresponds.tree.class?_eq_none hnode, Option.map_none, Option.map_eq_none_iff] at hnone'
    rw [hnone, hnone']
    rfl
  | some node =>
    obtain ⟨node', hnode', hbare⟩ := h.corresponds.tree.exists_class hnode
    obtain ⟨new, hnew, -⟩ := hkeeps.exists_class hnode
    obtain ⟨new', hnew', -⟩ := hkeeps'.exists_class hnode'
    rw [hnew, hnew', Option.bind_some, Option.bind_some]
    refine Option.map_congr fun fault _ => ?_
    rw [hkeeps'.failureOf hnode' hnew', h.corresponds.failureOf hbare, hkeeps.failureOf hnode hnew]

end SettleAlike

/-- Two drafts that correspond to each other before their classes are put into their homes and
their companion objects into their slots. -/
structure MoveAlike (policy : AccountingPolicy) (ρ : Equiv.Perm FunctionId)
    (κ : Equiv.Perm ClassId) (d d' e e' f f' : Draft) : Prop
    extends SettleAlike ρ κ d d' e e' where
  /-- Companion objects move. -/
  moves : Moves policy e f d.named
  /-- So they do in the other draft. -/
  moves' : Moves policy e' f' d'.named

namespace MoveAlike

/-- Until companions have moved, the first draft keeps what classes are. -/
theorem keeps (h : MoveAlike policy ρ κ d d' e e' f f') : Keeps d f :=
  h.settles.keeps.trans h.moves.keeps

/-- Until companions have moved, the second draft keeps what classes are. -/
theorem keeps' (h : MoveAlike policy ρ κ d d' e e' f f') : Keeps d' f' :=
  h.settles'.keeps.trans h.moves'.keeps

/-- The same went wrong. -/
theorem failures_perm (h : MoveAlike policy ρ κ d d' e e' f f') :
    f'.failures.Perm f.failures := by
  rw [h.moves.blamed, h.moves'.blamed]
  refine h.toSettleAlike.failures_perm.append ?_
  refine (h.corresponds.named.filterMap _).trans (List.Perm.of_eq ?_)
  rw [List.filterMap_map]
  exact List.filterMap_congr fun o _ => h.toSettleAlike.companionBlame? policy o

/-- The same classes failed. -/
theorem isFailed (h : MoveAlike policy ρ κ d d' e e' f f') (c : ClassId) :
    f'.tree.isFailed (κ c) = f.tree.isFailed c := by
  obtain ⟨units, kept, hprepared⟩ := h.prepared
  obtain ⟨units', kept', hprepared'⟩ := h.prepared'
  have hnames (name : String) : name ∈ namesOf f'.failures ↔ name ∈ namesOf f.failures :=
    (h.failures_perm.filterMap _).mem_iff
  rw [Bool.eq_iff_iff, hprepared.isFailed_iff h.keeps, hprepared'.isFailed_iff h.keeps',
    h.corresponds.nameAt?]
  simp only [hnames]

/-- Nested classes are at corresponding positions, in whatever order. -/
theorem nestedOf_perm (h : MoveAlike policy ρ κ d d' e e' f f') (o : ClassId) :
    (f'.tree.nestedOf (κ o)).Perm ((f.tree.nestedOf o).map κ) := by
  obtain ⟨units, kept, hprepared⟩ := h.prepared
  obtain ⟨units', kept', hprepared'⟩ := h.prepared'
  have hslot : (e'.tree.nestedOf (κ o)).Perm ((e.tree.nestedOf o).map κ) :=
    h.slot_perm (.nested o)
  rw [hprepared.nestedOf_moved h.settles h.moves, hprepared'.nestedOf_moved h.settles' h.moves',
    remaining, remaining, h.chosen?]
  cases e.chosen? o with
  | none => exact hslot
  | some c =>
    dsimp only [Option.map_some]
    rw [List.map_erase κ.injective]
    exact hslot.erase _

/-- Companions are at corresponding positions. -/
theorem companionOf (h : MoveAlike policy ρ κ d d' e e' f f') (o : ClassId) :
    f'.tree.companionOf (κ o) = (f.tree.companionOf o).map κ := by
  obtain ⟨units, kept, hprepared⟩ := h.prepared
  obtain ⟨units', kept', hprepared'⟩ := h.prepared'
  rw [hprepared.companionOf_moved h.settles h.moves,
    hprepared'.companionOf_moved h.settles' h.moves', h.chosen?, Option.toList_map]

/-- The finished trees correspond. -/
theorem tree (h : MoveAlike policy ρ κ d d' e e' f f') : f.tree.Corresponds ρ κ f'.tree where
  path := by rw [h.keeps'.path, h.corresponds.tree.path, h.keeps.path]
  functions := fun g => by
    rw [h.keeps'.function?_bare, h.corresponds.tree.functions]
    exact (h.keeps.function?_map (fun node => (node.rename ρ).bare) (fun _ => rfl) g).symm
  classes := fun c => by
    rw [h.keeps'.class?_bare, h.corresponds.tree.classes]
    refine (h.keeps.class?_map (fun node => (node.rename ρ).bare) (fun node => ?_) c).symm
    rw [ClassNode.rename_bare, ClassNode.rename_bare]
    cases hshape : node.shape <;> simp [ClassNode.bare, ClassShape.bare, hshape]
  failed := h.isFailed
  slots := fun s => by
    cases s with
    | topLevel =>
      have hslot := h.slot_perm .topLevel
      change f'.tree.topLevel.Perm (f.tree.topLevel.map κ)
      rw [h.moves.topLevel, h.moves'.topLevel]
      exact hslot
    | nested o => exact h.nestedOf_perm o
    | body g =>
      have hslot := h.slot_perm (.body g)
      change (f'.tree.classesOf (ρ g)).Perm ((f.tree.classesOf g).map κ)
      rw [Prepared.classesOf_moved h.moves, Prepared.classesOf_moved h.moves']
      exact hslot
  companion := h.companionOf
  holder := fun o => by
    rw [Prepared.holderOf_moved h.settles h.moves, Prepared.holderOf_moved h.settles' h.moves',
      h.corresponds.tree.holder]
  facades := by
    rw [h.keeps.facades, h.keeps'.facades]
    exact h.corresponds.tree.facades

end MoveAlike

/-- After all units are added, every class has a source. -/
theorem Awaits.hasSources {units : List (String × ResolvedUnit)} (h : Awaits d units) :
    HasSources (units.forM (fun unit => add unit.1 unit.2) d).2 := by
  induction units generalizing d with
  | nil => exact h.sources
  | cons unit rest ih => exact ih h.next

/-- Where units have different names and holders are for different interfaces, the draft is ready
for the holders. -/
theorem Added.awaitsHolders (h : Added d kept rejected) (hsources : HasSources d)
    (hnames : (kept.filterMap jvmName?).Nodup)
    (hinterfaces : (kept.filterMap interfaceName?).Nodup) : AwaitsHolders d d.holders where
  sources := hsources
  holds := ⟨_, _, h.holds, h.holdersFit⟩
  names := fun _ _ _ _ _ hc ho => by
    refine eq_of_nameAt? (h.holds.laid.names_nodup ?_) hc ho
    exact (List.filter_sublist.filterMap _).nodup hnames
  nodup := by
    have hholders : d.holders.map (fun holder => holder.2.interfaceName)
        = (kept.filter isHolder).filterMap interfaceName? := by
      rw [← h.holders, List.filterMap_map, ← List.filterMap_eq_map]
      rfl
    rw [hholders]
    exact (List.filter_sublist.filterMap _).nodup hinterfaces

end Draft

namespace SourceTree

open Draft ResolvedUnit

/-- Units with different names may be added in any order: the trees correspond to each other, and
the same goes wrong. -/
theorem compose_perm (path : String) (policy : AccountingPolicy)
    {added added' : List (String × ResolvedUnit)} (hperm : added.Perm added')
    (hresolved : ∀ u ∈ added.map Prod.snd, u.IsResolved)
    (hnames : ((added.map Prod.snd).filterMap jvmName?).Nodup)
    (hdeclared : ((added.map Prod.snd).filterMap ResolvedUnit.declaredName?).Nodup) :
    ∃ (ρ : Equiv.Perm FunctionId) (κ : Equiv.Perm ClassId),
      (compose path policy added).tree.Corresponds ρ κ (compose path policy added').tree ∧
        (compose path policy added').failures.Perm (compose path policy added).failures := by
  have hready : Awaits (empty path) added :=
    ⟨rfl, ⟨_, _, Added.empty path⟩, hnames, by simp [Draft.empty]⟩
  have hprepare (added : List (String × ResolvedUnit)) (hready : Awaits (empty path) added)
      (hresolved : ∀ u ∈ added.map Prod.snd, u.IsResolved) :
      ∃ d kept, d = (added.forM (fun unit => add unit.1 unit.2) (empty path)).2 ∧
        kept = (added.map Prod.snd).filter (·.jvmName?.isSome) ∧
        AwaitsHolders d d.holders ∧ ∃ units, Prepared (placeHolders d).2 units kept [] := by
    have hadded : Added (added.forM (fun unit => add unit.1 unit.2) (empty path)).2
        (accepted added) (rejected added) := (Added.empty path).all added
    obtain ⟨haccepted, hrejected⟩ := accepted_eq_of_nodup hready.nodup
    have hkept := accepted_names_nodup added
    rw [haccepted, hrejected] at hadded
    rw [haccepted] at hkept
    refine ⟨_, _, rfl, rfl, hadded.awaitsHolders hready.hasSources hkept ?_, hadded.prepared hkept⟩
    exact interfaces_nodup hkept fun u hu => (hresolved u (List.mem_of_mem_filter hu)).fitsKind
  obtain ⟨d, kept, hd, hkept, hawaits, units, hprepared⟩ := hprepare added hready hresolved
  obtain ⟨d', kept', hd', -, hawaits', units', hprepared'⟩ := hprepare added' (hready.perm hperm)
    fun u hu => hresolved u ((hperm.map Prod.snd).mem_iff.mpr hu)
  have halike : Alike d d' := hd ▸ hd' ▸ addAll_alike hperm hready
  have hholders : d'.holders.Perm d.holders := by
    obtain ⟨ρ, κ, hcorresponds⟩ := halike
    exact hcorresponds.holders
  obtain ⟨ρ, κ, hcorresponds⟩ := placeHolders_alike hawaits (hawaits'.perm hholders) halike
  have honce : DeclaredOnce (placeHolders d).2 := hprepared.declaredOnce
    (hkept ▸ (List.filter_sublist.filterMap _).nodup hdeclared)
  have hmoves : MoveAlike policy ρ κ (placeHolders d).2 (placeHolders d').2 _ _ _ _ :=
    { corresponds := hcorresponds, prepared := ⟨_, _, hprepared⟩, prepared' := ⟨_, _, hprepared'⟩,
      once := honce, settles := hprepared.settles, settles' := hprepared'.settles,
      moves := hprepared.moves hprepared.settles policy,
      moves' := hprepared'.moves hprepared'.settles policy }
  rw [hd, hd'] at hmoves
  exact ⟨ρ, κ, hmoves.tree, hmoves.failures_perm⟩

/-- A companion object may come before its class. -/
theorem compose_perm_companionFirst :
    let added := outerWithCompanion
    let added' := outerWithCompanion.reverse
    added.Perm added' ∧ (∀ u ∈ added.map Prod.snd, u.IsResolved) ∧
      ((added.map Prod.snd).filterMap jvmName?).Nodup ∧
      ((added.map Prod.snd).filterMap ResolvedUnit.declaredName?).Nodup ∧
      ∃ (ρ : Equiv.Perm FunctionId) (κ : Equiv.Perm ClassId),
        (compose "A.kt" .strict added).tree.Corresponds ρ κ
          (compose "A.kt" .strict added').tree ∧
        (compose "A.kt" .strict added').failures.Perm (compose "A.kt" .strict added).failures := by
  intro added added'
  have hperm : added.Perm added' := (List.reverse_perm added).symm
  have hnames : ((added.map Prod.snd).filterMap jvmName?).Nodup := by decide
  have hdeclared : ((added.map Prod.snd).filterMap ResolvedUnit.declaredName?).Nodup := by decide
  exact ⟨hperm, outerWithCompanion_isResolved, hnames, hdeclared,
    compose_perm "A.kt" .strict hperm outerWithCompanion_isResolved hnames hdeclared⟩

end SourceTree

end LineAtlas
