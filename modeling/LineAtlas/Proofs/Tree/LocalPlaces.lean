import LineAtlas.Proofs.StableSort
import LineAtlas.Proofs.Tree.Listing
import LineAtlas.Proofs.Tree.SoleHelpers

/-!
# The places of local functions

When all local functions of a class are placed, each is below the right function. It is shown there
by the rest of its name, as a lambda, or as the helper of the local function around it.
-/

namespace LineAtlas

/-- What the later placement of functions and classes leaves as it is: the kind of a function, its
method and its helper. -/
def FunctionNode.core (f : FunctionNode) : FunctionKind × Body × Option FunctionId :=
  (f.kind, f.body, f.defaultValues)

namespace SourceTree

/-- A function is the only one below a local function that can fill in the default arguments of
it. -/
def IsSoleHelper (t : SourceTree) (locals : List FunctionId) (outer id : FunctionId) : Prop :=
  outer ∈ locals ∧ ∃ node name, t.function? outer = some node ∧ node.kind = .localFunction name ∧
    (node.below.filter fun g => (t.function? g).any fun helper =>
      DefaultHelper.isOfFunction helper.body.signature node.body.signature none) = [id]

/-- How a local function is shown below the function around it: as its helper, as a lambda, or by
the rest of its name. What is below it is local, too. -/
def ShowsLocal (t : SourceTree) (locals : List FunctionId) (p : PlacedLocal) (id : FunctionId) :
    Prop :=
  ∃ node outer, t.function? id = some node ∧ t.function? p.outer = some outer ∧
    node.body = p.body ∧ (∀ g ∈ node.below, g ∈ locals) ∧
    ((t.IsSoleHelper locals p.outer id ∧ outer.defaultValues = some id ∧ node.kind = .anonymous) ∨
      (¬ t.IsSoleHelper locals p.outer id ∧ id ∈ outer.locals ∧
        (((∃ base, LocalName.IsLambdaIn p.name base) ∧ node.kind = .anonymous) ∨
          ((∀ base, ¬ LocalName.IsLambdaIn p.name base) ∧
            ∃ rest, LocalKeys.Continues p.key rest p.name ∧ node.kind = .localFunction rest))))

/-- The local functions of a class with some keys are all placed: each is below the function that
its name and its lines tell, among all functions of the class, and shown there. -/
def PlacesLocals (t : SourceTree) (keys : LocalKeys) (locals : List Body) : Prop :=
  (∀ entry ∈ keys, entry.2 < t.functions.length) ∧
  ∃ placed : List (PlacedLocal × FunctionId),
    (placed.map fun p => p.1.body).Perm locals ∧ (placed.map Prod.snd).Nodup ∧
    ∀ p ∈ placed,
      p.1.IsBelow (keys ++ placed.map fun q => (q.1.name, q.2))
        (t.functions.map FunctionNode.body) ∧
      t.ShowsLocal (placed.map Prod.snd) p.1 p.2

variable {t t' : SourceTree} {keys keys' : LocalKeys} {locals locals' : List Body}

/-- Functions of a tree are in a later one, but for the classes in them. -/
theorem exists_bare_of_retains (hretains : Retains FunctionNode.bare t t') {f : FunctionId}
    {node : FunctionNode} (hnode : t.function? f = some node) :
    ∃ node', t'.function? f = some node' ∧ node'.bare = node.bare :=
  Option.map_eq_some_iff.mp (hretains f node.bare (by rw [hnode, Option.map_some]))

/-- Whether a local function is a helper depends on what is below its function only. -/
theorem isSoleHelper_iff_of_retains (hretains : Retains FunctionNode.bare t t')
    {locals : List FunctionId} {outer id : FunctionId}
    (hclosed : ∀ f ∈ locals, ∃ node, t.function? f = some node ∧ ∀ g ∈ node.below, g ∈ locals) :
    t'.IsSoleHelper locals outer id ↔ t.IsSoleHelper locals outer id := by
  refine and_congr_right fun houter => ?_
  obtain ⟨node, hnode, hbelow⟩ := hclosed outer houter
  obtain ⟨node', hnode', hbare⟩ := exists_bare_of_retains hretains hnode
  have hkind : node'.kind = node.kind := (congrArg FunctionNode.kind hbare :)
  have hbody : node'.body = node.body := (congrArg FunctionNode.body hbare :)
  have hsame : node'.below = node.below := (congrArg FunctionNode.below hbare :)
  have hfilter : (node'.below.filter fun g => (t'.function? g).any fun helper =>
        DefaultHelper.isOfFunction helper.body.signature node'.body.signature none)
      = node.below.filter fun g => (t.function? g).any fun helper =>
        DefaultHelper.isOfFunction helper.body.signature node.body.signature none := by
    rw [hsame, hbody]
    refine List.filter_congr fun g hg => ?_
    obtain ⟨helper, hhelper, -⟩ := hclosed g (hbelow g hg)
    obtain ⟨helper', hhelper', hbare'⟩ := exists_bare_of_retains hretains hhelper
    have hbody' : helper'.body = helper.body := (congrArg FunctionNode.body hbare' :)
    rw [hhelper, hhelper', Option.any_some, Option.any_some, hbody']
  constructor
  · rintro ⟨other, name, hother, hlocal, honly⟩
    obtain rfl := Option.some.inj (hnode'.symm.trans hother)
    exact ⟨node, name, hnode, hkind ▸ hlocal, hfilter ▸ honly⟩
  · rintro ⟨other, name, hother, hlocal, honly⟩
    obtain rfl := Option.some.inj (hnode.symm.trans hother)
    exact ⟨node', name, hnode', hkind.trans hlocal, hfilter.trans honly⟩

/-- Local functions stay in their places when other functions are made. -/
theorem PlacesLocals.retains (h : t.PlacesLocals keys locals)
    (hretains : Retains FunctionNode.bare t t') : t'.PlacesLocals keys locals := by
  obtain ⟨hbound, placed, hbodies, hnodup, hplaced⟩ := h
  have hlt {f : FunctionId} (hf : f < t.functions.length) :
      f < t'.functions.length ∧
        (t'.functions.map FunctionNode.body)[f]? = (t.functions.map FunctionNode.body)[f]? := by
    have hnode : t.function? f = some t.functions[f] := List.getElem?_eq_getElem hf
    obtain ⟨node', hnode', hbare⟩ := exists_bare_of_retains hretains hnode
    have hbody : node'.body = t.functions[f].body := (congrArg FunctionNode.body hbare :)
    have hget : t'.functions[f]? = some node' := hnode'
    refine ⟨(List.getElem?_eq_some_iff.mp hget).1, ?_⟩
    rw [List.getElem?_map, List.getElem?_map, hget, List.getElem?_eq_getElem hf, Option.map_some,
      Option.map_some, hbody]
  have hclosed : ∀ f ∈ placed.map Prod.snd, ∃ node, t.function? f = some node ∧
      ∀ g ∈ node.below, g ∈ placed.map Prod.snd := by
    intro f hf
    obtain ⟨p, hp, rfl⟩ := List.mem_map.mp hf
    obtain ⟨node, -, hnode, -, -, hbelow, -⟩ := (hplaced p hp).2
    exact ⟨node, hnode, hbelow⟩
  have hkeys : ∀ entry ∈ keys ++ placed.map fun q => (q.1.name, q.2),
      entry.2 < t.functions.length := by
    intro entry hentry
    rcases List.mem_append.mp hentry with hentry | hentry
    · exact hbound entry hentry
    · obtain ⟨p, hp, rfl⟩ := List.mem_map.mp hentry
      obtain ⟨node, hnode, -⟩ := hclosed p.2 (List.mem_map_of_mem hp)
      exact (List.getElem?_eq_some_iff.mp hnode).1
  refine ⟨fun entry hentry => (hlt (hbound entry hentry)).1, placed, hbodies, hnodup,
    fun p hp => ?_⟩
  obtain ⟨hbelow, node, outer, hnode, houter, hbody, hclosed', hshown⟩ := hplaced p hp
  refine ⟨hbelow.congr fun entry hentry => (hlt (hkeys entry hentry)).2, ?_⟩
  obtain ⟨node', hnode', hbare⟩ := exists_bare_of_retains hretains hnode
  obtain ⟨outer', houter', hbareOuter⟩ := exists_bare_of_retains hretains houter
  have hkind : node'.kind = node.kind := (congrArg FunctionNode.kind hbare :)
  have hvalues : outer'.defaultValues = outer.defaultValues :=
    (congrArg FunctionNode.defaultValues hbareOuter :)
  have hlocals : outer'.locals = outer.locals := (congrArg FunctionNode.locals hbareOuter :)
  have hbody' : node'.body = node.body := (congrArg FunctionNode.body hbare :)
  have hsame : node'.below = node.below := (congrArg FunctionNode.below hbare :)
  refine ⟨node', outer', hnode', houter', hbody'.trans hbody, hsame ▸ hclosed', ?_⟩
  rw [isSoleHelper_iff_of_retains hretains hclosed, hkind, hvalues, hlocals]
  exact hshown

/-- The places do not depend on the order of the keys, nor on that of the local functions. -/
theorem PlacesLocals.perm (h : t.PlacesLocals keys locals) (hkeys : keys.Perm keys')
    (hlocals : locals.Perm locals') : t.PlacesLocals keys' locals' := by
  obtain ⟨hbound, placed, hbodies, hnodup, hplaced⟩ := h
  exact ⟨fun entry hentry => hbound entry (hkeys.mem_iff.mpr hentry), placed,
    hbodies.trans hlocals, hnodup, fun p hp =>
      ⟨(hplaced p hp).1.perm (hkeys.append_right _), (hplaced p hp).2⟩⟩

end SourceTree

namespace Draft

open SourceTree

variable {d : Draft} {keys : LocalKeys} {before : List FunctionNode} {placed : List PlacedLocal}
  {taken : List (FunctionId × FunctionId)}

/-- A local function is shown by the rest of its name, unless it is a lambda. -/
theorem localKind_shows {names : List String} {p : PlacedLocal}
    (h : LocalKeys.IsOuterKey names p.name p.key) :
    ((∃ base, LocalName.IsLambdaIn p.name base) ∧ localKind p.name p.key = .anonymous) ∨
      ((∀ base, ¬ LocalName.IsLambdaIn p.name base) ∧
        ∃ rest, LocalKeys.Continues p.key rest p.name ∧
          localKind p.name p.key = .localFunction rest) := by
  by_cases hlambda : LocalName.isLambda p.name = true
  · exact Or.inl ⟨LocalName.isLambda_iff.mp hlambda, by rw [localKind, if_pos hlambda]⟩
  · have hnone (base : String) : ¬ LocalName.IsLambdaIn p.name base := fun hbase =>
      hlambda (LocalName.isLambda_iff.mpr ⟨base, hbase⟩)
    rcases h with ⟨hbase, -⟩ | ⟨-, hlongest⟩
    · exact absurd hbase (hnone _)
    · obtain ⟨rest, hcontinues⟩ := hlongest.continues
      refine Or.inr ⟨hnone, rest, hcontinues, ?_⟩
      rw [localKind, if_neg hlambda, Text.dropHead?_eq_some_iff.mpr hcontinues.1]
      rfl

/-- A draft after local functions are placed. -/
def withLocals (d : Draft) (placed : List PlacedLocal) : Draft :=
  d.withFunctions (hang d.tree.functions placed)

/-- A draft after local functions are placed and some of them took helpers. -/
def withHelpers (d : Draft) (placed : List PlacedLocal) (taken : List (FunctionId × FunctionId)) :
    Draft :=
  d.withFunctions (takeHelpers taken (hang d.tree.functions placed))

/-- Local functions are placed below functions with keys, and took the helpers that they can. -/
structure Nests (d : Draft) (keys : LocalKeys) (placed : List PlacedLocal)
    (taken : List (FunctionId × FunctionId)) : Prop where
  /-- Keys stand for functions that were there before. -/
  bound : ∀ entry ∈ keys, entry.2 < d.tree.functions.length
  /-- Each is below the function that was found. -/
  hangs : Hangs d keys placed
  /-- Helpers are taken by new functions. -/
  took : Took (d.withLocals placed).tree d.tree.functions.length
    (d.tree.functions.length + placed.length) taken

/-- Placing local functions leaves the others as they are, but for what is below them. -/
theorem withLocals_retains (d : Draft) (placed : List PlacedLocal) :
    Retains FunctionNode.core d.tree (d.withLocals placed).tree := by
  intro f core hcore
  obtain ⟨node, hnode, rfl⟩ := Option.map_eq_some_iff.mp hcore
  have hget : d.tree.functions[f]? = some node := hnode
  have hnew : (d.withLocals placed).tree.function? f
      = ((d.tree.functions ++ placed.map PlacedLocal.node)[f]?).map fun node =>
        { node with locals := node.locals
            ++ PlacedLocal.below d.tree.functions.length placed f } :=
    getElem?_hang d.tree.functions placed f
  rw [hnew, List.getElem?_append_left (List.getElem?_eq_some_iff.mp hget).1, hget]
  rfl

/-- What can fill in the default arguments of a new function is a local one below it. -/
theorem mem_below_of_onlyHelper? {id helper : FunctionId} (hid : d.tree.functions.length ≤ id)
    (honly : onlyHelper? (d.withLocals placed).tree id = some helper) :
    helper ∈ PlacedLocal.below d.tree.functions.length placed id := by
  obtain ⟨node, hnode, hhelpers⟩ := onlyHelper?_eq_some_iff.mp honly
  obtain ⟨p, hp⟩ := exists_of_getElem?_hang hid hnode
  obtain rfl : { p.node with
      locals := PlacedLocal.below d.tree.functions.length placed id } = node :=
    Option.some.inj ((getElem?_hang_of_mem hp).symm.trans hnode)
  have hhelper : helper ∈ localHelpers (d.withLocals placed).tree
      { p.node with locals := PlacedLocal.below d.tree.functions.length placed id } := by
    rw [hhelpers]
    exact List.mem_cons_self
  exact List.mem_of_mem_filter hhelper

/-- So it comes after it. -/
theorem Hangs.lt_of_onlyHelper? (h : Hangs d keys placed)
    (hkeys : ∀ entry ∈ keys, entry.2 < d.tree.functions.length) {id helper : FunctionId}
    (hid : d.tree.functions.length ≤ id)
    (honly : onlyHelper? (d.withLocals placed).tree id = some helper) : id < helper := by
  obtain ⟨q, hq, houter⟩ := PlacedLocal.mem_below.mp (mem_below_of_onlyHelper? hid honly)
  exact houter ▸ h.outer_lt hkeys hq

namespace Nests

/-- Helpers are taken by new functions among new functions. -/
theorem retains (h : Nests d keys placed taken) :
    Retains FunctionNode.core d.tree (d.withHelpers placed taken).tree := by
  intro f core hcore
  obtain ⟨old, hold, -⟩ := Option.map_eq_some_iff.mp hcore
  have hlt : f < d.tree.functions.length := (List.getElem?_eq_some_iff.mp hold).1
  obtain ⟨node, hnode, rfl⟩ := Option.map_eq_some_iff.mp (withLocals_retains d placed f core hcore)
  have hfst : f ∉ taken.map Prod.fst := by
    intro hmem
    obtain ⟨⟨_, helper⟩, hentry, rfl⟩ := List.mem_map.mp hmem
    exact absurd hlt ((h.took _ helper).mp hentry).1.1.not_gt
  have hsnd : f ∉ taken.map Prod.snd := by
    intro hmem
    obtain ⟨⟨outer, _⟩, hentry, rfl⟩ := List.mem_map.mp hmem
    obtain ⟨⟨hle, -⟩, -, honly⟩ := (h.took outer _).mp hentry
    obtain ⟨q, hq, -⟩ := PlacedLocal.mem_below.mp (mem_below_of_onlyHelper? hle honly)
    exact absurd hlt (List.mk_mem_zipIdx_iff_le_and_getElem?_sub.mp hq).1.not_gt
  refine (congrArg (Option.map FunctionNode.core)
    ((getElem?_takeHelpers _ _ f).trans (congrArg _ hnode))).trans ?_
  rw [Option.map_some, Option.map_some, FunctionNode.core, lookup_eq_none hfst, if_neg hsnd]
  rfl

/-- What is below a new function stays below it when helpers are taken: a helper is still one of
the functions below. -/
theorem below_perm (h : Nests d keys placed taken) {id : FunctionId}
    (hid : d.tree.functions.length ≤ id) {node : FunctionNode}
    (hnode : (d.withLocals placed).tree.function? id = some node) : ∃ node',
      (d.withHelpers placed taken).tree.function? id = some node' ∧ node'.body = node.body ∧
        node'.below.Perm node.locals := by
  obtain ⟨p, hp⟩ := exists_of_getElem?_hang hid hnode
  obtain rfl : { p.node with
      locals := PlacedLocal.below d.tree.functions.length placed id } = node :=
    Option.some.inj ((getElem?_hang_of_mem hp).symm.trans hnode)
  refine ⟨_, (getElem?_takeHelpers _ _ id).trans (congrArg _ hnode), rfl, ?_⟩
  cases hlookup : taken.lookup id with
  | none => exact List.Perm.refl _
  | some helper =>
    have honly := ((h.took id helper).mp (h.took.lookup_eq_some_iff.mp hlookup)).2.2
    exact (List.perm_cons_erase (mem_below_of_onlyHelper? hid honly)).symm

/-- The local functions that are taken are the only helpers of those around them. -/
theorem isSoleHelper_iff (h : Nests d keys placed taken) (outer id : FunctionId) :
    (d.withHelpers placed taken).tree.IsSoleHelper
        ((placed.zipIdx d.tree.functions.length).map Prod.snd) outer id ↔
      (outer, id) ∈ taken := by
  have hnew : outer ∈ (placed.zipIdx d.tree.functions.length).map Prod.snd ↔
      d.tree.functions.length ≤ outer ∧ outer < d.tree.functions.length + placed.length := by
    rw [List.zipIdx_map_snd, List.mem_range'_1]
  rw [h.took outer id, IsSoleHelper, hnew]
  refine and_congr_right fun hrange => ?_
  obtain ⟨node, hnode⟩ : ∃ node, (d.withLocals placed).tree.function? outer = some node := by
    refine ⟨_, List.getElem?_eq_getElem (l := (d.withLocals placed).tree.functions) ?_⟩
    exact hrange.2.trans_eq (length_hang _ _).symm
  obtain ⟨node', hnode', hbody, hperm⟩ := h.below_perm hrange.1 hnode
  have hlocal : isLocalAt (d.withHelpers placed taken).tree.functions outer = true ↔
      ∃ name, node'.kind = .localFunction name := by
    have hget : (d.withHelpers placed taken).tree.functions[outer]? = some node' := hnode'
    rw [isLocalAt, hget]
    exact FunctionKind.isLocal_iff
  have hbodies : (d.withHelpers placed taken).tree.functions.map FunctionNode.body
      = (d.withLocals placed).tree.functions.map FunctionNode.body := map_body_takeHelpers _ _
  have hhelpers : (node'.below.filter fun g =>
      ((d.withHelpers placed taken).tree.function? g).any fun helper =>
        DefaultHelper.isOfFunction helper.body.signature node'.body.signature none).Perm
          (localHelpers (d.withLocals placed).tree node) := by
    rw [localHelpers_eq, ← hbodies, hbody]
    simp only [List.getElem?_map, Option.any_map]
    exact hperm.filter _
  have htakes : isLocalAt (takeHelpers taken (d.withLocals placed).tree.functions) outer = true ∧
      onlyHelper? (d.withLocals placed).tree outer = some id ↔
      (∃ name, node'.kind = .localFunction name) ∧ ∃ node,
        (d.withLocals placed).tree.function? outer = some node ∧
          localHelpers (d.withLocals placed).tree node = [id] :=
    and_congr hlocal onlyHelper?_eq_some_iff
  rw [htakes]
  constructor
  · rintro ⟨other, name, hother, hkind, honly⟩
    obtain rfl := Option.some.inj (hnode'.symm.trans hother)
    rw [honly, List.singleton_perm] at hhelpers
    exact ⟨⟨name, hkind⟩, node, hnode, hhelpers.symm⟩
  · rintro ⟨⟨name, hkind⟩, other, hother, honly⟩
    obtain rfl := Option.some.inj (hnode.symm.trans hother)
    rw [honly, List.perm_singleton] at hhelpers
    exact ⟨node', name, hnode', hkind, hhelpers⟩

/-- A local function is taken by the function around it, if at all. -/
theorem mem_snd_iff (h : Nests d keys placed taken) {p : PlacedLocal} {id : FunctionId}
    (hp : (p, id) ∈ placed.zipIdx d.tree.functions.length) :
    id ∈ taken.map Prod.snd ↔ (p.outer, id) ∈ taken := by
  refine ⟨fun hmem => ?_, fun hmem => List.mem_map_of_mem hmem⟩
  obtain ⟨⟨outer, _⟩, hentry, rfl⟩ := List.mem_map.mp hmem
  obtain ⟨⟨hle, -⟩, -, honly⟩ := (h.took outer _).mp hentry
  rwa [(PlacedLocal.mem_below_iff hp).mp (mem_below_of_onlyHelper? hle honly)]

/-- Every local function is shown below the function around it. -/
theorem showsLocal (h : Nests d keys placed taken) {names : List String} {p : PlacedLocal}
    {id : FunctionId} (hp : (p, id) ∈ placed.zipIdx d.tree.functions.length)
    (hkey : LocalKeys.IsOuterKey names p.name p.key) :
    (d.withHelpers placed taken).tree.ShowsLocal
      ((placed.zipIdx d.tree.functions.length).map Prod.snd) p id := by
  have hsole := h.isSoleHelper_iff p.outer id
  have houter : p.outer < (hang d.tree.functions placed).length := by
    rw [length_hang]
    exact (h.hangs.outer_lt h.bound hp).trans (List.snd_lt_add_of_mem_zipIdx hp)
  obtain ⟨outer, houter⟩ : ∃ outer, (hang d.tree.functions placed)[p.outer]? = some outer :=
    ⟨_, List.getElem?_eq_getElem houter⟩
  have hmem : id ∈ outer.locals := by
    have hget := houter
    rw [getElem?_hang] at hget
    obtain ⟨old, -, rfl⟩ := Option.map_eq_some_iff.mp hget
    exact List.mem_append_right _ ((PlacedLocal.mem_below_iff hp).mpr rfl)
  refine ⟨_, _, (getElem?_takeHelpers _ _ id).trans (congrArg _ (getElem?_hang_of_mem hp)),
    (getElem?_takeHelpers _ _ p.outer).trans (congrArg _ houter), rfl, ?_, ?_⟩
  · obtain ⟨node', hnode', -, hperm⟩ := h.below_perm
      (List.mk_mem_zipIdx_iff_le_and_getElem?_sub.mp hp).1 (getElem?_hang_of_mem hp)
    obtain rfl := Option.some.inj (((getElem?_takeHelpers _ _ id).trans
      (congrArg _ (getElem?_hang_of_mem hp))).symm.trans hnode')
    intro g hg
    obtain ⟨q, hq, -⟩ := PlacedLocal.mem_below.mp (hperm.mem_iff.mp hg)
    exact List.mem_map_of_mem hq
  by_cases htaken : (p.outer, id) ∈ taken
  · refine Or.inl ⟨hsole.mpr htaken, ?_, if_pos ((h.mem_snd_iff hp).mpr htaken)⟩
    dsimp only
    rw [h.took.lookup_eq_some_iff.mpr htaken]
    rfl
  · refine Or.inr ⟨fun hcontra => htaken (hsole.mp hcontra), ?_, ?_⟩
    · dsimp only
      cases hlookup : taken.lookup p.outer with
      | none => exact hmem
      | some helper =>
        have hne : id ≠ helper := by
          rintro rfl
          exact htaken (h.took.lookup_eq_some_iff.mp hlookup)
        exact (List.mem_erase_of_ne hne).mpr hmem
    · dsimp only
      rw [if_neg fun hcontra => htaken ((h.mem_snd_iff hp).mp hcontra)]
      exact localKind_shows hkey

/-- Every local function of a class is below the right function. -/
theorem placesLocals (h : Nests d keys placed taken) {locals : List Body}
    (hbodies : placed.map PlacedLocal.body = byNameLength locals) :
    (d.withHelpers placed taken).tree.PlacesLocals keys locals := by
  have hsorted : placed.Pairwise fun p q => p.name.utf8ByteSize ≤ q.name.utf8ByteSize := by
    have hbytes : (byNameLength locals).Pairwise fun a b =>
        a.signature.name.utf8ByteSize ≤ b.signature.name.utf8ByteSize :=
      StableSort.ascending_mergeSort locals
    rwa [← hbodies, List.pairwise_map] at hbytes
  have hlength : (d.withHelpers placed taken).tree.functions.length
      = d.tree.functions.length + placed.length := by
    rw [← length_hang d.tree.functions placed]
    exact List.length_mapIdx
  have hbelow := h.hangs.isBelow h.bound hsorted
  refine ⟨fun entry hentry => ?_, placed.zipIdx d.tree.functions.length, ?_, ?_, fun p hp => ?_⟩
  · rw [hlength]
    exact (h.bound entry hentry).trans_le (Nat.le_add_right _ _)
  · have hall : (placed.zipIdx d.tree.functions.length).map (fun p => p.1.body)
        = placed.map PlacedLocal.body := by
      have hfst := congrArg (List.map PlacedLocal.body)
        (List.zipIdx_map_fst d.tree.functions.length placed)
      rwa [List.map_map] at hfst
    rw [hall, hbodies]
    exact List.mergeSort_perm _ _
  · rw [List.zipIdx_map_snd]
    exact List.nodup_range'
  · have hp' := hbelow p.1 (List.fst_mem_of_mem_zipIdx hp)
    rw [← map_body_takeHelpers taken] at hp'
    exact ⟨hp', h.showsLocal hp hp'.isOuterKey⟩

end Nests

/-- Placing the local functions of a class ends at one that is below no function, or places them
all. -/
theorem placeLocals_nests (keys : LocalKeys) (locals : List Body)
    (hkeys : ∀ entry ∈ keys, entry.2 < d.tree.functions.length) :
    (∃ body ∈ locals, LocalKeys.IsStray (keys.map Prod.fst ++ locals.map (·.signature.name))
        body.signature.name ∧
      ∃ placed, placeLocals keys locals d = (some body.signature, d.withLocals placed)) ∨
    ∃ placed taken, placeLocals keys locals d = (none, d.withHelpers placed taken) ∧
      Nests d keys placed taken ∧ placed.map PlacedLocal.body = byNameLength locals := by
  obtain ⟨result, placed, hrun, hangs, hids, hstray⟩ :=
    placeEach_hang (byNameLength locals) .nil hkeys
  rw [hang_nil, List.nil_append] at hrun
  rw [List.nil_append] at hangs hstray
  simp only [List.length_nil, Nat.add_zero] at hids
  have hstart : placeEach keys (byNameLength locals) d = (result, d.withLocals placed) := by
    have hempty : keys ++ PlacedLocal.table d.tree.functions.length [] = keys := List.append_nil _
    rwa [hempty] at hrun
  rw [placeLocals, bind_apply, hstart]
  cases result with
  | error signature =>
    obtain ⟨body, rest, hbodies, rfl, hnone⟩ := hstray signature rfl
    have hperm : (placed.map PlacedLocal.body ++ body :: rest).Perm locals :=
      hbodies ▸ List.mergeSort_perm _ _
    have hsorted : (byNameLength locals).Pairwise fun a b =>
        a.signature.name.utf8ByteSize ≤ b.signature.name.utf8ByteSize :=
      StableSort.ascending_mergeSort locals
    have hnames := Hangs.isStray hkeys (hbodies ▸ hsorted) hnone
    refine Or.inl ⟨body, hperm.mem_iff.mp (by simp), ?_, placed, rfl⟩
    refine (LocalKeys.IsStray.congr fun name => ?_).mp hnames
    exact ((hperm.map _).append_left _).mem_iff
  | ok ids =>
    obtain ⟨hbodies, rfl⟩ := hids ids rfl
    have hbegin : Took (d.withLocals placed).tree d.tree.functions.length d.tree.functions.length
        [] := fun id helper => by simp
    obtain ⟨taken, hattach, htook⟩ := attachAll_took placed.length hbegin le_rfl
      fun id helper hid honly => hangs.lt_of_onlyHelper? hkeys hid honly
    refine Or.inr ⟨placed, taken, ?_, ⟨hkeys, hangs, htook⟩, hbodies⟩
    dsimp only
    rw [bind_apply]
    rw [takeHelpers_nil] at hattach
    have hattach' : (List.range' d.tree.functions.length placed.length).forM attachDefaultValues
         (d.withLocals placed) = ((), d.withHelpers placed taken) := hattach
    rw [hattach']
    rfl

end Draft

end LineAtlas
