import LineAtlas.Proofs.Tree.LocalOrder
import LineAtlas.Proofs.Tree.OuterKeys

/-!
# Where local functions hang

Local functions are made in the order in which they are placed, each behind all functions that
there are, and each is noted with the function around it. So the functions after the placement can
be told from those before it and from the places that were found. Since shorter names are placed
first, every function that may be around a local one is there when it is placed: the place that is
found then is also the right one among all functions of the class.
-/

namespace LineAtlas

/-- A local method with its place: below a function with a key. -/
structure PlacedLocal where
  /-- The method. -/
  body : Body
  /-- The key of the function around it. -/
  key : String
  /-- The function around it. -/
  outer : FunctionId

namespace PlacedLocal

/-- The name of the method. -/
def name (p : PlacedLocal) : String := p.body.signature.name

/-- The function that is made for the method. -/
def node (p : PlacedLocal) : FunctionNode :=
  { kind := Draft.localKind p.name p.key, body := p.body }

/-- The keys of local functions that are numbered from a start: the names of their methods. -/
def table (start : Nat) (placed : List PlacedLocal) : LocalKeys :=
  (placed.zipIdx start).map fun p => (p.1.name, p.2)

/-- Those of some local functions, numbered from a start, that are below a given function. -/
def below (start : Nat) (placed : List PlacedLocal) (outer : FunctionId) : List FunctionId :=
  (placed.zipIdx start).filterMap fun p => if p.1.outer = outer then some p.2 else none

/-- The table of keys is filled part by part. -/
theorem table_append (start : Nat) (one two : List PlacedLocal) :
    table start (one ++ two) = table start one ++ table (start + one.length) two := by
  rw [table, List.zipIdx_append, List.map_append]
  rfl

/-- Local functions hang below a function part by part. -/
theorem below_append (start : Nat) (one two : List PlacedLocal) (outer : FunctionId) :
    below start (one ++ two) outer
      = below start one outer ++ below (start + one.length) two outer := by
  rw [below, List.zipIdx_append, List.filterMap_append]
  rfl

/-- The table has the name of each placed function for its position. -/
theorem mem_table {start : Nat} {placed : List PlacedLocal} {key : String} {id : FunctionId} :
    (key, id) ∈ table start placed ↔ ∃ p, (p, id) ∈ placed.zipIdx start ∧ p.name = key := by
  simp [table]

/-- Below a function hang those that were placed there. -/
theorem mem_below {start : Nat} {placed : List PlacedLocal} {outer id : FunctionId} :
    id ∈ below start placed outer ↔ ∃ p, (p, id) ∈ placed.zipIdx start ∧ p.outer = outer := by
  simp [below]

/-- The keys of the table are the names of what was placed. -/
theorem map_fst_table (start : Nat) (placed : List PlacedLocal) :
    (table start placed).map Prod.fst = placed.map name := by
  have hnames : (placed.zipIdx start).map (name ∘ Prod.fst) = placed.map name := by
    rw [← List.map_map, List.zipIdx_map_fst]
  rw [table, List.map_map, ← hnames]
  rfl

/-- A number is given to one local function, which is below one function. -/
theorem mem_below_iff {start : Nat} {placed : List PlacedLocal} {p : PlacedLocal}
    {outer id : FunctionId} (hp : (p, id) ∈ placed.zipIdx start) :
    id ∈ below start placed outer ↔ p.outer = outer := by
  rw [mem_below]
  refine ⟨fun ⟨q, hq, houter⟩ => ?_, fun houter => ⟨p, hp, houter⟩⟩
  have hget := (List.mk_mem_zipIdx_iff_le_and_getElem?_sub.mp hp).2
  rw [(List.mk_mem_zipIdx_iff_le_and_getElem?_sub.mp hq).2] at hget
  rwa [← Option.some.inj hget]

end PlacedLocal

namespace Draft

open PlacedLocal (table below)

/-- Functions after local ones are placed: the new ones follow those before, and each is noted
below the function around it. -/
def hang (before : List FunctionNode) (placed : List PlacedLocal) : List FunctionNode :=
  (before ++ placed.map PlacedLocal.node).mapIdx fun i node =>
    { node with locals := node.locals ++ below before.length placed i }

variable {before : List FunctionNode} {placed : List PlacedLocal}

/-- A function has below it what was placed there, wherever it stands. -/
theorem getElem?_hang (before : List FunctionNode) (placed : List PlacedLocal) (i : Nat) :
    (hang before placed)[i]? = ((before ++ placed.map PlacedLocal.node)[i]?).map fun node =>
      { node with locals := node.locals ++ below before.length placed i } := by
  rw [hang, List.getElem?_mapIdx]

/-- Placing no local functions changes nothing. -/
@[simp]
theorem hang_nil (before : List FunctionNode) : hang before [] = before := by
  refine List.ext_getElem? fun i => ?_
  rw [getElem?_hang, List.map_nil, List.append_nil]
  cases before[i]? <;> simp [below]

/-- Placing local functions adds as many functions. -/
theorem length_hang (before : List FunctionNode) (placed : List PlacedLocal) :
    (hang before placed).length = before.length + placed.length := by
  simp [hang]

/-- Placing local functions adds their methods behind the others. -/
theorem map_body_hang (before : List FunctionNode) (placed : List PlacedLocal) :
    (hang before placed).map FunctionNode.body
      = before.map FunctionNode.body ++ placed.map PlacedLocal.body := by
  have hbodies : (placed.map PlacedLocal.node).map FunctionNode.body
      = placed.map PlacedLocal.body := by
    rw [List.map_map]
    rfl
  refine List.ext_getElem? fun i => ?_
  rw [List.getElem?_map, getElem?_hang, Option.map_map, ← hbodies, ← List.map_append,
    List.getElem?_map]
  rfl

/-- The function that is made for a local one. -/
theorem getElem?_hang_of_mem {p : PlacedLocal} {id : FunctionId}
    (hp : (p, id) ∈ placed.zipIdx before.length) : (hang before placed)[id]?
      = some { p.node with locals := below before.length placed id } := by
  obtain ⟨hle, hget⟩ := List.mk_mem_zipIdx_iff_le_and_getElem?_sub.mp hp
  have hnode : (before ++ placed.map PlacedLocal.node)[id]? = some p.node := by
    rw [List.getElem?_append_right hle, List.getElem?_map, hget, Option.map_some]
  rw [getElem?_hang, hnode]
  rfl

/-- Functions behind those before are made for local ones. -/
theorem exists_of_getElem?_hang {node : FunctionNode} {id : FunctionId}
    (hid : before.length ≤ id) (hnode : (hang before placed)[id]? = some node) :
    ∃ p, (p, id) ∈ placed.zipIdx before.length := by
  have hlt : id < (hang before placed).length := (List.getElem?_eq_some_iff.mp hnode).1
  rw [length_hang] at hlt
  have hsub : id - before.length < placed.length := Nat.sub_lt_left_of_lt_add hid hlt
  exact ⟨_, List.mk_mem_zipIdx_iff_le_and_getElem?_sub.mpr ⟨hid, List.getElem?_eq_getElem hsub⟩⟩

/-- One more local function is made at the end and noted below the function around it. -/
theorem hang_snoc (p : PlacedLocal)
    (houter : ∀ q ∈ placed, q.outer < before.length + placed.length) :
    hang before (placed ++ [p]) = addLocal (hang before placed) p.outer p.node := by
  have hlast : below (before.length + placed.length) [p] = fun i =>
      if p.outer = i then [before.length + placed.length] else [] := by
    funext i
    by_cases houter : p.outer = i <;> simp [below, houter]
  refine List.ext_getElem? fun i => ?_
  rw [getElem?_hang, addLocal, List.getElem?_modify, PlacedLocal.below_append, hlast,
    length_hang, List.map_append, ← List.append_assoc]
  rcases lt_trichotomy i (before.length + placed.length) with hi | rfl | hi
  · have hold : (before ++ placed.map PlacedLocal.node ++ [p].map PlacedLocal.node)[i]?
        = (before ++ placed.map PlacedLocal.node)[i]? :=
      List.getElem?_append_left (by simpa using hi)
    have hold' : (hang before placed ++ [p.node])[i]? = (hang before placed)[i]? :=
      List.getElem?_append_left (by rwa [length_hang])
    rw [hold, hold', getElem?_hang]
    cases (before ++ placed.map PlacedLocal.node)[i]? with
    | none => rfl
    | some node => by_cases houter : p.outer = i <;> simp [houter]
  · -- Nothing is below the new function yet.
    have hnone : below before.length placed (before.length + placed.length) = [] := by
      rw [List.eq_nil_iff_forall_not_mem]
      intro id hid
      obtain ⟨q, hq, hself⟩ := PlacedLocal.mem_below.mp hid
      exact absurd hself (houter q (List.fst_mem_of_mem_zipIdx hq)).ne
    have hnew : (before ++ placed.map PlacedLocal.node ++ [p].map PlacedLocal.node)[
        before.length + placed.length]? = some p.node := by
      rw [List.getElem?_append_right (by simp)]
      simp
    have hnew' : (hang before placed ++ [p.node])[before.length + placed.length]?
        = some p.node := by
      rw [← length_hang before placed, List.getElem?_concat_length]
    rw [hnew, hnew', hnone]
    by_cases houter : p.outer = before.length + placed.length <;>
      simp [houter, PlacedLocal.node]
  · rw [List.getElem?_eq_none (by simp; omega),
      List.getElem?_eq_none (by simp [length_hang]; omega)]
    rfl

/-- Local functions are placed one after the other. Each is below the function that is found around
it, by the keys of the class and those of the local functions before it. -/
inductive Hangs (d : Draft) (keys : LocalKeys) : List PlacedLocal → Prop
  /-- None is placed. -/
  | nil : Hangs d keys []
  /-- One more is placed. -/
  | snoc {placed : List PlacedLocal} {p : PlacedLocal} (h : Hangs d keys placed)
    (hfound : (d.withFunctions (hang d.tree.functions placed)).outer?
      (keys ++ table d.tree.functions.length placed) p.body = some (p.key, p.outer)) :
    Hangs d keys (placed ++ [p])

variable {d : Draft} {keys : LocalKeys}

/-- A local function is below one that was there before. -/
theorem Hangs.outer_lt (h : Hangs d keys placed)
    (hkeys : ∀ entry ∈ keys, entry.2 < d.tree.functions.length) {p : PlacedLocal}
    {id : FunctionId} (hp : (p, id) ∈ placed.zipIdx d.tree.functions.length) : p.outer < id := by
  induction h with
  | nil => simp at hp
  | @snoc placed last h hfound ih =>
    rw [List.zipIdx_append, List.mem_append] at hp
    rcases hp with hp | hp
    · exact ih hp
    · obtain ⟨rfl, rfl⟩ : p = last ∧ id = d.tree.functions.length + placed.length := by
        simpa using hp
      obtain ⟨entry, hentry, houter⟩ := outer?_mem hfound
      rw [← houter]
      rcases List.mem_append.mp hentry with hentry | hentry
      · exact (hkeys entry hentry).trans_le (Nat.le_add_right _ _)
      · obtain ⟨q, hq, -⟩ := PlacedLocal.mem_table.mp hentry
        exact List.snd_lt_add_of_mem_zipIdx hq

/-- Local functions hang below functions of the tree. -/
theorem Hangs.outer_lt_length (h : Hangs d keys placed)
    (hkeys : ∀ entry ∈ keys, entry.2 < d.tree.functions.length) :
    ∀ p ∈ placed, p.outer < d.tree.functions.length + placed.length := by
  intro p hp
  obtain ⟨i, hi⟩ := List.getElem?_of_mem hp
  have hmem : (p, d.tree.functions.length + i) ∈ placed.zipIdx d.tree.functions.length :=
    List.mk_add_mem_zipIdx_iff_getElem?.mpr hi
  exact (h.outer_lt hkeys hmem).trans (List.snd_lt_add_of_mem_zipIdx hmem)

/-- Placing local functions makes the functions that hang below those around them. -/
theorem placeEach_hang (bodies : List Body) (h : Hangs d keys placed)
    (hkeys : ∀ entry ∈ keys, entry.2 < d.tree.functions.length) :
    ∃ result more, placeEach (keys ++ table d.tree.functions.length placed) bodies
        (d.withFunctions (hang d.tree.functions placed))
          = (result, d.withFunctions (hang d.tree.functions (placed ++ more))) ∧
      Hangs d keys (placed ++ more) ∧
      (∀ ids, result = .ok ids → more.map PlacedLocal.body = bodies ∧
        ids = List.range' (d.tree.functions.length + placed.length) more.length) ∧
      ∀ s, result = .error s → ∃ body rest, bodies = more.map PlacedLocal.body ++ body :: rest ∧
        body.signature = s ∧ (d.withFunctions (hang d.tree.functions (placed ++ more))).outer?
          (keys ++ table d.tree.functions.length (placed ++ more)) body = none := by
  induction bodies generalizing placed with
  | nil =>
    refine ⟨.ok [], [], ?_, ?_, fun ids hids => ⟨rfl, (Except.ok.inj hids).symm⟩, by simp⟩
    · rw [List.append_nil]
      rfl
    · rwa [List.append_nil]
  | cons body rest ih =>
    cases houter : (d.withFunctions (hang d.tree.functions placed)).outer?
        (keys ++ table d.tree.functions.length placed) body with
    | none =>
      refine ⟨.error body.signature, [], ?_, ?_, by simp, fun s hs => ?_⟩
      · rw [List.append_nil]
        exact placeEach_cons_of_none houter
      · rwa [List.append_nil]
      · rw [List.append_nil]
        exact ⟨body, rest, rfl, Except.error.inj hs, houter⟩
    | some found =>
      obtain ⟨key, outer⟩ := found
      obtain ⟨p, rfl, rfl, rfl⟩ :
          ∃ p : PlacedLocal, p.body = body ∧ p.key = key ∧ p.outer = outer :=
        ⟨⟨body, key, outer⟩, rfl, rfl, rfl⟩
      obtain ⟨result, more, hrun, hangs, hids, hstray⟩ := ih (h.snoc houter)
      have hnew : (d.withFunctions (hang d.tree.functions placed)).tree.functions.length
          = d.tree.functions.length + placed.length := length_hang _ _
      have hmade : (modifyFunction p.outer (fun node => { node with locals := node.locals
            ++ [(d.withFunctions (hang d.tree.functions placed)).tree.functions.length] })
            ((d.withFunctions (hang d.tree.functions placed)).grow [p.node])).2
          = d.withFunctions (hang d.tree.functions (placed ++ [p])) := by
        rw [hang_snoc p (h.outer_lt_length hkeys)]
        rfl
      have htable : keys ++ table d.tree.functions.length placed
            ++ [(p.name, (d.withFunctions (hang d.tree.functions placed)).tree.functions.length)]
          = keys ++ table d.tree.functions.length (placed ++ [p]) := by
        rw [hnew, PlacedLocal.table_append, List.append_assoc]
        rfl
      refine ⟨result.map fun others => (d.tree.functions.length + placed.length) :: others,
        p :: more, ?_, ?_, fun ids hresult => ?_, fun s hresult => ?_⟩
      · rw [placeEach_cons_of_some houter]
        change (let placed' := placeEach (keys ++ table d.tree.functions.length placed
          ++ [(p.name, _)]) rest (modifyFunction p.outer _
            ((d.withFunctions (hang d.tree.functions placed)).grow [p.node])).2
          (placed'.1.map _, placed'.2)) = _
        rw [htable, hmade, hrun, hnew, List.append_assoc]
        rfl
      · rwa [List.append_assoc] at hangs
      · cases result with
        | error signature => simp [Except.map] at hresult
        | ok others =>
          obtain rfl := Except.ok.inj hresult
          obtain ⟨rfl, rfl⟩ := hids others rfl
          refine ⟨rfl, ?_⟩
          rw [List.length_cons, List.range'_succ, List.length_append, List.length_singleton,
            Nat.add_assoc]
      · cases result with
        | ok others => simp [Except.map] at hresult
        | error signature =>
          obtain ⟨stray, others, rfl, hsignature, hnone⟩ := hstray signature rfl
          rw [List.append_assoc] at hnone
          exact ⟨stray, others, rfl, hsignature.trans (Except.error.inj hresult), hnone⟩

end Draft

/-- The function around a local one is the right one among functions with keys: its key is the one
that the name tells, and it encloses the lines, if any function with that key does. -/
structure PlacedLocal.IsBelow (p : PlacedLocal) (keys : LocalKeys) (bodies : List Body) :
    Prop where
  /-- The name tells the key, and no other one. -/
  isKey : ∀ key, LocalKeys.IsOuterKey (keys.map Prod.fst) p.name key ↔ key = p.key
  /-- The function has it. -/
  mem : (p.key, p.outer) ∈ keys
  /-- The lines decide between several. -/
  encloses : ∃ body, bodies[p.outer]? = some body ∧ ∀ other body', (p.key, other) ∈ keys →
    bodies[other]? = some body' → p.body.lines.within body'.lines = true →
      p.body.lines.within body.lines = true

/-- The key under which a local function hangs is the outer one among all keys. -/
theorem PlacedLocal.IsBelow.isOuterKey {p : PlacedLocal} {keys : LocalKeys} {bodies : List Body}
    (h : p.IsBelow keys bodies) : LocalKeys.IsOuterKey (keys.map Prod.fst) p.name p.key :=
  (h.isKey p.key).mpr rfl

/-- Which function is around a local one depends on the methods of the functions with keys. -/
theorem PlacedLocal.IsBelow.congr {p : PlacedLocal} {keys : LocalKeys} {bodies bodies' : List Body}
    (h : p.IsBelow keys bodies) (hsame : ∀ entry ∈ keys, bodies'[entry.2]? = bodies[entry.2]?) :
    p.IsBelow keys bodies' where
  isKey := h.isKey
  mem := h.mem
  encloses := by
    obtain ⟨body, hbody, hall⟩ := h.encloses
    refine ⟨body, (hsame _ h.mem).trans hbody, fun other body' hother hbody' => ?_⟩
    exact hall other body' hother ((hsame _ hother).symm.trans hbody')

/-- It does not depend on the order of the keys. -/
theorem PlacedLocal.IsBelow.perm {p : PlacedLocal} {keys keys' : LocalKeys} {bodies : List Body}
    (h : p.IsBelow keys bodies) (hperm : keys.Perm keys') : p.IsBelow keys' bodies where
  isKey := fun key => by
    rw [← h.isKey key]
    exact LocalKeys.IsOuterKey.congr fun name => (hperm.map Prod.fst).mem_iff.symm
  mem := hperm.mem_iff.mp h.mem
  encloses := by
    obtain ⟨body, hbody, hall⟩ := h.encloses
    exact ⟨body, hbody, fun other body' hother => hall other body' (hperm.mem_iff.mpr hother)⟩

/-- Later functions with longer names do not change which function is around a local one. -/
theorem PlacedLocal.IsBelow.append {p : PlacedLocal} {keys more : LocalKeys}
    {bodies others : List Body} (h : p.IsBelow keys bodies)
    (hkeys : ∀ entry ∈ keys, entry.2 < bodies.length)
    (hmore : ∀ entry ∈ more, p.name.utf8ByteSize ≤ entry.1.utf8ByteSize) :
    p.IsBelow (keys ++ more) (bodies ++ others) where
  isKey := by
    rw [List.map_append]
    refine LocalKeys.IsOuterKey.iff_eq (h.isOuterKey.append fun other hother => ?_)
    obtain ⟨entry, hentry, rfl⟩ := List.mem_map.mp hother
    exact hmore entry hentry
  mem := List.mem_append_left _ h.mem
  encloses := by
    obtain ⟨body, hbody, hall⟩ := h.encloses
    refine ⟨body, ?_, fun other body' hother hbody' => ?_⟩
    · rwa [List.getElem?_append_left (List.getElem?_eq_some_iff.mp hbody).1]
    · rcases List.mem_append.mp hother with hother | hother
      · rw [List.getElem?_append_left (hkeys _ hother)] at hbody'
        exact hall other body' hother hbody'
      · exact absurd (hmore _ hother) h.isOuterKey.size_lt.not_ge

namespace Draft

open PlacedLocal (table)

variable {d : Draft} {keys : LocalKeys} {placed : List PlacedLocal}

/-- The function that is found around a local one is the right one among those that there are. -/
theorem outer?_isBelow {p : PlacedLocal} (h : d.outer? keys p.body = some (p.key, p.outer)) :
    p.IsBelow keys (d.tree.functions.map FunctionNode.body) := by
  obtain ⟨hkey, hmem, node, hnode, hencloses⟩ := outer?_isOuterKey h
  have hget {f : FunctionId} : (d.tree.functions.map FunctionNode.body)[f]?
      = (d.tree.function? f).map FunctionNode.body := List.getElem?_map
  refine ⟨hkey.iff_eq, hmem, node.body, ?_, fun other body' hother hbody' => ?_⟩
  · rw [hget, hnode, Option.map_some]
  · rw [hget] at hbody'
    obtain ⟨node', hnode', rfl⟩ := Option.map_eq_some_iff.mp hbody'
    exact hencloses other node' hother hnode'

/-- The keys stand for functions that there are. -/
theorem table_bound (hkeys : ∀ entry ∈ keys, entry.2 < d.tree.functions.length)
    (placed : List PlacedLocal) : ∀ entry ∈ keys ++ table d.tree.functions.length placed,
      entry.2 < (hang d.tree.functions placed).length := by
  intro entry hentry
  rw [length_hang]
  rcases List.mem_append.mp hentry with hentry | hentry
  · exact (hkeys entry hentry).trans_le (Nat.le_add_right _ _)
  · obtain ⟨q, hq, -⟩ := PlacedLocal.mem_table.mp hentry
    exact List.snd_lt_add_of_mem_zipIdx hq

/-- When shorter names come first, every local function ends up below the right function. -/
theorem Hangs.isBelow (h : Hangs d keys placed)
    (hkeys : ∀ entry ∈ keys, entry.2 < d.tree.functions.length)
    (hsorted : placed.Pairwise fun p q => p.name.utf8ByteSize ≤ q.name.utf8ByteSize) :
    ∀ p ∈ placed, p.IsBelow (keys ++ table d.tree.functions.length placed)
      ((hang d.tree.functions placed).map FunctionNode.body) := by
  induction h with
  | nil => simp
  | @snoc placed last h hfound ih =>
    rw [List.pairwise_append] at hsorted
    obtain ⟨hsorted, -, hshorter⟩ := hsorted
    have hbodies : (hang d.tree.functions (placed ++ [last])).map FunctionNode.body
        = (hang d.tree.functions placed).map FunctionNode.body ++ [last.body] := by
      rw [map_body_hang, map_body_hang, List.map_append, List.append_assoc]
      rfl
    have hbound : ∀ entry ∈ keys ++ table d.tree.functions.length placed,
        entry.2 < ((hang d.tree.functions placed).map FunctionNode.body).length := by
      rw [List.length_map]
      exact table_bound hkeys placed
    have hlast : last.IsBelow (keys ++ table d.tree.functions.length placed)
        ((hang d.tree.functions placed).map FunctionNode.body) := outer?_isBelow hfound
    intro p hp
    rw [hbodies, PlacedLocal.table_append, ← List.append_assoc]
    have hnew (entry : String × FunctionId)
        (hentry : entry ∈ table (d.tree.functions.length + placed.length) [last]) :
        entry.1 = last.name := by
      obtain ⟨q, hq, hname⟩ := PlacedLocal.mem_table.mp hentry
      rw [← hname]
      exact congrArg PlacedLocal.name (List.mem_singleton.mp (List.fst_mem_of_mem_zipIdx hq))
    rcases List.mem_append.mp hp with hold | hnow
    · refine (ih hsorted p hold).append hbound fun entry hentry => ?_
      rw [hnew entry hentry]
      exact hshorter p hold last List.mem_cons_self
    · obtain rfl := List.mem_singleton.mp hnow
      refine hlast.append hbound fun entry hentry => ?_
      rw [hnew entry hentry]

/-- When shorter names come first, a local function that no function is found around is below none
of the class: the functions that are not there yet are not around it. -/
theorem Hangs.isStray {body : Body} {rest : List Body}
    (hkeys : ∀ entry ∈ keys, entry.2 < d.tree.functions.length)
    (hsorted : (placed.map PlacedLocal.body ++ body :: rest).Pairwise fun a b =>
      a.signature.name.utf8ByteSize ≤ b.signature.name.utf8ByteSize)
    (hnone : (d.withFunctions (hang d.tree.functions placed)).outer?
      (keys ++ table d.tree.functions.length placed) body = none) :
    LocalKeys.IsStray (keys.map Prod.fst ++
      (placed.map PlacedLocal.body ++ body :: rest).map (·.signature.name))
        body.signature.name := by
  intro key hkey
  obtain ⟨hmem, hcontinues⟩ := hkey.exists_continues
  have hthere : key ∈ (keys ++ table d.tree.functions.length placed).map Prod.fst := by
    rw [List.map_append, PlacedLocal.map_fst_table]
    rw [List.map_append, List.map_map] at hmem
    rcases List.mem_append.mp hmem with hmem | hmem
    · exact List.mem_append_left _ hmem
    rcases List.mem_append.mp hmem with hmem | hmem
    · exact List.mem_append_right _ hmem
    · obtain ⟨other, hother, rfl⟩ := List.mem_map.mp hmem
      have hlonger : body.signature.name.utf8ByteSize ≤ other.signature.name.utf8ByteSize := by
        rcases List.mem_cons.mp hother with rfl | hother
        · exact le_rfl
        · exact (List.pairwise_cons.mp (List.pairwise_append.mp hsorted).2.1).1 other hother
      exact absurd hlonger hkey.size_lt.not_ge
  have hfits : LocalKeys.Fits ((keys ++ table d.tree.functions.length placed).map Prod.fst)
      body.signature.name := ⟨key, hthere, LocalKeys.rest?_isSome_iff.mpr hcontinues⟩
  obtain ⟨found, hfound⟩ := exists_outer? (d := d.withFunctions (hang d.tree.functions placed))
    (table_bound hkeys placed) hfits
  rw [hfound] at hnone
  cases hnone

end Draft

end LineAtlas
