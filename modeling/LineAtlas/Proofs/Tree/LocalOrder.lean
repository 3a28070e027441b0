import LineAtlas.Proofs.Tree.LocalFunctions

/-!
# The order of local functions

Functions are numbered in the order in which they are made, and a local function goes behind those
that are below the same function already. So the local functions of a function always come in the
order of their numbers, which is the order of the lengths of their names.
-/

namespace LineAtlas

/-- The methods of some functions. -/
def SourceTree.bodiesAt (t : SourceTree) (fs : List FunctionId) : List Body :=
  (fs.filterMap t.function?).map FunctionNode.body

namespace Draft

variable {base : Nat} {before fs : List FunctionNode} {placed : List Body} {d : Draft}

/-- A draft with other functions. -/
def withFunctions (d : Draft) (fs : List FunctionNode) : Draft :=
  { d with tree := { d.tree with functions := fs } }

/-- Functions with a new one at their end, which is local in another one. -/
def addLocal (fs : List FunctionNode) (outer : FunctionId) (new : FunctionNode) :
    List FunctionNode :=
  (fs ++ [new]).modify outer fun node => { node with locals := node.locals ++ [fs.length] }

/-- Functions after some local ones were placed, compared with those before. The functions of the
class are those from a base on. -/
structure Orders (base : Nat) (before fs : List FunctionNode) (placed : List Body) : Prop where
  /-- There is a new function for every method that was placed. -/
  bodies : fs.map FunctionNode.body = before.map FunctionNode.body ++ placed
  /-- What was there is shown as before. -/
  kinds : ∀ i < before.length,
    (fs[i]?).map FunctionNode.kind = (before[i]?).map FunctionNode.kind
  /-- Local functions are new ones, in the order of their numbers. -/
  locals : ∀ (i : Nat) (node : FunctionNode), base ≤ i → fs[i]? = some node →
    node.locals.Sublist (List.range' before.length placed.length)

/-- Before any local function is placed. -/
theorem Orders.refl (hblank : ∀ (i : Nat) (node : FunctionNode), base ≤ i →
    before[i]? = some node → node.locals = []) : Orders base before before [] where
  bodies := (List.append_nil _).symm
  kinds := fun _ _ => rfl
  locals := fun i node hi hnode => by
    rw [hblank i node hi hnode]
    exact List.nil_sublist _

/-- The functions are those that were there and those that were placed. -/
theorem Orders.length_eq (h : Orders base before fs placed) :
    fs.length = before.length + placed.length := by
  simpa using congrArg List.length h.bodies

/-- One more function is placed below any other one. -/
theorem Orders.put (h : Orders base before fs placed) {new : FunctionNode}
    (hnew : new.locals = []) (outer : FunctionId) :
    Orders base before (addLocal fs outer new) (placed ++ [new.body]) where
  bodies := by
    rw [addLocal, Lists.map_modify, List.map_append, h.bodies, List.append_assoc]
    · rfl
    · exact fun _ => rfl
  kinds := fun i hi => by
    have hlt : i < fs.length := by
      rw [h.length_eq]
      omega
    rw [← h.kinds i hi, addLocal, List.getElem?_modify, List.getElem?_append_left hlt]
    cases fs[i]? with
    | none => rfl
    | some node =>
      by_cases houter : outer = i
      · simp [houter]
      · simp [houter]
  locals := fun i node hi hnode => by
    obtain ⟨old, hold, rfl⟩ := Lists.getElem?_modify_eq_some hnode
    have hlocals : old.locals.Sublist (List.range' before.length placed.length) := by
      rw [List.getElem?_append] at hold
      split at hold
      · exact h.locals i old hi hold
      · rw [List.mem_singleton.mp (List.mem_of_getElem? hold), hnew]
        exact List.nil_sublist _
    rw [List.length_append, List.length_singleton, List.range'_1_concat, ← h.length_eq]
    split
    · exact hlocals.append (List.Sublist.refl _)
    · exact hlocals.trans (List.sublist_append_left _ _)

/-- A change to one function that leaves it its method. -/
theorem Orders.modify (h : Orders base before fs placed) {i : Nat}
    {change : FunctionNode → FunctionNode} (hbody : ∀ node, (change node).body = node.body)
    (hkind : i < before.length → ∀ node, (change node).kind = node.kind)
    (hlocals : ∀ node, (change node).locals.Sublist node.locals) :
    Orders base before (fs.modify i change) placed where
  bodies := by rw [Lists.map_modify hbody, h.bodies]
  kinds := fun j hj => by
    rw [← h.kinds j hj, List.getElem?_modify]
    cases fs[j]? with
    | none => rfl
    | some node =>
      by_cases hij : i = j
      · simp [hij, hkind (hij ▸ hj) node]
      · simp [hij]
  locals := fun j node hj hnode => by
    obtain ⟨old, hold, rfl⟩ := Lists.getElem?_modify_eq_some hnode
    split
    · exact (hlocals old).trans (h.locals j old hj hold)
    · exact h.locals j old hj hold

/-- Placing local functions one after the other makes a new function for each, up to the first one
that is left over. If none is, the new functions are numbered in their order. -/
theorem placeEach_orders (bodies : List Body) (keys : LocalKeys)
    (h : Orders base before d.tree.functions placed) :
    ∃ result fs more, placeEach keys bodies d = (result, d.withFunctions fs) ∧
      more <+: bodies ∧ Orders base before fs (placed ++ more) ∧
      ∀ ids, result = .ok ids → more = bodies ∧
        ids = List.range' (before.length + placed.length) bodies.length := by
  induction bodies generalizing d keys placed with
  | nil =>
    refine ⟨.ok [], d.tree.functions, [], rfl, List.prefix_rfl, ?_, fun ids hids => ?_⟩
    · rwa [List.append_nil]
    · exact ⟨rfl, (Except.ok.inj hids).symm⟩
  | cons body rest ih =>
    cases houter : d.outer? keys body with
    | none =>
      refine ⟨.error body.signature, d.tree.functions, [], ?_, List.nil_prefix, ?_, by simp⟩
      · exact placeEach_cons_of_none houter
      · rwa [List.append_nil]
    | some found =>
      obtain ⟨key, outer⟩ := found
      obtain ⟨result, fs, more, hrest, hprefix, horders, hids⟩ :=
        ih (d := d.withFunctions (addLocal d.tree.functions outer
            { kind := localKind body.signature.name key, body }))
          (keys ++ [(body.signature.name, d.tree.functions.length)]) (h.put rfl outer)
      refine ⟨result.map fun others => d.tree.functions.length :: others, fs, body :: more, ?_,
        (List.prefix_cons_inj body).mpr hprefix, ?_, fun ids hresult => ?_⟩
      · have hmade : (modifyFunction outer (fun node =>
              { node with locals := node.locals ++ [d.tree.functions.length] })
              (d.grow [{ kind := localKind body.signature.name key, body }])).2
            = d.withFunctions (addLocal d.tree.functions outer
              { kind := localKind body.signature.name key, body }) := rfl
        rw [placeEach_cons_of_some houter, hmade, hrest]
        rfl
      · simpa using horders
      · cases result with
        | error signature => simp [Except.map] at hresult
        | ok others =>
          obtain rfl := Except.ok.inj hresult
          obtain ⟨rfl, rfl⟩ := hids others rfl
          refine ⟨rfl, ?_⟩
          rw [h.length_eq, List.length_append, List.length_singleton, List.length_cons,
            List.range'_succ, Nat.add_assoc]

/-- Turning the only helper below a new function into its helper keeps the order. -/
theorem attachDefaultValues_orders (hbase : base ≤ before.length)
    (h : Orders base before d.tree.functions placed) {id : FunctionId}
    (hid : before.length ≤ id) : ∃ fs, attachDefaultValues id d = ((), d.withFunctions fs) ∧
      Orders base before fs placed := by
  rcases attachDefaultValues_cases id d with
    hrun | ⟨node, name, helper, hnode, -, hhelpers, hrun⟩
  · exact ⟨d.tree.functions, hrun, h⟩
  · have hlocal : helper ∈ node.locals := by
      have hmem : helper ∈ localHelpers d.tree node := by simp [hhelpers]
      exact List.mem_of_mem_filter hmem
    -- The helper is a local function, hence new.
    have hnew : before.length ≤ helper :=
      (List.mem_range'_1.mp ((h.locals id node (hbase.trans hid) hnode).subset hlocal)).1
    have hadopt : Orders base before (d.tree.functions.modify id fun node =>
        { node with locals := node.locals.erase helper, defaultValues := some helper }) placed :=
      h.modify (fun _ => rfl) (fun hlt => absurd hlt hid.not_gt) fun _ => List.erase_sublist
    exact ⟨_, hrun, hadopt.modify (fun _ => rfl) (fun hlt => absurd hlt hnew.not_gt)
      fun _ => List.Sublist.refl _⟩

/-- Attaching helpers leaves the order of local functions. -/
theorem attachAll_orders (hbase : base ≤ before.length) (ids : List FunctionId)
    (h : Orders base before d.tree.functions placed) (hids : ∀ id ∈ ids, before.length ≤ id) :
    ∃ fs, ids.forM attachDefaultValues d = ((), d.withFunctions fs) ∧
      Orders base before fs placed := by
  induction ids generalizing d with
  | nil => exact ⟨d.tree.functions, rfl, h⟩
  | cons id rest ih =>
    obtain ⟨fs, hfirst, horders⟩ :=
      attachDefaultValues_orders hbase h (hids id List.mem_cons_self)
    obtain ⟨fs', hrest, horders'⟩ := ih (d := d.withFunctions fs) horders
      fun other hother => hids other (List.mem_cons_of_mem id hother)
    refine ⟨fs', ?_, horders'⟩
    rw [forM_cons_apply, hfirst]
    exact hrest

/-- Placing the local functions of a class makes new functions in the order of the lengths of
their names. -/
theorem placeLocals_orders (keys : LocalKeys) (locals : List Body)
    (hbase : base ≤ d.tree.functions.length)
    (hblank : ∀ (i : Nat) (node : FunctionNode), base ≤ i → d.tree.functions[i]? = some node →
      node.locals = []) :
    ∃ unplaced fs placed, placeLocals keys locals d = (unplaced, d.withFunctions fs) ∧
      placed <+: byNameLength locals ∧ Orders base d.tree.functions fs placed := by
  obtain ⟨result, fs, placed, hrun, hprefix, horders, hids⟩ :=
    placeEach_orders (byNameLength locals) keys (Orders.refl hblank)
  cases result with
  | error signature =>
    refine ⟨some signature, fs, placed, ?_, hprefix, horders⟩
    rw [placeLocals, bind_apply, hrun]
    rfl
  | ok ids =>
    have hnew : ∀ id ∈ ids, d.tree.functions.length ≤ id := by
      rw [(hids ids rfl).2]
      exact fun id hid => (List.mem_range'_1.mp hid).1
    obtain ⟨fs', hattach, horders'⟩ :=
      attachAll_orders (d := d.withFunctions fs) hbase ids horders hnew
    refine ⟨none, fs', placed, ?_, hprefix, horders'⟩
    rw [placeLocals, bind_apply, hrun]
    dsimp only
    rw [bind_apply, hattach]
    rfl

end Draft

/-- The methods at some positions are those of the functions there. -/
theorem SourceTree.bodiesAt_eq (t : SourceTree) (fs : List FunctionId) :
    t.bodiesAt fs = fs.filterMap fun f => (t.functions.map FunctionNode.body)[f]? := by
  simp only [bodiesAt, List.map_filterMap, List.getElem?_map]
  rfl

/-- Fewer positions have fewer methods, in the same order. -/
theorem SourceTree.bodiesAt_sublist (t : SourceTree) {fs gs : List FunctionId}
    (h : fs.Sublist gs) : (t.bodiesAt fs).Sublist (t.bodiesAt gs) :=
  (h.filterMap _).map _

/-- The items of a list from a position on. -/
theorem Lists.filterMap_range'_getElem? {α : Type} (before after : List α) :
    (List.range' before.length after.length).filterMap (fun i => (before ++ after)[i]?)
      = after := by
  induction after generalizing before with
  | nil => rfl
  | cons a rest ih =>
    have hrest := ih (before ++ [a])
    rw [List.length_append, List.length_singleton, List.append_assoc, List.singleton_append]
      at hrest
    rw [List.length_cons, List.range'_succ, List.filterMap_cons_some (b := a) (by simp), hrest]

namespace Draft

/-- The methods of local functions are in the order in which they were placed. -/
theorem Orders.bodiesAt_sublist {t : SourceTree} {base : Nat} {before : List FunctionNode}
    {placed : List Body} (h : Orders base before t.functions placed) {i : Nat}
    {node : FunctionNode} (hi : base ≤ i) (hnode : t.function? i = some node) :
    (t.bodiesAt node.locals).Sublist placed := by
  have hall : t.bodiesAt (List.range' before.length placed.length) = placed := by
    rw [SourceTree.bodiesAt_eq, h.bodies, ← List.length_map (f := FunctionNode.body)]
    exact Lists.filterMap_range'_getElem? _ _
  have hsublist := t.bodiesAt_sublist (h.locals i node hi hnode)
  rwa [hall] at hsublist

end Draft

end LineAtlas
