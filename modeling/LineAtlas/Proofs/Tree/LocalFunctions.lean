import LineAtlas.Proofs.Tree.Block
import LineAtlas.Tree.LocalFunctions

/-!
# Blocks with local functions

Local functions extend the block of their class. Each goes below a function of the block, and
turning one of them into a helper leaves it in its place. When no local function is left over,
the block stands for all of them.
-/

namespace LineAtlas

namespace LocalKeys

/-- The least item is one of the items. -/
theorem leastBy?_mem {α : Type} {measure : α → LineNumber} {items : List α} {item : α}
    (h : leastBy? measure items = some item) : item ∈ items := by
  cases items with
  | nil => simp [leastBy?] at h
  | cons first others =>
    obtain rfl := Option.some.inj h
    clear h
    induction others generalizing first with
    | nil => exact List.mem_cons_self
    | cons next others ih =>
      rw [List.foldl_cons]
      rcases List.mem_cons.mp (ih (if measure next < measure first then next else first))
        with heq | hmem
      · rw [heq]
        split
        · exact List.mem_cons_of_mem _ List.mem_cons_self
        · exact List.mem_cons_self
      · exact List.mem_cons_of_mem _ (List.mem_cons_of_mem _ hmem)

/-- The function around some lines is one of the candidates. -/
theorem enclosing?_mem {candidates : List (FunctionId × LineSet)} {lines : LineSet}
    {f : FunctionId} (h : enclosing? candidates lines = some f) :
    f ∈ candidates.map Prod.fst := by
  have hhead {item : FunctionId × LineSet} (hitem : candidates.head? = some item) :
      item ∈ candidates := List.mem_of_head? hitem
  unfold enclosing? at h
  split at h
  · obtain ⟨item, hitem, rfl⟩ := Option.map_eq_some_iff.mp h
    refine List.mem_map_of_mem ?_
    simp only [Option.orElse_eq_orElse, Option.orElse_eq_or, Option.or_eq_some_iff] at hitem
    rcases hitem with hfound | ⟨-, hfound | ⟨-, hfound⟩⟩
    · exact List.mem_of_mem_filter (List.mem_of_find?_eq_some hfound)
    · exact List.mem_of_mem_filter (leastBy?_mem hfound)
    · exact hhead hfound
  · obtain ⟨item, hitem, rfl⟩ := Option.map_eq_some_iff.mp h
    exact List.mem_map_of_mem (hhead hitem)

/-- Where there are candidates, one of them is chosen. -/
theorem exists_enclosing? {candidates : List (FunctionId × LineSet)} (hsome : candidates ≠ [])
    (lines : LineSet) : ∃ f, enclosing? candidates lines = some f := by
  obtain ⟨first, rest, rfl⟩ := List.exists_cons_of_ne_nil hsome
  rw [← Option.isSome_iff_exists]
  unfold enclosing?
  split
  · simp [Option.orElse_eq_or]
  · rfl

/-- A name continues one of some keys with a dollar and something more. -/
def Fits (keys : List String) (name : String) : Prop :=
  ∃ key ∈ keys, (rest? key name).isSome = true

/-- A name that continues one of some keys continues one of more. -/
theorem Fits.mono {keys keys' : List String} {name : String} (h : Fits keys name)
    (hsubset : keys ⊆ keys') : Fits keys' name := by
  obtain ⟨key, hkey, hrest⟩ := h
  exact ⟨key, hsubset hkey, hrest⟩

/-- The longest of some keys is one of them. -/
theorem foldl_longer_mem (first : String) (others : List String) :
    others.foldl longer first ∈ first :: others := by
  induction others generalizing first with
  | nil => exact List.mem_cons_self
  | cons next others ih =>
    rw [List.foldl_cons]
    rcases List.mem_cons.mp (ih (longer first next)) with heq | hmem
    · rw [heq, longer]
      split
      · exact List.mem_cons_self
      · exact List.mem_cons_of_mem _ List.mem_cons_self
    · exact List.mem_cons_of_mem _ (List.mem_cons_of_mem _ hmem)

/-- There is a longest key for a name exactly if it continues one of the keys. -/
theorem longestKey?_isSome_iff {keys : LocalKeys} {name : String} :
    (keys.longestKey? name).isSome = true ↔ Fits (keys.map Prod.fst) name := by
  unfold longestKey?
  split
  · next hnone =>
    rw [List.filter_eq_nil_iff] at hnone
    exact ⟨by simp, fun ⟨key, hkey, hrest⟩ => absurd hrest (hnone key hkey)⟩
  · next key others hfound =>
    have hmem : key ∈ (keys.map Prod.fst).filter fun key => (rest? key name).isSome := by
      rw [hfound]
      exact List.mem_cons_self
    exact ⟨fun _ => ⟨key, List.mem_of_mem_filter hmem, (List.mem_filter.mp hmem).2⟩, fun _ => rfl⟩

/-- The longest key for a name is one of the keys. -/
theorem longestKey?_mem {keys : LocalKeys} {name key : String}
    (h : keys.longestKey? name = some key) : key ∈ keys.map Prod.fst := by
  unfold longestKey? at h
  split at h
  · simp at h
  · next first others hfound =>
    obtain rfl := Option.some.inj h
    have hmem := foldl_longer_mem first others
    rw [← hfound] at hmem
    exact List.mem_of_mem_filter hmem

/-- The function around a local one has a key, if its name continues one. -/
theorem exists_outerKey? {keys : LocalKeys} {name : String}
    (h : Fits (keys.map Prod.fst) name) :
    ∃ key ∈ keys.map Prod.fst, keys.outerKey? name = some key := by
  unfold outerKey?
  split
  · next base hbase =>
    obtain ⟨-, hany⟩ := Option.filter_eq_some_iff.mp hbase
    obtain ⟨entry, hentry, hkey⟩ := List.any_eq_true.mp hany
    exact ⟨base, List.mem_map.mpr ⟨entry, hentry, by simpa using hkey⟩, rfl⟩
  · obtain ⟨key, hkey⟩ := Option.isSome_iff_exists.mp (longestKey?_isSome_iff.mpr h)
    exact ⟨key, longestKey?_mem hkey, hkey⟩

end LocalKeys

namespace Draft

/-- A draft with more functions at its end. -/
def grow (d : Draft) (block : List FunctionNode) : Draft :=
  { d with tree := { d.tree with functions := d.tree.functions ++ block } }

variable {d : Draft} {roots : List FunctionId} {block : List FunctionNode} {bodies : List Body}

/-- A draft with no more functions is the same. -/
@[simp]
theorem grow_nil (d : Draft) : d.grow [] = d := by simp [grow]

/-- A draft that grows twice grows by both blocks. -/
@[simp]
theorem grow_grow (d : Draft) (one two : List FunctionNode) :
    (d.grow one).grow two = d.grow (one ++ two) := by
  simp [grow, List.append_assoc]

/-- A draft grows by as many functions as the block has. -/
theorem grow_length (d : Draft) (block : List FunctionNode) :
    (d.grow block).tree.functions.length = d.tree.functions.length + block.length := by
  simp [grow]

/-- Behind the functions of the draft come those of the block. -/
theorem grow_function? (d : Draft) (block : List FunctionNode) (i : Nat) :
    (d.grow block).tree.function? (d.tree.functions.length + i) = block[i]? := by
  rw [SourceTree.function?, grow, List.getElem?_append_right (Nat.le_add_right _ _),
    Nat.add_sub_cancel_left]

/-- Two steps run one after the other, the second on what the first one left. -/
theorem bind_apply {α β : Type} (step : Drafting α) (next : α → Drafting β) (d : Draft) :
    (step >>= next) d = next (step d).1 (step d).2 := rfl

/-- Looking at the draft changes nothing. -/
theorem get_apply (d : Draft) : (get : Drafting Draft) d = (d, d) := rfl

/-- A step that is done for each item is done for the first one, and then for the others. -/
theorem forM_cons_apply {α : Type} (step : α → Drafting Unit) (a : α) (rest : List α)
    (d : Draft) : (a :: rest).forM step d = rest.forM step (step a d).2 := rfl

/-- Giving a value changes nothing. -/
theorem pure_apply {α : Type} (a : α) (d : Draft) : (pure a : Drafting α) d = (a, d) := rfl

/-- Adding a function gives its position, and the draft grows by it. -/
theorem addFunction_apply (node : FunctionNode) (d : Draft) :
    addFunction node d = (d.tree.functions.length, d.grow [node]) := rfl

/-- A function is added behind the block by which the draft has grown. -/
theorem addFunction_grow (d : Draft) (block : List FunctionNode) (node : FunctionNode) :
    addFunction node (d.grow block)
      = (d.tree.functions.length + block.length, d.grow (block ++ [node])) := by
  simp [addFunction, grow]

/-- A change of a function of the block happens in the block. -/
theorem modifyFunction_grow (d : Draft) (block : List FunctionNode) (i : Nat)
    (change : FunctionNode → FunctionNode) :
    modifyFunction (d.tree.functions.length + i) change (d.grow block)
      = ((), d.grow (block.modify i change)) := by
  change ((), _) = ((), _)
  simp only [grow, Lists.modify_append_right]

/-- The function around a local one is one of those with keys. -/
theorem outer?_mem {keys : LocalKeys} {body : Body} {key : String} {f : FunctionId}
    (h : d.outer? keys body = some (key, f)) : ∃ entry ∈ keys, entry.2 = f := by
  unfold outer? at h
  obtain ⟨k, -, h⟩ := Option.bind_eq_some_iff.mp h
  obtain ⟨g, hg, h⟩ := Option.bind_eq_some_iff.mp h
  obtain ⟨rfl, rfl⟩ := Prod.mk.inj (Option.some.inj h)
  obtain ⟨item, hitem, rfl⟩ := List.mem_map.mp (LocalKeys.enclosing?_mem hg)
  obtain ⟨id, hid, hitem⟩ := List.mem_filterMap.mp hitem
  obtain ⟨node, -, rfl⟩ := Option.map_eq_some_iff.mp hitem
  obtain ⟨entry, hentry, rfl⟩ := List.mem_map.mp hid
  exact ⟨entry, List.mem_of_mem_filter hentry, rfl⟩

/-- A function with the key of the one around a local function is found, if there is one. -/
theorem exists_outer?_of_key {keys : LocalKeys} {body : Body} {key : String} {f : FunctionId}
    {node : FunctionNode} (houter : keys.outerKey? body.signature.name = some key)
    (hmem : (key, f) ∈ keys) (hnode : d.tree.function? f = some node) :
    ∃ found, d.outer? keys body = some (key, found) := by
  have hcandidate : f ∈ keys.candidates key :=
    List.mem_map.mpr ⟨(key, f), List.mem_filter.mpr ⟨hmem, beq_self_eq_true _⟩, rfl⟩
  have hlines : (f, node.body.lines) ∈ (keys.candidates key).filterMap fun id =>
        (d.tree.function? id).map fun node => (id, node.body.lines) :=
    List.mem_filterMap.mpr ⟨f, hcandidate, by rw [hnode]; rfl⟩
  obtain ⟨found, hfound⟩ := LocalKeys.exists_enclosing? (List.ne_nil_of_mem hlines) body.lines
  exact ⟨found, by rw [outer?, houter]; simp [hfound]⟩

/-- A function is found around every local one whose name continues a key, if the keys stand for
functions of the draft. -/
theorem exists_outer? {keys : LocalKeys} {body : Body}
    (hkeys : ∀ entry ∈ keys, entry.2 < d.tree.functions.length)
    (hfits : LocalKeys.Fits (keys.map Prod.fst) body.signature.name) :
    ∃ found, d.outer? keys body = some found := by
  obtain ⟨key, hkey, houter⟩ := LocalKeys.exists_outerKey? hfits
  obtain ⟨entry, hentry, rfl⟩ := List.mem_map.mp hkey
  have hnode : d.tree.function? entry.2 = some _ := List.getElem?_eq_getElem (hkeys entry hentry)
  obtain ⟨found, hfound⟩ := exists_outer?_of_key houter hentry hnode
  exact ⟨(entry.1, found), hfound⟩

/-- What the placement of local functions keeps of a function. -/
def look (node : FunctionNode) : FunctionKind × Option FunctionId :=
  (node.kind, node.defaultValues)

/-- A block with more functions, none of them with a helper. -/
def Continues (block block' : List FunctionNode) : Prop :=
  ∃ kinds : List FunctionKind,
    block'.map look = block.map look ++ kinds.map fun kind => (kind, none)

/-- A block continues itself. -/
theorem Continues.refl (block : List FunctionNode) : Continues block block := ⟨[], by simp⟩

/-- A block that continues one that continues another continues that. -/
theorem Continues.trans {one two three : List FunctionNode} (hone : Continues one two)
    (htwo : Continues two three) : Continues one three := by
  obtain ⟨kinds, hkinds⟩ := hone
  obtain ⟨kinds', hkinds'⟩ := htwo
  exact ⟨kinds ++ kinds', by rw [hkinds', hkinds, List.map_append, List.append_assoc]⟩

/-- A function without a name stays without one while the block continues. -/
theorem Continues.unnamed {base : Nat} {block' : List FunctionNode} {f : FunctionId}
    (h : Continues block block') (hf : Unnamed base block f) : Unnamed base block' f := by
  obtain ⟨kinds, hkinds⟩ := h
  obtain ⟨i, node, rfl, hnode, hkind⟩ := hf
  have hlook : (block'.map look)[i]? = some (look node) := by
    have hi : i < (block.map look).length := by
      rw [List.length_map]
      exact (List.getElem?_eq_some_iff.mp hnode).1
    rw [hkinds, List.getElem?_append_left hi, List.getElem?_map, hnode, Option.map_some]
  rw [List.getElem?_map] at hlook
  obtain ⟨node', hnode', heq⟩ := Option.map_eq_some_iff.mp hlook
  exact ⟨i, node', rfl, hnode', (congrArg Prod.fst heq).trans hkind⟩

/-- The new functions of a longer block have no helper. -/
theorem Continues.defaultValues_eq_none {block' : List FunctionNode}
    (h : Continues block block') {i : Nat} {node : FunctionNode} (hi : block.length ≤ i)
    (hnode : block'[i]? = some node) : node.defaultValues = none := by
  obtain ⟨kinds, hkinds⟩ := h
  have hlook : (block'.map look)[i]? = some (look node) := by
    rw [List.getElem?_map, hnode, Option.map_some]
  rw [hkinds, List.getElem?_append_right (by rwa [List.length_map]), List.getElem?_map] at hlook
  obtain ⟨kind, -, heq⟩ := Option.map_eq_some_iff.mp hlook
  exact (congrArg Prod.snd heq).symm

/-- Putting a local function below another one continues the block. -/
theorem putBelow_continues (base i : Nat) {new : FunctionNode} (block : List FunctionNode)
    (hnew : new.defaultValues = none) : Continues block (putBelow base i new block) := by
  refine ⟨[new.kind], ?_⟩
  rw [putBelow, Lists.map_modify]
  · simp [look, hnew]
  · exact fun _ => rfl

/-- Putting a local function below another one adds one function. -/
theorem putBelow_length (base i : Nat) (new : FunctionNode) (block : List FunctionNode) :
    (putBelow base i new block).length = block.length + 1 := by
  rw [putBelow, List.length_modify, List.length_append, List.length_singleton]

section PlaceEach

variable {keys : LocalKeys} {body : Body} {rest : List Body}

/-- A local function around which no function is found is given back, and nothing is placed. -/
theorem placeEach_cons_of_none (houter : d.outer? keys body = none) :
    placeEach keys (body :: rest) d = (.error body.signature, d) := by
  rw [placeEach, bind_apply, get_apply]
  dsimp only
  rw [houter]
  rfl

/-- A local function is made, goes below the function around it, and is a key for the others. -/
theorem placeEach_cons_of_some {key : String} {outer : FunctionId}
    (houter : d.outer? keys body = some (key, outer)) :
    placeEach keys (body :: rest) d =
      let placed := placeEach (keys ++ [(body.signature.name, d.tree.functions.length)]) rest
        (modifyFunction outer
          (fun node => { node with locals := node.locals ++ [d.tree.functions.length] })
          (d.grow [{ kind := localKind body.signature.name key, body }])).2
      (placed.1.map fun others => d.tree.functions.length :: others, placed.2) := by
  rw [placeEach, bind_apply, get_apply]
  dsimp only
  rw [houter]
  dsimp only
  rw [bind_apply, addFunction_apply]
  dsimp only
  rw [bind_apply, bind_apply]
  rcases placeEach (keys ++ [(body.signature.name, d.tree.functions.length)]) rest _ with
    ⟨result, d'⟩
  cases result <;> rfl

end PlaceEach

/-- Placing local functions extends the block; when all are placed, by one function for each
of them. They are if their names continue the keys. -/
theorem placeEach_grow (locals : List Body)
    (h : Rooted d.tree.functions.length roots block bodies) (keys : LocalKeys)
    (hkeys : ∀ entry ∈ keys,
      entry.2 ∈ List.range' d.tree.functions.length block.length) :
    ∃ result block' bodies', placeEach keys locals (d.grow block) = (result, d.grow block')
      ∧ Rooted d.tree.functions.length roots block' bodies' ∧ Continues block block'
      ∧ (∀ placed, result = .ok placed → bodies'.Perm (bodies ++ locals)
        ∧ block'.length = block.length + locals.length
        ∧ placed
          = List.range' (d.tree.functions.length + block.length) locals.length) ∧
      ((∀ body ∈ locals, LocalKeys.Fits (keys.map Prod.fst) body.signature.name) →
        ∃ placed, result = .ok placed) := by
  have hbound : ∀ entry ∈ keys, entry.2 < (d.grow block).tree.functions.length :=
    fun entry hentry => by
      rw [grow_length]
      exact (List.mem_range'_1.mp (hkeys entry hentry)).2
  induction locals generalizing keys block bodies with
  | nil =>
    refine ⟨.ok [], block, bodies, rfl, h, Continues.refl block, fun placed hplaced => ?_,
      fun _ => ⟨[], rfl⟩⟩
    obtain rfl := Except.ok.inj hplaced
    exact ⟨by simp, rfl, rfl⟩
  | cons body rest ih =>
    cases houter : (d.grow block).outer? keys body with
    | none =>
      refine ⟨.error body.signature, block, bodies, ?_, h, Continues.refl block, ?_,
        fun hfits => ?_⟩
      · exact placeEach_cons_of_none houter
      · intro placed hplaced
        simp at hplaced
      · obtain ⟨found, hfound⟩ := exists_outer? hbound (hfits body List.mem_cons_self)
        simp [houter] at hfound
    | some found =>
      obtain ⟨key, outer⟩ := found
      obtain ⟨entry, hentry, rfl⟩ := outer?_mem houter
      obtain ⟨i, hi, hentry⟩ : ∃ i, i < block.length ∧ entry.2 = d.tree.functions.length + i := by
        have hmem := List.mem_range'_1.mp (hkeys entry hentry)
        exact ⟨entry.2 - d.tree.functions.length, by omega, (Nat.add_sub_of_le hmem.1).symm⟩
      have hplaced := h.putBelow hi (localKind body.signature.name key) body
      have hmore : ∀ e ∈ keys ++ [(body.signature.name, d.tree.functions.length + block.length)],
          e.2 ∈ List.range' d.tree.functions.length
            (putBelow d.tree.functions.length i
              { kind := localKind body.signature.name key, body } block).length := fun e he => by
        rw [putBelow_length, List.mem_range'_1]
        rcases List.mem_append.mp he with he | he
        · have hmem := List.mem_range'_1.mp (hkeys e he)
          omega
        · rw [List.mem_singleton.mp he]
          omega
      obtain ⟨result, block', bodies', hrest, hrooted, hcontinues, hok, hfit⟩ :=
        ih hplaced _ hmore fun e he => by
          rw [grow_length]
          exact (List.mem_range'_1.mp (hmore e he)).2
      refine ⟨result.map fun others => (d.tree.functions.length + block.length) :: others,
        block', bodies', ?_, hrooted, (putBelow_continues _ _ _ rfl).trans hcontinues, ?_,
        fun hfits => ?_⟩
      · rw [placeEach_cons_of_some houter, grow_grow, grow_length, hentry, modifyFunction_grow,
          ← putBelow, hrest]
      · intro placed hresult
        cases result with
        | error signature => simp [Except.map] at hresult
        | ok others =>
          obtain rfl := Except.ok.inj hresult
          obtain ⟨hperm, hlong, rfl⟩ := hok others rfl
          rw [putBelow_length] at hlong ⊢
          refine ⟨?_, ?_, ?_⟩
          · rw [List.append_assoc] at hperm
            exact hperm
          · rw [hlong, List.length_cons]
            omega
          · rw [List.length_cons, List.range'_succ, Nat.add_assoc]
      · obtain ⟨placed, rfl⟩ := hfit fun other hother =>
          (hfits other (List.mem_cons_of_mem _ hother)).mono (by simp)
        exact ⟨_, rfl⟩

/-- Looking for the helper of a function changes nothing, or turns the only one below it into its
helper. -/
theorem attachDefaultValues_cases (id : FunctionId) (d : Draft) :
    attachDefaultValues id d = ((), d) ∨ ∃ node name helper, d.tree.function? id = some node ∧
      node.kind = .localFunction name ∧ localHelpers d.tree node = [helper] ∧
      attachDefaultValues id d = modifyFunction helper
        (fun node => { node with kind := .anonymous }) (modifyFunction id (fun node =>
          { node with locals := node.locals.erase helper, defaultValues := some helper }) d).2 := by
  rw [attachDefaultValues, bind_apply, get_apply]
  dsimp only
  cases hnode : d.tree.function? id with
  | none => exact Or.inl rfl
  | some node =>
    dsimp only
    cases hkind : node.kind with
    | declared name descriptor isConstructor => exact Or.inl rfl
    | anonymous => exact Or.inl rfl
    | localFunction name =>
      rcases hhelpers : localHelpers d.tree node with _ | ⟨helper, _ | ⟨second, rest⟩⟩
      · exact Or.inl rfl
      · exact Or.inr ⟨node, name, helper, rfl, hkind, hhelpers, rfl⟩
      · exact Or.inl rfl

/-- Turning the only helper below a local function into its helper leaves both in the block. -/
theorem attachDefaultValues_grow {i : Nat}
    (h : Rooted d.tree.functions.length roots block bodies)
    (hroot : d.tree.functions.length + i ∉ roots)
    (hnone : ∀ j node, i ≤ j → block[j]? = some node → node.defaultValues = none) :
    ∃ block', attachDefaultValues (d.tree.functions.length + i) (d.grow block) = ((), d.grow block')
      ∧ Rooted d.tree.functions.length roots block' bodies ∧ block'.length = block.length
      ∧ (∀ j node, i < j → block'[j]? = some node → node.defaultValues = none)
      ∧ ∀ f, Unnamed d.tree.functions.length block f
        → Unnamed d.tree.functions.length block' f := by
  rcases attachDefaultValues_cases (d.tree.functions.length + i) (d.grow block) with
    hrun | ⟨node, name, helper, hnode, hkind, hhelpers, hrun⟩
  · exact ⟨block, hrun, h, rfl, fun j node hj => hnone j node hj.le, fun f hf => hf⟩
  · rw [grow_function?] at hnode
    have hlocal : helper ∈ node.locals := by
      have hmem : helper ∈ localHelpers (d.grow block).tree node := by simp [hhelpers]
      exact List.mem_of_mem_filter hmem
    obtain ⟨j, hj, hlt, rfl⟩ := h.exists_later hnode hroot (List.mem_append_right _ hlocal)
    have hlater : block[j]? = some block[j] := List.getElem?_eq_getElem hlt
    have hunname := h.unname (i := j) fun node hnode => hnone j node hj.le hnode
    have hself : (block.modify j fun other => { other with kind := .anonymous })[i]?
        = some node := by
      rw [List.getElem?_modify_ne _ _ (by omega), hnode]
    have hadopt := hunname.adopt hself (by simp [hkind]) (hnone i node le_rfl hnode) hlocal
      ⟨j, { block[j] with kind := .anonymous }, rfl, by simp [hlater], rfl⟩
    rw [← List.modify_modify_ne _ _ _ (by omega : i ≠ j)] at hadopt
    refine ⟨_, ?_, hadopt, by simp, ?_, ?_⟩
    · rw [hrun, modifyFunction_grow, modifyFunction_grow]
    · intro k other hk hother
      obtain ⟨old, hold, rfl⟩ := Lists.getElem?_modify_eq_some hother
      obtain ⟨older, holder, rfl⟩ := Lists.getElem?_modify_eq_some hold
      have hvalues := hnone k older hk.le holder
      rw [if_neg (by omega : ¬ i = k)]
      split <;> exact hvalues
    · intro f hf
      refine Unnamed.modify (Unnamed.modify hf ?_) ?_
      · exact fun _ hanonymous => hanonymous
      · exact fun _ _ => rfl

/-- Turning helpers below local functions into their helpers leaves all in the block. -/
theorem attachAll_grow (start count : Nat)
    (h : Rooted d.tree.functions.length roots block bodies)
    (hroots : ∀ f ∈ roots, f < d.tree.functions.length + start)
    (hnone : ∀ j node, start ≤ j → block[j]? = some node → node.defaultValues = none) :
    ∃ block', (List.range' (d.tree.functions.length + start) count).forM attachDefaultValues
        (d.grow block) = ((), d.grow block')
      ∧ Rooted d.tree.functions.length roots block' bodies
      ∧ ∀ f, Unnamed d.tree.functions.length block f
        → Unnamed d.tree.functions.length block' f := by
  induction count generalizing start block with
  | zero => exact ⟨block, rfl, h, fun f hf => hf⟩
  | succ count ih =>
    have hroot : d.tree.functions.length + start ∉ roots := fun hmem =>
      absurd (hroots _ hmem) (lt_irrefl _)
    obtain ⟨block₁, hfirst, hrooted₁, -, hnone₁, hunnamed₁⟩ :=
      attachDefaultValues_grow h hroot hnone
    obtain ⟨block₂, hrest, hrooted₂, hunnamed₂⟩ := ih (start + 1) hrooted₁
      (fun f hf => (hroots f hf).trans (Nat.lt_succ_self _))
      fun j node hj hnode => hnone₁ j node hj hnode
    refine ⟨block₂, ?_, hrooted₂, fun f hf => hunnamed₂ f (hunnamed₁ f hf)⟩
    rw [List.range'_succ, forM_cons_apply, hfirst]
    exact hrest

/-- Placing the local functions of a class extends its block. When none is left over, it stands
for all of them, and none is if their names continue the keys. -/
theorem placeLocals_grow (locals : List Body)
    (h : Rooted d.tree.functions.length roots block bodies) (keys : LocalKeys)
    (hkeys : ∀ entry ∈ keys,
      entry.2 ∈ List.range' d.tree.functions.length block.length) :
    ∃ unplaced block' bodies', placeLocals keys locals (d.grow block) = (unplaced, d.grow block')
      ∧ Rooted d.tree.functions.length roots block' bodies'
      ∧ (unplaced = none → bodies'.Perm (bodies ++ locals))
      ∧ (∀ f, Unnamed d.tree.functions.length block f
        → Unnamed d.tree.functions.length block' f) ∧
      ((∀ body ∈ locals, LocalKeys.Fits (keys.map Prod.fst) body.signature.name) →
        unplaced = none) := by
  obtain ⟨result, block₁, bodies₁, hrun, hrooted₁, hcontinues, hok, hfit⟩ :=
    placeEach_grow (byNameLength locals) h keys hkeys
  cases result with
  | error signature =>
    refine ⟨some signature, block₁, bodies₁, ?_, hrooted₁, by simp,
      fun f hf => hcontinues.unnamed hf, fun hfits => ?_⟩
    · rw [placeLocals, bind_apply, hrun]
      rfl
    · obtain ⟨placed, hplaced⟩ := hfit fun body hbody =>
        hfits body ((List.mergeSort_perm locals _).mem_iff.mp hbody)
      simp at hplaced
  | ok placed =>
    obtain ⟨hperm, -, rfl⟩ := hok placed rfl
    obtain ⟨block₂, hattach, hrooted₂, hunnamed⟩ :=
      attachAll_grow block.length (byNameLength locals).length hrooted₁
        (fun f hf => (List.mem_range'_1.mp (h.mem_range_of_mem_roots hf)).2)
        fun j node hj hnode => hcontinues.defaultValues_eq_none hj hnode
    refine ⟨none, block₂, bodies₁, ?_, hrooted₂, fun _ => ?_,
      fun f hf => hunnamed f (hcontinues.unnamed hf), fun _ => rfl⟩
    · rw [placeLocals, bind_apply, hrun]
      dsimp only
      rw [bind_apply, hattach]
      rfl
    · exact hperm.trans ((List.mergeSort_perm locals _).append_left bodies)

end Draft

end LineAtlas
