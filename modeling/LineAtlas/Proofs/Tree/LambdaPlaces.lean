import LineAtlas.Proofs.StableSort
import LineAtlas.Proofs.Tree.LocalOrder
import LineAtlas.Proofs.Tree.OuterKeys

/-!
# When lambdas are placed

A lambda may be named after a function that is local itself. Its name is longer then, so that the
function is in place when the lambda is looked up: every placement first comes to the functions
with shorter names, and each of them is a key from there on.
-/

namespace LineAtlas.Draft

open LocalName (IsLambdaIn beforeLastTwo? isLambda isLambda_iff)

/-- The keys of local functions in place: their names stand for the functions made for them. -/
def keysOf (placed : List Body) (ids : List FunctionId) : LocalKeys :=
  (placed.map (·.signature.name)).zip ids

variable {d d' : Draft} {keys : LocalKeys} {ids : List FunctionId}

/-- Placing local functions stops at one of them, or goes on behind them with their keys. -/
theorem placeEach_append (keys : LocalKeys) (before after : List Body) (d : Draft) :
    placeEach keys (before ++ after) d =
      match placeEach keys before d with
      | (.error signature, d') => (.error signature, d')
      | (.ok ids, d') =>
        (placeEach (keys ++ keysOf before ids) after d').map (Except.map (ids ++ ·)) id := by
  induction before generalizing keys d with
  | nil =>
    change placeEach keys after d = (placeEach (keys ++ []) after d).map (Except.map id) id
    rw [List.append_nil]
    rcases placeEach keys after d with ⟨result, d'⟩
    cases result <;> rfl
  | cons body rest ih =>
    rw [List.cons_append]
    cases houter : d.outer? keys body with
    | none => rw [placeEach_cons_of_none houter, placeEach_cons_of_none houter]
    | some found =>
      rw [placeEach_cons_of_some houter, placeEach_cons_of_some houter]
      dsimp only
      rw [ih]
      rcases placeEach (keys ++ [(body.signature.name, d.tree.functions.length)]) rest _ with
        ⟨result, d'⟩
      cases result with
      | error signature => rfl
      | ok ids =>
        have hkeys : keys ++ [(body.signature.name, d.tree.functions.length)] ++ keysOf rest ids
            = keys ++ keysOf (body :: rest) (d.tree.functions.length :: ids) :=
          List.append_assoc _ _ _
        dsimp only [Except.map]
        rw [hkeys]
        rcases placeEach (keys ++ keysOf (body :: rest) (d.tree.functions.length :: ids)) after d'
          with ⟨result, d''⟩
        cases result <;> rfl

/-- Every local function in place is a key for the function that was made for it. -/
theorem exists_key_of_placeEach {placed : List Body} (h : placeEach keys placed d = (.ok ids, d'))
    {body : Body} (hbody : body ∈ placed) :
    ∃ id node, (body.signature.name, id) ∈ keysOf placed ids ∧
      d'.tree.function? id = some node ∧ node.body = body := by
  have hblank : ∀ (i : Nat) (node : FunctionNode), d.tree.functions.length ≤ i →
      d.tree.functions[i]? = some node → node.locals = [] := by
    intro i node hi hnode
    rw [List.getElem?_eq_none hi] at hnode
    cases hnode
  obtain ⟨result, fs, more, hrun, -, horders, hids⟩ :=
    placeEach_orders placed keys (Orders.refl hblank)
  obtain ⟨rfl, rfl⟩ := Prod.mk.inj (hrun.symm.trans h)
  obtain ⟨rfl, rfl⟩ := hids ids rfl
  obtain ⟨i, hi⟩ := List.getElem?_of_mem hbody
  have hlt : i < more.length := (List.getElem?_eq_some_iff.mp hi).1
  have hfunction : (fs.map FunctionNode.body)[d.tree.functions.length + i]? = some body := by
    rw [horders.bodies, List.getElem?_append_right (by simp)]
    simpa using hi
  rw [List.getElem?_map] at hfunction
  obtain ⟨node, hnode, hbody⟩ := Option.map_eq_some_iff.mp hfunction
  refine ⟨d.tree.functions.length + i, node, List.mem_of_getElem? (i := i) ?_, hnode, hbody⟩
  rw [keysOf, List.getElem?_zip_eq_some]
  refine ⟨by rw [List.getElem?_map, hi]; rfl, ?_⟩
  rw [List.getElem?_range' hlt]
  simp

/-- Local functions with shorter names are placed before one with a longer name. -/
theorem size_le_of_byNameLength {locals before after : List Body} {body : Body}
    (h : byNameLength locals = before ++ body :: after) : ∀ other ∈ body :: after,
      body.signature.name.utf8ByteSize ≤ other.signature.name.utf8ByteSize := by
  have hsorted : (byNameLength locals).Pairwise fun a b =>
      a.signature.name.utf8ByteSize ≤ b.signature.name.utf8ByteSize :=
    StableSort.ascending_mergeSort locals
  rw [h] at hsorted
  intro other hother
  rcases List.mem_cons.mp hother with rfl | hother
  · exact le_rfl
  · exact (List.pairwise_cons.mp (List.pairwise_append.mp hsorted).2.1).1 other hother

/-- A lambda that is named after a function with a key is placed below one. -/
theorem exists_outer?_of_isLambdaIn {body : Body} {base : String} {f : FunctionId}
    {node : FunctionNode} (hlambda : IsLambdaIn body.signature.name base)
    (hmem : (base, f) ∈ keys) (hnode : d.tree.function? f = some node) :
    ∃ found, d.outer? keys body = some (base, found) := by
  have hkey : keys.any (·.1 == base) = true :=
    List.any_eq_true.mpr ⟨(base, f), hmem, beq_self_eq_true base⟩
  have houter : keys.outerKey? body.signature.name = some base := by
    rw [LocalKeys.outerKey?, LocalName.lambdaBase?_eq_some_iff.mpr hlambda, Option.filter_some,
      if_pos hkey]
  exact exists_outer?_of_key houter hmem hnode

/-- A name is recognised as that of a lambda just when it is some name with `$lambda$` and a number
behind it. There is only one such name, it is what is left without the last two pieces, and it is
shorter. So when a placement of local functions comes to the lambda, all those that are named so are
before it; and unless the placement has stopped at one of them, each of them is in place, its name
is a key for it, and the lambda is placed below a function with this key. -/
theorem lambdas_followTheirFunctions :
    (∀ name, isLambda name = true ↔ ∃ base, IsLambdaIn name base) ∧
    (∀ name base, IsLambdaIn name base → (∀ other, IsLambdaIn name other → other = base) ∧
      beforeLastTwo? name = some base ∧ base.utf8ByteSize < name.utf8ByteSize) ∧
    ∀ (d : Draft) (keys : LocalKeys) (locals before after : List Body) (body : Body)
      (base : String), byNameLength locals = before ++ body :: after →
        IsLambdaIn body.signature.name base →
      (∀ other ∈ body :: after, other.signature.name ≠ base) ∧
      ((∃ signature d', placeEach keys before d = (.error signature, d') ∧
          placeEach keys (byNameLength locals) d = (.error signature, d')) ∨
        ∃ ids d', placeEach keys before d = (.ok ids, d') ∧
          placeEach keys (byNameLength locals) d
            = (placeEach (keys ++ keysOf before ids) (body :: after) d').map
              (Except.map (ids ++ ·)) id ∧
          ∀ other ∈ locals, other.signature.name = base →
            (∃ f node, (base, f) ∈ keysOf before ids ∧ d'.tree.function? f = some node ∧
              node.body = other) ∧
            ∃ found, d'.outer? (keys ++ keysOf before ids) body = some (base, found)) := by
  refine ⟨fun name => isLambda_iff, fun name base hlambda => ?_, ?_⟩
  · exact ⟨fun other hother => hother.eq hlambda, hlambda.beforeLastTwo?,
      LocalKeys.size_lt_of_isLambdaIn hlambda⟩
  intro d keys locals before after body base hsorted hlambda
  have hbehind : ∀ other ∈ body :: after, other.signature.name ≠ base := by
    rintro other hother rfl
    exact absurd (size_le_of_byNameLength hsorted other hother)
      (LocalKeys.size_lt_of_isLambdaIn hlambda).not_ge
  have hbefore (other : Body) (hother : other ∈ locals) (hname : other.signature.name = base) :
      other ∈ before := by
    have hmem : other ∈ before ++ body :: after := by
      rw [← hsorted]
      exact (List.mergeSort_perm _ _).mem_iff.mpr hother
    exact (List.mem_append.mp hmem).resolve_right fun hmem => hbehind other hmem hname
  refine ⟨hbehind, ?_⟩
  rw [hsorted, placeEach_append]
  rcases hrun : placeEach keys before d with ⟨signature | ids, d'⟩
  · exact Or.inl ⟨signature, d', rfl, rfl⟩
  · refine Or.inr ⟨ids, d', rfl, rfl, fun other hother hname => ?_⟩
    obtain ⟨f, node, hkey, hnode, hbody⟩ :=
      exists_key_of_placeEach hrun (hbefore other hother hname)
    rw [hname] at hkey
    exact ⟨⟨f, node, hkey, hnode, hbody⟩,
      exists_outer?_of_isLambdaIn hlambda (List.mem_append_right keys hkey) hnode⟩

/-- A lambda in a function. -/
def outerLambda : Body := ⟨⟨"f$lambda$0", "()V"⟩, .ofList [2, 4]⟩

/-- A lambda in the lambda. -/
def innerLambda : Body := ⟨⟨"f$lambda$0$lambda$1", "()V"⟩, .ofList [3]⟩

/-- The inner lambda is placed below the outer one, though its method comes first. -/
theorem lambdas_followTheirFunctions_innerFirst :
    let d : Draft := { tree := { path := "Main.kt", functions :=
      [{ kind := .declared "f" (some "") false, body := ⟨⟨"f", "()V"⟩, .ofList [1, 5]⟩ }] } }
    isLambda "f$lambda$0$lambda$1" = true ∧
      beforeLastTwo? "f$lambda$0$lambda$1" = some "f$lambda$0" ∧
      byNameLength [innerLambda, outerLambda] = [outerLambda, innerLambda] ∧
      ∃ ids d', placeEach [("f", 0)] [outerLambda] d = (.ok ids, d') ∧
        ∃ found, d'.outer? ([("f", 0)] ++ keysOf [outerLambda] ids) innerLambda
          = some ("f$lambda$0", found) := by
  intro d
  have hlambda : IsLambdaIn "f$lambda$0$lambda$1" "f$lambda$0" := ⟨"1", by decide, by decide⟩
  have hsorted : byNameLength [innerLambda, outerLambda] = [outerLambda, innerLambda] :=
    (StableSort.mergeSort_eq_of_perm (.swap _ _ _) (by decide)).trans
      (List.mergeSort_of_pairwise (by decide))
  have hfirst : (placeEach [("f", 0)] [outerLambda] d).1 = .ok [1] := by decide +kernel
  obtain ⟨hrecognised, hbase, hplaces⟩ := lambdas_followTheirFunctions
  refine ⟨(hrecognised _).mpr ⟨_, hlambda⟩, (hbase _ _ hlambda).2.1, hsorted, ?_⟩
  rcases (hplaces d [("f", 0)] _ [outerLambda] [] innerLambda _ hsorted hlambda).2 with
    ⟨signature, d', hrun, -⟩ | ⟨ids, d', hrun, -, hplaced⟩
  · rw [hrun] at hfirst
    cases hfirst
  · exact ⟨ids, d', hrun, (hplaced outerLambda (by simp) rfl).2⟩

end LineAtlas.Draft
