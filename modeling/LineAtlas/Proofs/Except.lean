/-!
# Computations that may fail

What a computation made of several steps gives, from what its steps give, and back.
-/

namespace LineAtlas

variable {ε α β : Type}

/-- The two parts of a computation that succeeds. -/
theorem Except.bind_eq_ok {p : Except ε α} {q : α → Except ε β} {r : β}
    (h : (p >>= q) = .ok r) : ∃ a, p = .ok a ∧ q a = .ok r := by
  cases p with
  | error failure => simp [bind, Except.bind] at h
  | ok a => exact ⟨a, rfl, h⟩

/-- A computation fails in one of its two parts. -/
theorem Except.bind_eq_error {p : Except ε α} {q : α → Except ε β} {e : ε}
    (h : (p >>= q) = .error e) : p = .error e ∨ ∃ a, p = .ok a ∧ q a = .error e := by
  cases p with
  | error failure => exact Or.inl (congrArg _ (Except.error.inj h))
  | ok a => exact Or.inr ⟨a, rfl, h⟩

/-- What a mapped computation gives comes from a value of the computation. -/
theorem Except.map_eq_ok {f : α → β} {p : Except ε α} {b : β}
    (h : f <$> p = .ok b) : ∃ a, p = .ok a ∧ f a = b := by
  cases p with
  | error e => simp [Functor.map, Except.map] at h
  | ok a => exact ⟨a, rfl, Except.ok.inj h⟩

/-- A computation succeeds when both of its parts do. -/
theorem Except.bind_ok {p : Except ε α} {q : α → Except ε β} {a : α} {r : β} (hp : p = .ok a)
    (hq : q a = .ok r) : (p >>= q) = .ok r := by
  rw [hp]
  exact hq

/-- A computation that gives a value gives its image when it is mapped. -/
theorem Except.map_ok {p : Except ε α} {a : α} (f : α → β) (hp : p = .ok a) :
    f <$> p = .ok (f a) := by
  rw [hp]
  rfl

/-- A step that succeeds for each of several items. -/
theorem Except.mapM_ok {ι : Type} {f : α → Except ε β} {items : List ι} {input : ι → α}
    {output : ι → β} (h : ∀ i ∈ items, f (input i) = .ok (output i)) :
    (items.map input).mapM f = .ok (items.map output) := by
  induction items with
  | nil => rfl
  | cons i rest ih =>
    rw [List.map_cons, List.mapM_cons]
    refine Except.bind_ok (h i List.mem_cons_self) (Except.bind_ok (ih fun other hother => ?_) rfl)
    exact h other (List.mem_cons_of_mem i hother)

/-- What every result of a step satisfies holds of the results of many. -/
theorem Except.forall_of_mapM {f : α → Except ε β} {P : β → Prop}
    (hf : ∀ a b, f a = .ok b → P b) {items : List α} {results : List β}
    (h : items.mapM f = .ok results) : ∀ b ∈ results, P b := by
  induction items generalizing results with
  | nil =>
    rw [List.mapM_nil] at h
    obtain rfl := Except.ok.inj h
    simp
  | cons a rest ih =>
    rw [List.mapM_cons] at h
    obtain ⟨b, hb, h⟩ := Except.bind_eq_ok h
    obtain ⟨bs, hbs, h⟩ := Except.bind_eq_ok h
    obtain rfl := Except.ok.inj h
    intro other hother
    rcases List.mem_cons.mp hother with rfl | hother
    · exact hf a _ hb
    · exact ih hbs other hother

/-- The results of a step stand where the items stand that it is taken for. -/
theorem Except.getElem?_of_mapM {f : α → Except ε β} {items : List α} {results : List β}
    (h : items.mapM f = .ok results) {i : Nat} {a : α} (ha : items[i]? = some a) :
    ∃ b, results[i]? = some b ∧ f a = .ok b := by
  induction items generalizing results i with
  | nil => simp at ha
  | cons first rest ih =>
    rw [List.mapM_cons] at h
    obtain ⟨b, hb, h⟩ := Except.bind_eq_ok h
    obtain ⟨bs, hbs, h⟩ := Except.bind_eq_ok h
    obtain rfl := Except.ok.inj h
    cases i with
    | zero =>
      obtain rfl := Option.some.inj ha
      exact ⟨b, rfl, hb⟩
    | succ i => exact ih hbs ha

/-- Two lists are worked off one after the other, when both succeed. -/
theorem Except.mapM_append_ok {f : α → Except ε β} {one two : List α} {first second : List β}
    (hone : one.mapM f = .ok first) (htwo : two.mapM f = .ok second) :
    (one ++ two).mapM f = .ok (first ++ second) := by
  rw [List.mapM_append]
  exact Except.bind_ok hone (Except.bind_ok htwo rfl)

end LineAtlas
