import LineAtlas.Name.Descriptor

/-!
# Written forms of descriptors

A descriptor is read from its written form and from no other text. The readers of its parts leave
what follows them: a primitive letter, a semicolon or a parenthesis tells where a part ends.
-/

namespace LineAtlas

namespace Primitive

/-- A letter stands for one primitive type only. -/
theorem eq_letter_of_ofLetter? {c : Char} {type : Primitive} (h : ofLetter? c = some type) :
    c = type.letter := by
  unfold ofLetter? at h
  split at h <;> cases h <;> rfl

end Primitive

namespace FieldType

/-- A type whose class name, if it has one, can be told from what follows it. -/
def WellNamed : FieldType → Prop
  | .primitive _ => True
  | .object name => name ≠ [] ∧ ';' ∉ name
  | .array element => element.WellNamed

variable {text rest : List Char}

/-- A class name is read up to its semicolon, and the rest is left. -/
theorem readName?_append {name : List Char} (hname : ';' ∉ name) (rest : List Char) :
    readName? (name ++ ';' :: rest) = some (name, rest) := by
  induction name with
  | nil => rfl
  | cons c name ih =>
    obtain ⟨hc, hrest⟩ : ¬ ';' = c ∧ ';' ∉ name := by simpa using hname
    rw [List.cons_append, readName?, if_neg (Ne.symm hc), ih hrest]
    rfl

/-- A class name ends before the first semicolon. -/
theorem eq_of_readName? {name : List Char} (h : readName? text = some (name, rest)) :
    ';' ∉ name ∧ text = name ++ ';' :: rest := by
  induction text generalizing name with
  | nil => simp [readName?] at h
  | cons c tail ih =>
    unfold readName? at h
    split at h
    · next hc =>
      obtain ⟨rfl, rfl⟩ := Prod.mk.inj (Option.some.inj h)
      exact ⟨List.not_mem_nil, by rw [hc]; rfl⟩
    · next hc =>
      obtain ⟨⟨inner, after⟩, hinner, heq⟩ := Option.map_eq_some_iff.mp h
      obtain ⟨rfl, rfl⟩ := Prod.mk.inj heq
      obtain ⟨hnot, rfl⟩ := ih hinner
      exact ⟨by simpa using ⟨Ne.symm hc, hnot⟩, rfl⟩

/-- A field type is read back from what it is written as, and the rest is left. -/
theorem read?_append {type : FieldType} (hnamed : type.WellNamed) (rest : List Char) :
    read? (type.render ++ rest) = some (type, rest) := by
  induction type with
  | primitive type => cases type <;> rfl
  | object name =>
    have hrender : (object name).render ++ rest = 'L' :: (name ++ ';' :: rest) := by
      simp [render]
    rw [hrender, read?, if_neg (by decide), if_pos rfl, readName?_append hnamed.2]
    cases name with
    | nil => exact absurd rfl hnamed.1
    | cons c name => rfl
  | array element ih =>
    have hrender : (array element).render ++ rest = '[' :: (element.render ++ rest) := rfl
    rw [hrender, read?, if_pos rfl, ih hnamed]
    rfl

/-- Only what a field type is written as is read as the type. -/
theorem eq_of_read? {type : FieldType} (h : read? text = some (type, rest)) :
    type.WellNamed ∧ text = type.render ++ rest := by
  induction text generalizing type with
  | nil => simp [read?] at h
  | cons c tail ih =>
    unfold read? at h
    split at h
    · next hc =>
      obtain ⟨⟨element, after⟩, helement, heq⟩ := Option.map_eq_some_iff.mp h
      obtain ⟨rfl, rfl⟩ := Prod.mk.inj heq
      obtain ⟨hnamed, rfl⟩ := ih helement
      exact ⟨hnamed, by rw [hc]; rfl⟩
    · split at h
      · next hc =>
        split at h
        · simp at h
        · simp at h
        · next name after hne hname =>
          obtain ⟨rfl, rfl⟩ := Prod.mk.inj (Option.some.inj h)
          obtain ⟨hnot, rfl⟩ := eq_of_readName? hname
          exact ⟨⟨hne, hnot⟩, by simp [hc, render]⟩
      · obtain ⟨primitive, hprimitive, heq⟩ := Option.map_eq_some_iff.mp h
        obtain ⟨rfl, rfl⟩ := Prod.mk.inj heq
        exact ⟨trivial, by rw [Primitive.eq_letter_of_ofLetter? hprimitive]; rfl⟩

/-- A field type is read from its written form, whatever follows it. -/
theorem read?_eq_some_iff {type : FieldType} :
    read? text = some (type, rest) ↔ type.WellNamed ∧ text = type.render ++ rest :=
  ⟨eq_of_read?, fun ⟨hnamed, htext⟩ => htext ▸ read?_append hnamed rest⟩

/-- No field type begins like the end of the parameters or like the missing return type. -/
theorem exists_render_eq_cons (type : FieldType) :
    ∃ c tail, type.render = c :: tail ∧ c ≠ ')' ∧ c ≠ 'V' := by
  cases type with
  | primitive type => cases type <;> exact ⟨_, [], rfl, by decide, by decide⟩
  | object name => exact ⟨'L', name ++ [';'], rfl, by decide, by decide⟩
  | array element => exact ⟨'[', element.render, rfl, by decide, by decide⟩

end FieldType

namespace Descriptor

/-- A descriptor has a text as its written form. -/
structure IsSpelledBy (d : Descriptor) (text : String) : Prop where
  /-- The text is what the descriptor is written as. -/
  text_eq : text = d.render
  /-- Class names of parameters end where they should. -/
  parameters : ∀ type ∈ d.parameters, type.WellNamed
  /-- So does that of the return type. -/
  returns : ∀ type ∈ d.returns, type.WellNamed

variable {text rest : List Char} {types : List FieldType} {returns : Option FieldType}

/-- Parameter types are read back up to the parenthesis, and the rest is left. -/
theorem readParameters?_append (hnamed : ∀ type ∈ types, type.WellNamed) (rest : List Char) :
    readParameters? (types.flatMap FieldType.render ++ ')' :: rest) = some (types, rest) := by
  induction types with
  | nil => rw [List.flatMap_nil, List.nil_append, readParameters?, if_pos rfl]
  | cons type types ih =>
    obtain ⟨htype, htypes⟩ := List.forall_mem_cons.mp hnamed
    have hread := FieldType.read?_append htype (types.flatMap FieldType.render ++ ')' :: rest)
    obtain ⟨c, tail, hrender, hc, -⟩ := type.exists_render_eq_cons
    rw [hrender, List.cons_append] at hread
    rw [List.flatMap_cons, List.append_assoc, hrender, List.cons_append, readParameters?,
      if_neg hc]
    split
    · next hnone => simp [hread] at hnone
    · next found after hfound =>
      obtain ⟨rfl, rfl⟩ := Prod.mk.inj (Option.some.inj (hread.symm.trans hfound))
      rw [ih htypes]
      rfl

/-- Only what parameter types are written as is read as these types. -/
theorem eq_of_readParameters? (h : readParameters? text = some (types, rest)) :
    (∀ type ∈ types, type.WellNamed) ∧ text = types.flatMap FieldType.render ++ ')' :: rest := by
  induction text using readParameters?.induct generalizing types with
  | case1 => simp [readParameters?] at h
  | case2 tail =>
    rw [readParameters?, if_pos rfl] at h
    obtain ⟨rfl, rfl⟩ := Prod.mk.inj (Option.some.inj h)
    exact ⟨by simp, rfl⟩
  | case3 c tail hc hnone =>
    rw [readParameters?, if_neg hc] at h
    split at h
    · simp at h
    · next hsome => simp [hnone] at hsome
  | case4 c tail hc type after hread ih =>
    rw [readParameters?, if_neg hc] at h
    split at h
    · simp at h
    · next found after' hfound =>
      obtain ⟨rfl, rfl⟩ := Prod.mk.inj (Option.some.inj (hread.symm.trans hfound))
      obtain ⟨⟨inner, rest'⟩, hinner, heq⟩ := Option.map_eq_some_iff.mp h
      obtain ⟨rfl, rfl⟩ := Prod.mk.inj heq
      obtain ⟨htypes, rfl⟩ := ih hinner
      obtain ⟨htype, htext⟩ := FieldType.eq_of_read? hread
      exact ⟨List.forall_mem_cons.mpr ⟨htype, htypes⟩, by
        rw [htext, List.flatMap_cons, List.append_assoc]⟩

/-- Parameters are read up to the closing parenthesis. -/
theorem readParameters?_eq_some_iff : readParameters? text = some (types, rest) ↔
    (∀ type ∈ types, type.WellNamed) ∧ text = types.flatMap FieldType.render ++ ')' :: rest :=
  ⟨eq_of_readParameters?, fun ⟨hnamed, htext⟩ => htext ▸ readParameters?_append hnamed rest⟩

/-- A return type ends its text. -/
theorem readReturn?_eq_some_iff : readReturn? text = some returns ↔
    (∀ type ∈ returns, type.WellNamed) ∧ text = renderReturn returns := by
  constructor
  · intro h
    unfold readReturn? at h
    split at h
    · obtain rfl := Option.some.inj h
      exact ⟨by simp, rfl⟩
    · split at h
      · next type hread =>
        obtain rfl := Option.some.inj h
        obtain ⟨hnamed, htext⟩ := FieldType.read?_eq_some_iff.mp hread
        exact ⟨by simpa using hnamed, htext.trans (List.append_nil _)⟩
      · simp at h
  · rintro ⟨hnamed, rfl⟩
    cases returns with
    | none => rfl
    | some type =>
      have hread := FieldType.read?_append (hnamed type rfl) []
      rw [List.append_nil] at hread
      obtain ⟨c, tail, hrender, -, hc⟩ := type.exists_render_eq_cons
      rw [renderReturn, readReturn?, hread]
      intro hvoid
      rw [hrender] at hvoid
      exact hc (List.cons.inj hvoid).1

/-- A descriptor is read from its written form only. -/
theorem parse?_eq_some_iff {text : String} {d : Descriptor} :
    parse? text = some d ↔ d.IsSpelledBy text := by
  constructor
  · intro h
    unfold parse? at h
    split at h
    · next tail htext =>
      obtain ⟨⟨types, rest⟩, htypes, hrest⟩ := Option.bind_eq_some_iff.mp h
      obtain ⟨returns, hreturns, heq⟩ := Option.bind_eq_some_iff.mp hrest
      obtain rfl := Option.some.inj heq
      obtain ⟨hnamed, rfl⟩ := readParameters?_eq_some_iff.mp htypes
      obtain ⟨hreturn, rfl⟩ := readReturn?_eq_some_iff.mp hreturns
      exact ⟨by rw [render, ← String.ofList_toList (s := text), htext]; rfl, hnamed, hreturn⟩
    · simp at h
  · rintro ⟨rfl, hnamed, hreturn⟩
    have htext : d.render.toList
        = '(' :: (d.parameters.flatMap FieldType.render ++ ')' :: renderReturn d.returns) := by
      rw [render, String.toList_ofList]
      rfl
    have hparameters := readParameters?_append hnamed (renderReturn d.returns)
    have hreturns := readReturn?_eq_some_iff.mpr ⟨hreturn, rfl⟩
    rw [parse?, htext]
    exact Option.bind_eq_some_iff.mpr ⟨_, hparameters,
      Option.bind_eq_some_iff.mpr ⟨_, hreturns, rfl⟩⟩

end Descriptor

end LineAtlas
