import Mathlib.Data.List.Basic
import LineAtlas.Proofs.Name.DescriptorOffsets

/-!
# The grammar of descriptors

What a descriptor looks like as a text. Exactly the texts of this form are read, each of them has
one way to be taken apart, and none goes on where another one ends.
-/

namespace LineAtlas

/-- A text has the form of a field type: any number of array brackets and then the letter of a
primitive type, or a class name between `L` and `;`. -/
def FieldType.IsForm (text : List Char) : Prop :=
  ∃ (brackets : Nat) (element : List Char), text = List.replicate brackets '[' ++ element ∧
    ((∃ c ∈ ['B', 'C', 'D', 'F', 'I', 'J', 'S', 'Z'], element = [c]) ∨
      ∃ name : List Char, name ≠ [] ∧ ';' ∉ name ∧ element = 'L' :: (name ++ [';']))

namespace FieldType

/-- A field type with a bracket in front is an array of it. -/
theorem IsForm.cons {text : List Char} (h : IsForm text) : IsForm ('[' :: text) := by
  obtain ⟨brackets, element, rfl, helement⟩ := h
  exact ⟨brackets + 1, element, rfl, helement⟩

/-- A field type is written in the form of one. -/
theorem isForm_render {type : FieldType} (hnamed : type.WellNamed) : IsForm type.render := by
  induction type with
  | primitive type =>
    refine ⟨0, _, rfl, Or.inl ⟨type.letter, ?_, rfl⟩⟩
    cases type <;> decide
  | object name => exact ⟨0, _, rfl, Or.inr ⟨name, hnamed.1, hnamed.2, rfl⟩⟩
  | array element ih => exact (ih hnamed).cons

/-- The texts of this form are the written forms of field types. -/
theorem exists_render_of_isForm {text : List Char} (h : IsForm text) :
    ∃ type : FieldType, type.WellNamed ∧ type.render = text := by
  obtain ⟨brackets, element, rfl, helement⟩ := h
  induction brackets with
  | zero =>
    rcases helement with ⟨c, hc, rfl⟩ | ⟨name, hne, hnot, rfl⟩
    · have hletter : ∀ c ∈ ['B', 'C', 'D', 'F', 'I', 'J', 'S', 'Z'],
          ∃ type, Primitive.ofLetter? c = some type := by
        simp only [List.forall_mem_cons]
        exact ⟨⟨_, rfl⟩, ⟨_, rfl⟩, ⟨_, rfl⟩, ⟨_, rfl⟩, ⟨_, rfl⟩, ⟨_, rfl⟩, ⟨_, rfl⟩, ⟨_, rfl⟩,
          by simp⟩
      obtain ⟨type, htype⟩ := hletter c hc
      obtain rfl := Primitive.eq_letter_of_ofLetter? htype
      exact ⟨.primitive type, trivial, rfl⟩
    · exact ⟨.object name, ⟨hne, hnot⟩, rfl⟩
  | succ brackets ih =>
    obtain ⟨type, hnamed, hrender⟩ := ih
    exact ⟨.array type, hnamed, congrArg ('[' :: ·) hrender⟩

end FieldType

namespace Descriptor

/-- A text is made of parameter types in parentheses and a return type, which may be `V`. -/
structure IsMadeOf (parameters : List (List Char)) (returns : List Char) (text : String) :
    Prop where
  /-- Each parameter has the form of a field type. -/
  parameter : ∀ type ∈ parameters, FieldType.IsForm type
  /-- The result is a field type or nothing. -/
  result : returns = ['V'] ∨ FieldType.IsForm returns
  /-- The text is put together from them. -/
  toList_eq : text.toList = '(' :: (parameters.flatten ++ ')' :: returns)

variable {text : String} {d : Descriptor}

/-- A descriptor is written as its parameter types in parentheses and its return type. -/
theorem toList_render (d : Descriptor) : d.render.toList
    = '(' :: (d.parameters.flatMap FieldType.render ++ ')' :: renderReturn d.returns) := by
  rw [render, String.toList_ofList]
  rfl

/-- A text that spells a descriptor is made of the types of the descriptor. -/
theorem IsSpelledBy.isMadeOf (h : d.IsSpelledBy text) :
    IsMadeOf (d.parameters.map FieldType.render) (renderReturn d.returns) text where
  parameter := by
    intro type htype
    obtain ⟨type, hmem, rfl⟩ := List.mem_map.mp htype
    exact FieldType.isForm_render (h.parameters type hmem)
  result := by
    cases hreturns : d.returns with
    | none => exact Or.inl rfl
    | some type => exact Or.inr (FieldType.isForm_render (h.returns type hreturns))
  toList_eq := by rw [h.text_eq, toList_render, List.flatMap_def]

/-- Texts of the form are what some field types are written as. -/
theorem exists_types_of_isForm {texts : List (List Char)}
    (h : ∀ text ∈ texts, FieldType.IsForm text) :
    ∃ types : List FieldType, (∀ type ∈ types, type.WellNamed) ∧
      types.map FieldType.render = texts := by
  induction texts with
  | nil => exact ⟨[], by simp, rfl⟩
  | cons text texts ih =>
    obtain ⟨htext, htexts⟩ := List.forall_mem_cons.mp h
    obtain ⟨type, hnamed, rfl⟩ := FieldType.exists_render_of_isForm htext
    obtain ⟨types, hall, rfl⟩ := ih htexts
    exact ⟨type :: types, List.forall_mem_cons.mpr ⟨hnamed, hall⟩, rfl⟩

/-- A text of the form, or `V`, is what a return type is written as. -/
theorem exists_returns_of_isForm {text : List Char} (h : text = ['V'] ∨ FieldType.IsForm text) :
    ∃ returns : Option FieldType, (∀ type ∈ returns, type.WellNamed) ∧
      renderReturn returns = text := by
  rcases h with rfl | hform
  · exact ⟨none, by simp, rfl⟩
  · obtain ⟨type, hnamed, rfl⟩ := FieldType.exists_render_of_isForm hform
    exact ⟨some type, by simpa using hnamed, rfl⟩

/-- What a text is made of tells the descriptor that it spells. -/
theorem IsMadeOf.exists_isSpelledBy {parameters : List (List Char)} {returns : List Char}
    (h : IsMadeOf parameters returns text) : ∃ d : Descriptor, d.IsSpelledBy text ∧
      d.parameters.map FieldType.render = parameters ∧ renderReturn d.returns = returns := by
  obtain ⟨types, htypes, rfl⟩ := exists_types_of_isForm h.parameter
  obtain ⟨result, hresult, rfl⟩ := exists_returns_of_isForm h.result
  have htext : text.toList = (Descriptor.mk types result).render.toList := by
    rw [h.toList_eq, toList_render, List.flatMap_def]
  exact ⟨⟨types, result⟩, ⟨String.toList_inj.mp htext, htypes, hresult⟩, rfl, rfl⟩

/-- Parsing gives exactly the descriptor that a text spells. -/
theorem parse_eq_ok_iff : parse text = .ok d ↔ d.IsSpelledBy text := by
  rw [← parse?_eq_some_iff, parse]
  cases parse? text with
  | none => simp
  | some found => simp

/-- A text that spells no descriptor is refused with itself. -/
theorem parse_eq_error (h : ∀ d, parse text ≠ .ok d) : parse text = .error ⟨text⟩ := by
  unfold parse at h ⊢
  cases hparse : parse? text with
  | none => rfl
  | some d => exact absurd (by rw [hparse]) (h d)

/-- Nothing can follow a return type. -/
theorem eq_nil_of_renderReturn_append {one two : Option FieldType} {more : List Char}
    (hone : ∀ type ∈ one, type.WellNamed) (htwo : ∀ type ∈ two, type.WellNamed)
    (h : renderReturn one ++ more = renderReturn two) : more = [] := by
  have htext := readReturn?_eq_some_iff.mpr ⟨htwo, h⟩
  cases one with
  | none =>
    cases two with
    | none => simpa [renderReturn] using h
    | some type =>
      obtain ⟨c, tail, hrender, -, hc⟩ := type.exists_render_eq_cons
      rw [renderReturn, renderReturn, hrender] at h
      exact absurd (List.cons.inj h).1.symm hc
  | some type =>
    have hread := FieldType.read?_append (hone type rfl) more
    cases two with
    | none =>
      obtain ⟨c, tail, hrender, -, hc⟩ := type.exists_render_eq_cons
      rw [renderReturn, renderReturn, hrender] at h
      exact absurd (List.cons.inj h).1 hc
    | some other =>
      have hother := FieldType.read?_append (htwo other rfl) []
      rw [List.append_nil] at hother
      have hboth := (congrArg FieldType.read? h).symm.trans hread
      exact (Prod.mk.inj (Option.some.inj (hboth.symm.trans hother))).2

/-- A descriptor does not go on where another one ends. -/
theorem IsSpelledBy.eq_of_prefix {longer : String} {e : Descriptor} (hd : d.IsSpelledBy text)
    (he : e.IsSpelledBy longer) (hfront : text.toList <+: longer.toList) : text = longer := by
  obtain ⟨more, hmore⟩ := hfront
  have hshort := hd.text_eq ▸ toList_render d
  have hlong := he.text_eq ▸ toList_render e
  rw [← hmore, hshort, List.cons_append] at hlong
  obtain ⟨-, hlong⟩ := List.cons.inj hlong
  rw [List.append_assoc, List.cons_append] at hlong
  -- the parameters are read from both texts, and the same return type is left
  have hone := readParameters?_append hd.parameters (renderReturn d.returns ++ more)
  have htwo := readParameters?_append he.parameters (renderReturn e.returns)
  rw [hlong, htwo] at hone
  have hreturns := (Prod.mk.inj (Option.some.inj hone)).2
  have hnil := eq_nil_of_renderReturn_append hd.returns he.returns hreturns.symm
  rw [hnil, List.append_nil] at hmore
  exact String.toList_inj.mp hmore

/-- Exactly the texts that are made of parameter types and a return type are read, each as these
types and as no others, and each is the written form of what is read. A text is refused when it is
a beginning or a continuation of one that is read, and it is named when it is refused. Reading by
offset gives the same answer, and so never cuts inside a character. -/
theorem parse_followsGrammar (text : String) :
    ((∃ d, parse text = .ok d) ↔ ∃ parameters returns, IsMadeOf parameters returns text) ∧
    (∀ d, parse text = .ok d → d.render = text) ∧
    (∀ parameters returns, IsMadeOf parameters returns text →
      ∃ d, parse text = .ok d ∧ d.parameters.map FieldType.render = parameters ∧
        renderReturn d.returns = returns) ∧
    (∀ d, parse text = .ok d → ∀ other : String, other ≠ text →
      other.toList <+: text.toList ∨ text.toList <+: other.toList →
        parse other = .error ⟨other⟩) ∧
    ((∀ d, parse text ≠ .ok d) → parse text = .error ⟨text⟩) ∧
    readByOffset text = match parse text with
      | .ok d => .ok (d.parameters.map (String.ofList ∘ FieldType.render),
          String.ofList (renderReturn d.returns))
      | .error _ => .error .malformed := by
  refine ⟨⟨?_, ?_⟩, ?_, ?_, ?_, parse_eq_error, ?_⟩
  · rintro ⟨d, hd⟩
    exact ⟨_, _, (parse_eq_ok_iff.mp hd).isMadeOf⟩
  · rintro ⟨parameters, returns, hmade⟩
    obtain ⟨d, hd, -⟩ := hmade.exists_isSpelledBy
    exact ⟨d, parse_eq_ok_iff.mpr hd⟩
  · exact fun d hd => (parse_eq_ok_iff.mp hd).text_eq.symm
  · intro parameters returns hmade
    obtain ⟨d, hd, hparts⟩ := hmade.exists_isSpelledBy
    exact ⟨d, parse_eq_ok_iff.mpr hd, hparts⟩
  · intro d hd other hne hfront
    refine parse_eq_error fun e he => hne ?_
    rw [parse_eq_ok_iff] at hd he
    rcases hfront with hshorter | hlonger
    · exact he.eq_of_prefix hd hshorter
    · exact (hd.eq_of_prefix he hlonger).symm
  · rw [readByOffset_eq, parse]
    cases parse? text with
    | none => rfl
    | some d => rfl

end Descriptor

end LineAtlas
