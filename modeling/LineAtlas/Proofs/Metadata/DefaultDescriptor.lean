import Mathlib.Data.Set.List
import LineAtlas.Metadata.DefaultDescriptor
import LineAtlas.Proofs.Lists
import LineAtlas.Proofs.Name.DescriptorGrammar
import LineAtlas.Proofs.Text.Split

/-!
# Derived descriptors are descriptors

A class stands for one field type, whatever its name is, as long as the name can stand in a
descriptor. So the descriptor that is derived from declared types is read as the field types of
these, in order. It is there whenever all the types are classes.
-/

namespace LineAtlas.Metadata

/-- A value that is looked up stands behind its key in the list. -/
theorem mem_of_valueOf? {entries : List (String × String)} {key value : String}
    (h : valueOf? entries key = some value) : (key, value) ∈ entries := by
  obtain ⟨entry, hfind, rfl⟩ := Option.map_eq_some_iff.mp h
  have hkey : entry.1 = key := by simpa using List.find?_some hfind
  rw [← hkey]
  exact List.mem_of_find?_eq_some hfind

/-- The name of a class, between its marks, is a field type. -/
theorem isForm_objectType {internal : String} (hsome : internal.toList ≠ [])
    (hfree : ';' ∉ internal.toList) : FieldType.IsForm (objectType internal).toList := by
  refine ⟨0, (objectType internal).toList, rfl, Or.inr ⟨internal.toList, hsome, hfree, ?_⟩⟩
  simp [objectType]

section Counterparts

variable {simple text : String}

/-- What the list of primitive types gives is a field type. -/
theorem isForm_primitive (h : valueOf? primitiveNames simple = some text) :
    FieldType.IsForm text.toList := by
  have hletters : ∀ entry ∈ primitiveNames,
      ∃ c ∈ ['B', 'C', 'D', 'F', 'I', 'J', 'S', 'Z'], entry.2.toList = [c] := by
    simp [primitiveNames]
  exact ⟨0, text.toList, rfl, Or.inl (hletters _ (mem_of_valueOf? h))⟩

/-- A primitive type stands for a field type, and so does an array of them. -/
theorem isForm_primitiveType? (h : primitiveType? simple = some text) :
    FieldType.IsForm text.toList := by
  rw [primitiveType?, Option.orElse_eq_or] at h
  rcases Option.or_eq_some_iff.mp h with hletter | ⟨-, harray⟩
  · exact isForm_primitive hletter
  · obtain ⟨element, -, helement⟩ := Option.bind_eq_some_iff.mp harray
    obtain ⟨letter, hletter, htext⟩ := Option.bind_eq_some_iff.mp helement
    obtain rfl := Option.some.inj htext
    rw [String.toList_append]
    exact (isForm_primitive hletter).cons

/-- A class that has another name in class files stands for a field type. -/
theorem isForm_renamed {internal : String} (h : valueOf? renamedClasses simple = some internal) :
    FieldType.IsForm (objectType internal).toList := by
  have hnames : ∀ entry ∈ renamedClasses, entry.2.toList ≠ [] ∧ ';' ∉ entry.2.toList := by decide
  obtain ⟨hsome, hfree⟩ := hnames _ (mem_of_valueOf? h)
  exact isForm_objectType hsome hfree

/-- A class that keeps its simple name stands for a field type. -/
theorem isForm_basic (h : simple ∈ basicNames) :
    FieldType.IsForm (objectType ("java/lang/" ++ simple)).toList := by
  have hnames : ∀ name ∈ basicNames, ';' ∉ ("java/lang/" ++ name).toList := by decide
  exact isForm_objectType (by simp) (hnames simple h)

/-- A collection stands for a field type. -/
theorem isForm_collectionType? (h : collectionType? simple = some text) :
    FieldType.IsForm text.toList := by
  have hnames : ∀ name ∈ collectionNames, ';' ∉ ("java/util/" ++ name).toList := by decide
  obtain ⟨name, -, hname⟩ := Option.bind_eq_some_iff.mp h
  dsimp only at hname
  split at hname
  next hlisted =>
    obtain rfl := Option.some.inj hname
    exact isForm_objectType (by simp) (hnames _ (List.contains_iff_mem.mp hlisted))
  next => simp at hname

/-- A number of arguments is spelled in digits. -/
theorem not_mem_of_isArity {arity : String} (h : isArity arity = true) : ';' ∉ arity.toList := by
  rw [isArity, Text.decimal?] at h
  split at h
  next hdigits => exact Text.not_mem_of_isDigits rfl hdigits
  next => simp at h

/-- A function type stands for a field type, whatever the number of its parameters. -/
theorem isForm_functionType? (h : functionType? simple = some text) :
    FieldType.IsForm text.toList := by
  obtain ⟨arity, -, harity⟩ := Option.bind_eq_some_iff.mp h
  split at harity
  next hnumber =>
    obtain rfl := Option.some.inj harity
    refine isForm_objectType (by simp) ?_
    rw [String.toList_append, List.mem_append, not_or]
    exact ⟨by decide, not_mem_of_isArity hnumber⟩
  next => simp at harity

/-- The type of a reference to a function stands for a field type. -/
theorem isForm_functionReferenceType? (h : functionReferenceType? simple = some text) :
    FieldType.IsForm text.toList := by
  obtain ⟨arity, -, harity⟩ := Option.bind_eq_some_iff.mp h
  split at harity
  next =>
    obtain rfl := Option.some.inj harity
    exact isForm_objectType (by decide) (by decide)
  next => simp at harity

/-- The counterpart of a companion object is a field type. -/
theorem isForm_companionType? (h : companionType? simple = some text) :
    FieldType.IsForm text.toList := by
  have hnames : ∀ name ∈ companionNames,
      ';' ∉ ("kotlin/jvm/internal/" ++ name ++ "CompanionObject").toList := by decide +kernel
  obtain ⟨owner, -, howner⟩ := Option.bind_eq_some_iff.mp h
  split at howner
  next hlisted =>
    obtain rfl := Option.some.inj howner
    exact isForm_objectType (by simp) (hnames _ (List.contains_iff_mem.mp hlisted))
  next => simp at howner

/-- Every counterpart is a field type, but for the one that stands for no value. -/
theorem isForm_counterpart? (h : counterpart? simple = some text) (hunit : simple ≠ "Unit") :
    FieldType.IsForm text.toList := by
  simp only [counterpart?, Option.orElse_eq_orElse, Option.orElse_eq_or,
    Option.or_eq_some_iff] at h
  rcases h with hprimitive | ⟨-, hnothing | ⟨-, hrenamed | ⟨-, hbasic | ⟨-, hcollection |
    ⟨-, hfunction | ⟨-, hreference | ⟨-, hcompanion⟩⟩⟩⟩⟩⟩⟩
  · exact isForm_primitiveType? hprimitive
  · rw [if_neg (by simpa using hunit)] at hnothing
    simp at hnothing
  · obtain ⟨internal, hinternal, rfl⟩ := Option.map_eq_some_iff.mp hrenamed
    exact isForm_renamed hinternal
  · split at hbasic
    next hlisted =>
      obtain rfl := Option.some.inj hbasic
      exact isForm_basic (List.contains_iff_mem.mp hlisted)
    next => simp at hbasic
  · exact isForm_collectionType? hcollection
  · exact isForm_functionType? hfunction
  · exact isForm_functionReferenceType? hreference
  · exact isForm_companionType? hcompanion

end Counterparts

variable {name : String}

/-- A class stands for a field type when its name can stand in a descriptor. -/
theorem isForm_mapClass (hsome : name ≠ "") (hfree : ';' ∉ name.toList)
    (hunit : name ≠ "kotlin/Unit") : FieldType.IsForm (mapClass name).toList := by
  rw [mapClass]
  cases hcounterpart : (Text.dropHead? "kotlin/" name).bind counterpart? with
  | some text =>
    obtain ⟨simple, hsimple, htext⟩ := Option.bind_eq_some_iff.mp hcounterpart
    refine isForm_counterpart? htext fun heq => hunit ?_
    rw [Text.dropHead?_eq_some_iff.mp hsimple, heq]
    rfl
  | none =>
    rw [Option.getD_none]
    refine isForm_objectType ?_ ?_
    · rw [Text.toList_replaceChar, Ne, List.map_eq_nil_iff, String.toList_eq_nil_iff]
      exact hsome
    · -- a semicolon is neither a dot nor made from one
      rw [Text.toList_replaceChar, List.mem_map]
      rintro ⟨c, hmem, hc⟩
      by_cases hdot : c = '.'
      · rw [if_pos hdot] at hc
        exact absurd hc (by decide)
      · rw [if_neg hdot] at hc
        exact hfree (hc ▸ hmem)

/-- The class of functions without result stands for no value. -/
theorem mapClass_unit : mapClass "kotlin/Unit" = "V" := by
  decide +kernel

/-- The class that stands for no value can only be returned. -/
theorem isReturn_mapClass (hsome : name ≠ "") (hfree : ';' ∉ name.toList) :
    (mapClass name).toList = ['V'] ∨ FieldType.IsForm (mapClass name).toList := by
  by_cases hunit : name = "kotlin/Unit"
  · left
    rw [hunit, mapClass_unit]
    rfl
  · right
    exact isForm_mapClass hsome hfree hunit

/-- A declared type that is a class. -/
def TypeRef.IsClass (t : TypeRef) : Prop := ∃ name, t.className? = some name

/-- The classes of the receiver, when there is one, and of the parameters, in order. Nothing stands
for a type that is not given or is no class. -/
def inputClasses (receiver : Option TypeRef) (parameters : List Parameter) :
    List (Option String) :=
  receiver.toList.map TypeRef.className?
    ++ parameters.map fun p => p.type.bind TypeRef.className?

/-- A text is read as a descriptor whose parts are written in a given way. -/
def ReadsAs (text : String) (parameters : List String) (returns : String) : Prop :=
  ∃ d, Descriptor.parse text = .ok d ∧
    d.parameters.map (String.ofList ∘ FieldType.render) = parameters ∧
    String.ofList (Descriptor.renderReturn d.returns) = returns

section Derivation

variable {receiver : Option TypeRef} {parameters : List Parameter} {returns : Option TypeRef}
  {text : String}

/-- Field types are put together when all that they stand for are classes. -/
theorem join_mapM_eq_some_iff {ι : Type} {items : List ι} {find : ι → Option String} :
    String.join <$> items.mapM (fun i => (find i).map mapClass) = some text ↔
      ∃ names : List String, items.map find = names.map some ∧
        text = String.join (names.map mapClass) := by
  rw [Option.map_eq_map, Option.map_eq_some_iff]
  simp only [Lists.mapM_map_eq_some_iff]
  constructor
  · rintro ⟨texts, ⟨names, hnames, rfl⟩, rfl⟩
    exact ⟨names, hnames, rfl⟩
  · rintro ⟨names, hnames, rfl⟩
    exact ⟨names.map mapClass, ⟨names, hnames, rfl⟩, rfl⟩

/-- Parameters have a text exactly if all their types are classes. -/
theorem mapParameters?_eq_some_iff : mapParameters? parameters = some text ↔
    ∃ names : List String, inputClasses none parameters = names.map some ∧
      text = String.join (names.map mapClass) := by
  have hmapped : (fun p : Parameter => p.type.bind mapType?)
      = fun p => (p.type.bind TypeRef.className?).map mapClass := by
    funext p
    rw [Option.map_bind]
    rfl
  rw [mapParameters?, hmapped, join_mapM_eq_some_iff]
  rfl

/-- What stands for the receiver in front of the parameters. -/
def receiverType? (receiver : Option TypeRef) : Option String := receiver.elim (some "") mapType?

/-- A receiver has a text exactly if its type is a class; where there is none the text is empty. -/
theorem receiverType?_eq_some_iff : receiverType? receiver = some text ↔
    ∃ names : List String, receiver.toList.map TypeRef.className? = names.map some ∧
      text = String.join (names.map mapClass) := by
  rw [← join_mapM_eq_some_iff]
  cases receiver with
  | none => rfl
  | some type =>
    have hjoin (written : String) : String.join [written] = written := by
      rw [String.join_cons, String.join_nil, String.append_empty]
    rw [receiverType?, Option.elim_some, mapType?, Option.toList_some, List.mapM_cons]
    cases type.className? with
    | none => rfl
    | some name =>
      rw [Option.map_some, ← hjoin (mapClass name)]
      rfl

/-- The descriptor of a function is put together from its receiver, its parameters and its
result. -/
theorem functionDescriptor?_eq : functionDescriptor? receiver parameters returns
    = (receiverType? receiver).bind fun front => (mapParameters? parameters).bind fun inner =>
      (returns.bind mapType?).bind fun result =>
        some ("(" ++ front ++ inner ++ ")" ++ result) := by
  cases receiver <;> rfl

/-- A function has a derived descriptor exactly if all its types are classes. -/
theorem functionDescriptor?_eq_some_iff :
    functionDescriptor? receiver parameters returns = some text ↔
      ∃ (names : List String) (name : String),
        inputClasses receiver parameters = names.map some ∧
        returns.bind TypeRef.className? = some name ∧
        text = "(" ++ String.join (names.map mapClass) ++ ")" ++ mapClass name := by
  have hreturn (found : String) : returns.bind mapType? = some found ↔
      ∃ name, returns.bind TypeRef.className? = some name ∧ mapClass name = found := by
    rw [← Option.map_eq_some_iff, Option.map_bind]
    rfl
  rw [functionDescriptor?_eq]
  constructor
  · intro h
    obtain ⟨front, hfront, h⟩ := Option.bind_eq_some_iff.mp h
    obtain ⟨inner, hinner, h⟩ := Option.bind_eq_some_iff.mp h
    obtain ⟨result, hresult, h⟩ := Option.bind_eq_some_iff.mp h
    obtain rfl := Option.some.inj h
    obtain ⟨own, hown, rfl⟩ := receiverType?_eq_some_iff.mp hfront
    obtain ⟨names, hnames, rfl⟩ := mapParameters?_eq_some_iff.mp hinner
    obtain ⟨name, hname, rfl⟩ := (hreturn result).mp hresult
    refine ⟨own ++ names, name, ?_, hname, ?_⟩
    · rw [List.map_append, ← hown, ← hnames]
      rfl
    · rw [List.map_append, String.join_append, ← String.append_assoc]
  · rintro ⟨names, name, hnames, hname, rfl⟩
    obtain ⟨own, others, rfl, hown, hothers⟩ := List.map_eq_append_iff.mp hnames.symm
    have hfront := receiverType?_eq_some_iff.mpr ⟨own, hown.symm, rfl⟩
    have hinner := mapParameters?_eq_some_iff.mpr ⟨others, hothers.symm, rfl⟩
    rw [hfront, hinner, (hreturn (mapClass name)).mpr ⟨name, hname, rfl⟩, List.map_append,
      String.join_append, ← String.append_assoc]
    rfl

/-- A constructor has a derived descriptor exactly if all its types are classes. -/
theorem constructorDescriptor?_eq_some_iff : constructorDescriptor? parameters = some text ↔
    ∃ names : List String, inputClasses none parameters = names.map some ∧
      text = "(" ++ String.join (names.map mapClass) ++ ")V" := by
  constructor
  · intro h
    obtain ⟨inner, hinner, h⟩ := Option.bind_eq_some_iff.mp h
    obtain rfl := Option.some.inj h
    obtain ⟨names, hnames, rfl⟩ := mapParameters?_eq_some_iff.mp hinner
    exact ⟨names, hnames, rfl⟩
  · rintro ⟨names, hnames, rfl⟩
    exact Option.bind_eq_some_iff.mpr ⟨_, mapParameters?_eq_some_iff.mpr ⟨names, hnames, rfl⟩, rfl⟩

/-- All inputs have a class when the receiver and the types of the parameters are classes. -/
theorem exists_inputClasses_iff :
    (∃ names : List String, inputClasses receiver parameters = names.map some) ↔
      (∀ type ∈ receiver, type.IsClass) ∧ ∀ p ∈ parameters, ∃ type ∈ p.type, type.IsClass := by
  have hrange : (∃ names : List String, inputClasses receiver parameters = names.map some) ↔
      inputClasses receiver parameters ∈ Set.range (List.map some) := by
    simp only [Set.mem_range, eq_comm]
  have hparameter (p : Parameter) : p.type.bind TypeRef.className? ∈ Set.range some ↔
      ∃ type ∈ p.type, type.IsClass := by
    cases htype : p.type with
    | none => simp
    | some type => simp [TypeRef.IsClass, eq_comm]
  rw [hrange, Set.range_list_map, Set.mem_ofPred_eq, inputClasses, List.forall_mem_append]
  simp only [List.forall_mem_map, hparameter]
  refine and_congr_left' ?_
  simp [TypeRef.IsClass, eq_comm]

end Derivation

/-- A text made of the field types of classes is read as these. -/
theorem readsAs_of_names {names : List String} {returns : String}
    (hnames : ∀ name ∈ names, name ≠ "" ∧ ';' ∉ name.toList ∧ name ≠ "kotlin/Unit")
    (hreturns : returns.toList = ['V'] ∨ FieldType.IsForm returns.toList) :
    ReadsAs ("(" ++ String.join (names.map mapClass) ++ ")" ++ returns) (names.map mapClass)
      returns := by
  have hmade : Descriptor.IsMadeOf ((names.map mapClass).map String.toList) returns.toList
      ("(" ++ String.join (names.map mapClass) ++ ")" ++ returns) := by
    refine ⟨?_, hreturns, ?_⟩
    · intro type htype
      simp only [List.map_map, List.mem_map] at htype
      obtain ⟨name, hmem, rfl⟩ := htype
      obtain ⟨hsome, hfree, hunit⟩ := hnames name hmem
      exact isForm_mapClass hsome hfree hunit
    · simp [String.toList_join, List.flatMap_def]
  obtain ⟨d, hd, hparameters, hresult⟩ := hmade.exists_isSpelledBy
  refine ⟨d, Descriptor.parse_eq_ok_iff.mpr hd, ?_, ?_⟩
  · rw [← List.map_map, hparameters, List.map_map]
    simp [Function.comp_def]
  · rw [hresult, String.ofList_toList]

/-- What is derived from declared types is a descriptor of their field types. It is derived just
when the type of the result is given and this type, the receiver if there is one, and the type of
every parameter are classes. When the names of these classes can stand in a descriptor and no input
is the class that stands for no value, what is derived is read as the field type of the receiver,
followed by those of the parameters in order, and as the field type of the result. The same holds
for a constructor, which has neither receiver nor result. -/
theorem derivedDescriptors_wellFormed (receiver : Option TypeRef) (parameters : List Parameter)
    (returns : Option TypeRef) :
    ((functionDescriptor? receiver parameters returns).isSome ↔
      (∃ type ∈ returns, type.IsClass) ∧ (∀ type ∈ receiver, type.IsClass) ∧
        ∀ p ∈ parameters, ∃ type ∈ p.type, type.IsClass) ∧
    ((constructorDescriptor? parameters).isSome ↔
      ∀ p ∈ parameters, ∃ type ∈ p.type, type.IsClass) ∧
    (∀ (names : List String) (name : String), inputClasses receiver parameters = names.map some →
      returns.bind TypeRef.className? = some name →
      (∀ other ∈ name :: names, other ≠ "" ∧ ';' ∉ other.toList) → "kotlin/Unit" ∉ names →
        ∃ text, functionDescriptor? receiver parameters returns = some text ∧
          ReadsAs text (names.map mapClass) (mapClass name)) ∧
    ∀ names : List String, inputClasses none parameters = names.map some →
      (∀ other ∈ names, other ≠ "" ∧ ';' ∉ other.toList) → "kotlin/Unit" ∉ names →
        ∃ text, constructorDescriptor? parameters = some text ∧
          ReadsAs text (names.map mapClass) "V" := by
  have hreturn : (∃ name, returns.bind TypeRef.className? = some name)
      ↔ ∃ type ∈ returns, type.IsClass := by
    cases returns with
    | none => simp
    | some type => simp [TypeRef.IsClass]
  refine ⟨?_, ?_, ?_, ?_⟩
  · rw [Option.isSome_iff_exists, ← hreturn, ← exists_inputClasses_iff]
    simp only [functionDescriptor?_eq_some_iff]
    constructor
    · rintro ⟨text, names, name, hnames, hname, -⟩
      exact ⟨⟨name, hname⟩, names, hnames⟩
    · rintro ⟨⟨name, hname⟩, names, hnames⟩
      exact ⟨_, names, name, hnames, hname, rfl⟩
  · have hinputs : (∃ names : List String, inputClasses none parameters = names.map some) ↔ _ :=
      exists_inputClasses_iff
    rw [Option.isSome_iff_exists]
    simp only [constructorDescriptor?_eq_some_iff]
    constructor
    · rintro ⟨text, names, hnames, -⟩
      exact (hinputs.mp ⟨names, hnames⟩).2
    · intro hall
      obtain ⟨names, hnames⟩ := hinputs.mpr ⟨by simp, hall⟩
      exact ⟨_, names, hnames, rfl⟩
  · intro names name hnames hname hall hunit
    obtain ⟨⟨hsome, hfree⟩, hothers⟩ := List.forall_mem_cons.mp hall
    refine ⟨_, functionDescriptor?_eq_some_iff.mpr ⟨names, name, hnames, hname, rfl⟩,
      readsAs_of_names (fun other hother => ?_) (isReturn_mapClass hsome hfree)⟩
    exact ⟨(hothers other hother).1, (hothers other hother).2, ne_of_mem_of_not_mem hother hunit⟩
  · intro names hnames hall hunit
    refine ⟨_, constructorDescriptor?_eq_some_iff.mpr ⟨names, hnames, rfl⟩, ?_⟩
    have hread : ReadsAs ("(" ++ String.join (names.map mapClass) ++ ")" ++ "V")
        (names.map mapClass) "V" := by
      refine readsAs_of_names (fun other hother => ?_) (Or.inl rfl)
      exact ⟨(hall other hother).1, (hall other hother).2, ne_of_mem_of_not_mem hother hunit⟩
    rwa [String.append_assoc] at hread

/-- A nested class as the receiver, an array and a function type as parameters, and no result. -/
theorem derivedDescriptors_wellFormed_extension :
    functionDescriptor? (some ⟨some (.classRef "com/example/Outer.Inner"), true⟩)
        [⟨"numbers", false, some ⟨some (.classRef "kotlin/IntArray"), false⟩, none⟩,
          ⟨"block", true, some ⟨some (.classRef "kotlin/Function2"), false⟩, none⟩]
        (some ⟨some (.classRef "kotlin/Unit"), false⟩)
      = some "(Lcom/example/Outer$Inner;[ILkotlin/jvm/functions/Function2;)V" ∧
    ReadsAs "(Lcom/example/Outer$Inner;[ILkotlin/jvm/functions/Function2;)V"
      ["Lcom/example/Outer$Inner;", "[I", "Lkotlin/jvm/functions/Function2;"] "V" := by
  obtain ⟨text, htext, hread⟩ := (derivedDescriptors_wellFormed
    (some ⟨some (.classRef "com/example/Outer.Inner"), true⟩)
    [⟨"numbers", false, some ⟨some (.classRef "kotlin/IntArray"), false⟩, none⟩,
      ⟨"block", true, some ⟨some (.classRef "kotlin/Function2"), false⟩, none⟩]
    (some ⟨some (.classRef "kotlin/Unit"), false⟩)).2.2.1
    ["com/example/Outer.Inner", "kotlin/IntArray", "kotlin/Function2"] "kotlin/Unit" rfl rfl
    (by decide) (by decide)
  have hvalue : text = "(Lcom/example/Outer$Inner;[ILkotlin/jvm/functions/Function2;)V" := by
    refine Option.some.inj (htext.symm.trans ?_)
    decide +kernel
  have htypes : ["com/example/Outer.Inner", "kotlin/IntArray", "kotlin/Function2"].map mapClass
      = ["Lcom/example/Outer$Inner;", "[I", "Lkotlin/jvm/functions/Function2;"] := by
    decide +kernel
  rw [hvalue] at htext
  rw [hvalue, htypes, mapClass_unit] at hread
  exact ⟨htext, hread⟩

end LineAtlas.Metadata
