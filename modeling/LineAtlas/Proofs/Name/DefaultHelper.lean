import LineAtlas.Name.DefaultHelper
import LineAtlas.Proofs.Name.Descriptor
import LineAtlas.Proofs.Text.Split

/-!
# The shape of helpers

A helper is recognised by its name and by the written form of its descriptor: the parameters of the
declaration, behind at most one receiver for a function, then the masks, then the marker. The
number of masks is the least one that has a bit for every value parameter.
-/

namespace LineAtlas.DefaultHelper

/-- As long as the count of value parameters is far from the end of a word, there are as many masks
as are needed for one bit each, and never none. -/
theorem maskCount_le_iff {parameters : Nat} (hsmall : parameters + 31 < UInt64.size) (masks : Nat) :
    maskCount parameters ≤ masks ↔ 0 < masks ∧ parameters ≤ 32 * masks := by
  rw [maskCount, Nat.mod_eq_of_lt hsmall]
  omega

example : [0, 1, 32, 33, 64, 65].map maskCount = [1, 1, 1, 2, 2, 3] := by decide

/-- A beginning and an ending that are together as long as a name make it up. -/
theorem isNamedFor_iff {name declared : String} :
    isNamedFor name declared = true ↔ name = declared ++ functionSuffix := by
  rw [isNamedFor, Bool.and_eq_true, Bool.and_eq_true, beq_iff_eq]
  constructor
  · rintro ⟨⟨hsize, hhead⟩, htail⟩
    obtain ⟨after, hafter⟩ := Option.isSome_iff_exists.mp hhead
    obtain ⟨before, hbefore⟩ := Option.isSome_iff_exists.mp htail
    obtain rfl := Text.dropTail?_eq_some_iff.mp hbefore
    have hbytes := congrArg String.toByteArray (Text.dropHead?_eq_some_iff.mp hafter)
    rw [String.toByteArray_append, String.toByteArray_append] at hbytes
    have hbeginning : before.toByteArray.size = declared.toByteArray.size := by
      rw [String.utf8ByteSize_append] at hsize
      exact Nat.add_right_cancel hsize
    rw [String.toByteArray_inj.mp (ByteArray.append_inj_left hbytes hbeginning)]
  · rintro rfl
    rw [String.utf8ByteSize_append, Text.dropHead?_eq_some_iff.mpr rfl,
      Text.dropTail?_eq_some_iff.mpr rfl]
    exact ⟨⟨rfl, rfl⟩, rfl⟩

/-- The descriptor of a candidate is that of a declaration with a receiver in front, if there is
one, and with masks and a marker at the end. -/
def Extends (candidate declared : Signature) (valueParameters : Option Nat)
    (receiver : Option FieldType) (marker : FieldType) : Prop :=
  ∃ (parameters : List FieldType) (returns : Option FieldType),
    Descriptor.IsSpelledBy ⟨parameters, returns⟩ declared.descriptor ∧
    Descriptor.IsSpelledBy
      ⟨receiver.toList ++ (parameters ++
        (List.replicate (maskCount (valueParameters.getD parameters.length)) (.primitive .int)
          ++ [marker])), returns⟩ candidate.descriptor

variable {candidate declared : Signature} {valueParameters : Option Nat} {marker : FieldType}

/-- A helper extends a method when both descriptors are read, the results are the same, and the
parameters of the helper are those of the method with what is added. -/
theorem extends_iff {receiver : Option FieldType} :
    Extends candidate declared valueParameters receiver marker ↔
      ∃ helper target, Descriptor.parse? candidate.descriptor = some helper ∧
        Descriptor.parse? declared.descriptor = some target ∧ helper.returns = target.returns ∧
        helper.parameters = receiver.toList ++ (target.parameters ++
          addedParameters (maskCount (valueParameters.getD target.parameters.length)) marker) := by
  simp only [Descriptor.parse?_eq_some_iff]
  constructor
  · rintro ⟨parameters, returns, htarget, hhelper⟩
    exact ⟨_, _, hhelper, htarget, rfl, rfl⟩
  · rintro ⟨⟨longer, _⟩, ⟨parameters, returns⟩, hhelper, htarget, hreturns, hlonger⟩
    dsimp only at hreturns hlonger
    subst hreturns hlonger
    exact ⟨parameters, _, htarget, hhelper⟩

/-- Parameters match others behind at most one receiver. -/
theorem matchesAfterReceiver_iff {parameters expected : List FieldType} :
    matchesAfterReceiver parameters expected = true ↔
      ∃ receiver : Option FieldType, parameters = receiver.toList ++ expected := by
  rw [Option.exists]
  cases parameters with
  | nil => simp [matchesAfterReceiver]
  | cons first rest => simp [matchesAfterReceiver]

/-- What is added to the parameters of a declaration outnumbers the masks. -/
theorem lt_length_of_eq {parameters front : List FieldType} {masks : Nat}
    (h : parameters = front ++ addedParameters masks marker) : masks < parameters.length := by
  rw [h, addedParameters, List.length_append, List.length_append, List.length_replicate,
    List.length_singleton]
  omega

/-- Nothing extends itself, as what is added is not empty. -/
theorem Extends.ne (h : Extends candidate declared valueParameters none marker) :
    candidate ≠ declared := by
  rintro rfl
  obtain ⟨helper, target, hhelper, htarget, -, hparameters⟩ := extends_iff.mp h
  obtain rfl := Option.some.inj (hhelper.symm.trans htarget)
  have hlength := congrArg List.length hparameters
  simp [addedParameters] at hlength

/-- A helper of a function has its name with the suffix, and extends it with at most one
receiver. -/
theorem isOfFunction_iff : isOfFunction candidate declared valueParameters = true ↔
    candidate.name = declared.name ++ functionSuffix ∧
      ∃ receiver, Extends candidate declared valueParameters receiver objectType := by
  rw [isOfFunction, Bool.and_eq_true, isNamedFor_iff]
  refine and_congr Iff.rfl ?_
  simp only [extends_iff]
  cases Descriptor.parse? candidate.descriptor with
  | none => simp
  | some helper =>
    cases Descriptor.parse? declared.descriptor with
    | none => simp
    | some target =>
      simp only [Bool.and_eq_true, beq_iff_eq, decide_eq_true_eq, matchesAfterReceiver_iff,
        Option.some.injEq]
      constructor
      · rintro ⟨⟨hreturns, -⟩, receiver, hparameters⟩
        exact ⟨receiver, helper, target, rfl, rfl, hreturns, hparameters⟩
      · rintro ⟨receiver, _, _, rfl, rfl, hreturns, hparameters⟩
        rw [← List.append_assoc] at hparameters
        refine ⟨⟨hreturns, lt_length_of_eq hparameters⟩, receiver, ?_⟩
        rw [hparameters, List.append_assoc]

/-- A helper of a constructor is a constructor that extends it with the marker. -/
theorem isOfConstructor_iff : isOfConstructor candidate declared valueParameters = true ↔
    candidate.isConstructor = true ∧ declared.isConstructor = true ∧
      Extends candidate declared valueParameters none constructorMarker := by
  rw [isOfConstructor, Bool.and_eq_true, Bool.and_eq_true, Bool.and_eq_true, and_assoc, and_assoc,
    bne_iff_ne]
  refine and_congr Iff.rfl (and_congr Iff.rfl ?_)
  refine Iff.trans (and_congr_right fun _ => ?_) (and_iff_right_of_imp Extends.ne)
  rw [extends_iff]
  cases Descriptor.parse? candidate.descriptor with
  | none => simp
  | some helper =>
    cases Descriptor.parse? declared.descriptor with
    | none => simp
    | some target =>
      simp only [Bool.and_eq_true, beq_iff_eq, decide_eq_true_eq, Option.some.injEq,
        Option.toList_none, List.nil_append]
      constructor
      · rintro ⟨⟨hreturns, -⟩, hparameters⟩
        exact ⟨helper, target, rfl, rfl, hreturns, hparameters⟩
      · rintro ⟨_, _, rfl, rfl, hreturns, hparameters⟩
        exact ⟨⟨hreturns, lt_length_of_eq hparameters⟩, hparameters⟩

/-- A signature is taken for the helper of a function or constructor exactly when it has the name
and the descriptor of one. Signatures without well-formed descriptors are no helpers and have
none. -/
theorem isHelper_iff (candidate declared : Signature) (valueParameters : Option Nat) :
    (isOfFunction candidate declared valueParameters = true ↔
      candidate.name = declared.name ++ "$default" ∧
        ∃ receiver, Extends candidate declared valueParameters receiver
          (.object "java/lang/Object".toList)) ∧
    (isOfConstructor candidate declared valueParameters = true ↔
      candidate.name = "<init>" ∧ declared.name = "<init>" ∧
        Extends candidate declared valueParameters none
          (.object "kotlin/jvm/internal/DefaultConstructorMarker".toList)) ∧
    ((∀ d, ¬ Descriptor.IsSpelledBy d candidate.descriptor) ∨
        (∀ d, ¬ Descriptor.IsSpelledBy d declared.descriptor) →
      isOfFunction candidate declared valueParameters = false ∧
        isOfConstructor candidate declared valueParameters = false) := by
  refine ⟨isOfFunction_iff, ?_, fun hmalformed => ?_⟩
  · rw [isOfConstructor_iff, Signature.isConstructor, Signature.isConstructor, beq_iff_eq,
      beq_iff_eq]
    rfl
  · have hnone {receiver : Option FieldType} {marker : FieldType} :
        ¬ Extends candidate declared valueParameters receiver marker := by
      rintro ⟨parameters, returns, htarget, hhelper⟩
      exact hmalformed.elim (fun h => h _ hhelper) fun h => h _ htarget
    constructor
    · rw [← Bool.not_eq_true, isOfFunction_iff]
      exact fun ⟨_, _, hextends⟩ => hnone hextends
    · rw [← Bool.not_eq_true, isOfConstructor_iff]
      exact fun ⟨_, _, hextends⟩ => hnone hextends

end LineAtlas.DefaultHelper
