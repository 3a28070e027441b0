import LineAtlas.Name.Local
import LineAtlas.Proofs.Text.Split

/-!
# Names of lambdas

A lambda is named after the function around it, with the word `lambda` and a number behind the
name. Its name is told by the last of its pieces, and the name of the function is what is left when
two pieces are cut off.
-/

namespace LineAtlas.LocalName

/-- A name is that of a lambda with a number inside a function. -/
def IsLambdaIn (name base : String) : Prop :=
  ∃ number : String, name = base ++ "$lambda$" ++ number ∧ Text.isDigits number.toList = true

/-- The number and the word are cut off one after the other. -/
theorem isLambdaIn_iff {name base : String} : IsLambdaIn name base ↔
    ∃ front number, Text.cutLast? '$' name = some (front, number) ∧
      Text.cutLast? '$' front = some (base, "lambda") ∧ isNumeric number = true := by
  have hword (number : String) : base ++ "$lambda$" ++ number
      = base ++ '$'.toString ++ "lambda" ++ '$'.toString ++ number := by
    rw [show "$lambda$" = '$'.toString ++ "lambda" ++ '$'.toString by decide]
    simp only [String.append_assoc]
  simp only [Text.cutLast?_eq_some_iff]
  constructor
  · rintro ⟨number, rfl, hdigits⟩
    exact ⟨_, number, ⟨hword number, Text.not_mem_of_isDigits rfl hdigits⟩,
      ⟨rfl, by decide⟩, hdigits⟩
  · rintro ⟨front, number, ⟨rfl, -⟩, ⟨rfl, -⟩, hdigits⟩
    exact ⟨number, (hword number).symm, hdigits⟩

/-- A name is recognised as that of a lambda by its last pieces. -/
theorem isLambda_iff {name : String} : isLambda name = true ↔ ∃ base, IsLambdaIn name base := by
  simp only [isLambdaIn_iff]
  unfold isLambda
  cases hname : Text.cutLast? '$' name with
  | none => simp [Text.pieces_of_cutLast?_eq_none hname]
  | some cut =>
    obtain ⟨front, number⟩ := cut
    rw [Text.pieces_of_cutLast? hname, List.reverse_append]
    simp only [Option.some.injEq, Prod.mk.injEq]
    cases hfront : Text.cutLast? '$' front with
    | none =>
      rw [Text.pieces_of_cutLast?_eq_none hfront]
      simp [hfront]
    | some cut =>
      obtain ⟨base, word⟩ := cut
      have hmore : (Text.pieces '$' base).reverse ≠ [] := by
        simp [Text.pieces, Text.piecesOf_ne_nil]
      obtain ⟨third, others, hmore⟩ := List.exists_cons_of_ne_nil hmore
      rw [Text.pieces_of_cutLast? hfront, List.reverse_append, hmore]
      change (isNumeric number && word == "lambda") = true ↔ _
      rw [Bool.and_eq_true, beq_iff_eq]
      constructor
      · rintro ⟨hnumber, rfl⟩
        exact ⟨base, front, number, ⟨rfl, rfl⟩, hfront, hnumber⟩
      · rintro ⟨_, _, _, ⟨rfl, rfl⟩, hfront', hnumber⟩
        rw [hfront] at hfront'
        exact ⟨hnumber, (Prod.mk.inj (Option.some.inj hfront')).2⟩

/-- Two pieces are cut off a name at its last two dollars. -/
theorem beforeLastTwo?_eq_some_iff {name base : String} : beforeLastTwo? name = some base ↔
    ∃ front number word, Text.cutLast? '$' name = some (front, number) ∧
      Text.cutLast? '$' front = some (base, word) := by
  simp [beforeLastTwo?, Option.bind_eq_some_iff]

/-- What precedes the last two pieces of a lambda's name is the name of the function. -/
theorem IsLambdaIn.beforeLastTwo? {name base : String} (h : IsLambdaIn name base) :
    beforeLastTwo? name = some base := by
  obtain ⟨front, number, hname, hfront, -⟩ := isLambdaIn_iff.mp h
  exact beforeLastTwo?_eq_some_iff.mpr ⟨front, number, "lambda", hname, hfront⟩

/-- A lambda is inside one function only. -/
theorem IsLambdaIn.eq {name base base' : String} (h : IsLambdaIn name base)
    (h' : IsLambdaIn name base') : base = base' :=
  Option.some.inj (h.beforeLastTwo?.symm.trans h'.beforeLastTwo?)

/-- A name has a base exactly if it is that of a lambda in the function with that name. -/
theorem lambdaBase?_eq_some_iff {name base : String} :
    lambdaBase? name = some base ↔ IsLambdaIn name base := by
  rw [lambdaBase?, Option.filter_eq_some_iff, isLambda_iff]
  constructor
  · rintro ⟨hbase, other, hother⟩
    rwa [← Option.some.inj (hother.beforeLastTwo?.symm.trans hbase)]
  · exact fun h => ⟨h.beforeLastTwo?, base, h⟩

end LineAtlas.LocalName
