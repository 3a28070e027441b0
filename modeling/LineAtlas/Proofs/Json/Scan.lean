import LineAtlas.Json.Token
import LineAtlas.Json.Write
import LineAtlas.Proofs.ClassFile.ModifiedUtf8
import LineAtlas.Proofs.Text.Decimal
import Mathlib.Data.List.TakeWhile

/-!
# JSON text is cut where it was put together

A piece of text spells tokens when these are cut off it, whatever follows. What follows a word or a
number must not go on with it; nothing can go on with a mark or a string.
-/

namespace LineAtlas.Json

namespace Token

/-- A text does not go on with a word or a number. -/
def Apart (text : List Char) : Prop := ∀ c ∈ text.head?, isWordChar c = false

/-- The end of a text goes on with nothing. -/
theorem apart_nil : Apart [] := by simp [Apart]

/-- A text goes on with no word when its first character belongs to none. -/
theorem apart_cons {c : Char} (hc : isWordChar c = false) (rest : List Char) :
    Apart (c :: rest) := by
  simpa [Apart] using hc

/-- A piece of text spells tokens, where what follows does not go on with it. -/
def Spells (text : List Char) (tokens : List Token) : Prop :=
  ∀ rest, Apart rest → scan? (text ++ rest) = (scan? rest).map (tokens ++ ·)

variable {text more : List Char} {tokens others : List Token}

/-- No text spells no tokens. -/
theorem spells_nil : Spells [] [] := by
  intro rest _
  simp

/-- Pieces that do not run into one another spell their tokens in turn. -/
theorem Spells.append (h : Spells text tokens) (hmore : Spells more others)
    (hapart : ∀ rest, Apart rest → Apart (more ++ rest)) :
    Spells (text ++ more) (tokens ++ others) := by
  intro rest hrest
  rw [List.append_assoc, h _ (hapart rest hrest), hmore rest hrest, Option.map_map]
  simp [Function.comp_def]

/-- Nothing goes on with a mark. -/
theorem Spells.cons_mark (h : Spells text tokens) {c : Char} {m : Mark} (hmark : markOf? c = some m)
    (hblank : isBlank c = false) : Spells (c :: text) (.mark m :: tokens) := by
  intro rest hrest
  rw [List.cons_append, scan?, hblank, hmark, h rest hrest]
  simp [Function.comp_def]

/-- Nothing goes on with a blank, which spells nothing. -/
theorem Spells.cons_blank (h : Spells text tokens) {c : Char} (hblank : isBlank c = true) :
    Spells (c :: text) tokens := by
  intro rest hrest
  rw [List.cons_append, scan?, if_pos hblank, h rest hrest]

/-- Blanks in front spell nothing. -/
theorem Spells.append_blanks (h : Spells text tokens) {blanks : List Char}
    (hblanks : ∀ c ∈ blanks, isBlank c = true) : Spells (blanks ++ text) tokens := by
  induction blanks with
  | nil => exact h
  | cons c blanks ih =>
    exact (ih fun d hd => hblanks d (List.mem_cons_of_mem c hd)).cons_blank
      (hblanks c List.mem_cons_self)

/-- A character of a word is no blank. -/
theorem isBlank_of_isWordChar {c : Char} (hc : isWordChar c = true) : isBlank c = false := by
  rw [← Bool.not_eq_true]
  intro hblank
  simp only [isBlank, Bool.or_eq_true, beq_iff_eq] at hblank
  rcases hblank with ((rfl | rfl) | rfl) | rfl <;> exact absurd hc (by decide)

/-- A character of a word is no mark. -/
theorem markOf?_of_isWordChar {c : Char} (hc : isWordChar c = true) : markOf? c = none := by
  unfold markOf?
  split
  all_goals first | rfl | exact absurd hc (by decide)

/-- A word is cut off where it ends. -/
theorem takeWhile_append_of_apart {rest : List Char} (htext : ∀ c ∈ text, isWordChar c = true)
    (hrest : Apart rest) : (text ++ rest).takeWhile isWordChar = text := by
  rw [List.takeWhile_append_of_pos htext]
  cases rest with
  | nil => simp
  | cons d rest =>
    have hd : isWordChar d = false := hrest d rfl
    simp [hd]

/-- What follows a word is left when it is cut off. -/
theorem dropWhile_append_of_apart {rest : List Char} (htext : ∀ c ∈ text, isWordChar c = true)
    (hrest : Apart rest) : (text ++ rest).dropWhile isWordChar = rest := by
  rw [List.dropWhile_append_of_pos htext]
  cases rest with
  | nil => rfl
  | cons d rest =>
    have hd : isWordChar d = false := hrest d rfl
    simp [hd]

/-- A word is cut off as a whole. -/
theorem spells_word (c : Char) (text : List Char) {token : Token} (hc : isWordChar c = true)
    (htext : ∀ d ∈ text, isWordChar d = true) (htoken : ofWord? (c :: text) = some token) :
    Spells (c :: text) [token] := by
  intro rest hrest
  have hquote : c ≠ '"' := by
    rintro rfl
    exact absurd hc (by decide)
  rw [List.cons_append, scan?, isBlank_of_isWordChar hc, markOf?_of_isWordChar hc]
  simp only [Bool.false_eq_true, if_false, if_neg hquote, if_pos hc,
    takeWhile_append_of_apart htext hrest, dropWhile_append_of_apart htext hrest, htoken]
  cases scan? rest <;> rfl

/-! ## Strings -/

/-- A character stands for itself or is escaped by a backslash. -/
theorem escapeChar_cases (c : Char) :
    (escapeChar c = [c] ∧ c ≠ '"' ∧ c ≠ '\\' ∧ 0x20 ≤ c.toNat) ∨
      ∃ tail, escapeChar c = '\\' :: tail := by
  unfold escapeChar
  split
  case h_8 hquote hbackslash _ _ _ _ _ =>
    split
    next => exact Or.inr ⟨_, rfl⟩
    next hc => exact Or.inl ⟨rfl, hquote, hbackslash, by omega⟩
  all_goals exact Or.inr ⟨_, rfl⟩

/-- The two digits of a control character spell it. -/
theorem hexUnit?_control : ∀ n < 0x20,
    hexUnit? '0' '0' (hexChar (n / 16)) (hexChar (n % 16)) = some n := by
  decide

/-- A character, escaped or not, is read as its code units. -/
theorem readUnits?_escapeChar (c : Char) (rest : List Char) :
    readUnits? (escapeChar c ++ rest) =
      (readUnits? rest).map fun read => (Text.Utf16.encodeChar c ++ read.1, read.2) := by
  unfold escapeChar
  split
  case h_8 hquote hbackslash _ _ _ _ _ =>
    split
    next hc =>
      have hsmall : c.toNat < 0x10000 := by omega
      simp only [List.cons_append, List.nil_append, readUnits?, hexUnit?_control c.toNat hc,
        Text.Utf16.encodeChar, if_pos hsmall]
      cases readUnits? rest <;> rfl
    next hc =>
      have hplain : (decide (c.toNat < 0x20) || c == '\\') = false := by
        simpa [hc] using hbackslash
      rw [List.singleton_append, readUnits?, hplain]
      · rfl
      all_goals simp_all
  all_goals
    cases hrest : readUnits? rest <;> simp [readUnits?, escaped?, hrest, Text.Utf16.encodeChar]

/-- A string is read up to its closing quote. -/
theorem readUnits?_escaped (chars rest : List Char) :
    readUnits? (chars.flatMap escapeChar ++ '"' :: rest)
      = some (chars.flatMap Text.Utf16.encodeChar, rest) := by
  induction chars with
  | nil => rfl
  | cons c chars ih =>
    rw [List.flatMap_cons, List.append_assoc, readUnits?_escapeChar, ih, List.flatMap_cons]
    rfl

/-- Code units of characters make up their text. -/
theorem textOf?_encoded (chars : List Char) :
    textOf? (chars.flatMap Text.Utf16.encodeChar) = some (String.ofList chars) := by
  simp [textOf?, Text.Utf16.decode_flatMap_encodeChar]

/-- Whether a text is written without an escape. -/
def staysVerbatim (chars : List Char) : Bool := !(chars.flatMap escapeChar).contains '\\'

/-- A text is found verbatim exactly when none of its characters is escaped. -/
theorem isVerbatim_escaped (chars rest : List Char) :
    isVerbatim (chars.flatMap escapeChar ++ '"' :: rest) = staysVerbatim chars := by
  rw [isVerbatim, staysVerbatim]
  congr 1
  induction chars with
  | nil => rfl
  | cons c chars ih =>
    rw [List.flatMap_cons, List.append_assoc]
    rcases escapeChar_cases c with ⟨hself, hquote, hbackslash, -⟩ | ⟨tail, htail⟩
    · rw [hself, List.singleton_append, List.singleton_append,
        List.takeWhile_cons_of_pos (by simpa using hquote), List.contains_cons, ih,
        List.contains_cons]
    · rw [htail, List.cons_append, List.cons_append, List.takeWhile_cons_of_pos (by decide)]
      simp

/-- A text in quotes is cut off as the text. -/
theorem spells_quote (text : String) :
    Spells (quote text).toList [.text (some text) (staysVerbatim text.toList)] := by
  intro rest _
  have hquote : isBlank '"' = false := by decide
  have hmark : markOf? '"' = none := by decide
  have htext : (quote text).toList ++ rest
      = '"' :: (text.toList.flatMap escapeChar ++ '"' :: rest) := by
    simp [quote]
  rw [htext, scan?, hquote, hmark]
  simp only [Bool.false_eq_true, if_false, if_true]
  split
  next heq => rw [readUnits?_escaped] at heq; cases heq
  next units after heq =>
    rw [readUnits?_escaped] at heq
    cases heq
    rw [textOf?_encoded, isVerbatim_escaped, String.ofList_toList]
    rfl

/-! ## Numbers -/

/-- A digit is a character of a word. -/
theorem isWordChar_of_isDigit {c : Char} (hc : c.isDigit = true) : isWordChar c = true := by
  simp [isWordChar, Char.isAlphanum, hc]

/-- A digit is not escaped. -/
theorem escapeChar_of_isDigit {c : Char} (hc : c.isDigit = true) : escapeChar c = [c] := by
  have hlow : 48 ≤ c.toNat := by
    simp only [Char.isDigit, Bool.and_eq_true, decide_eq_true_eq, ge_iff_le,
      UInt32.le_iff_toNat_le] at hc
    exact hc.1
  unfold escapeChar
  split
  case h_8 => exact if_neg (by omega)
  all_goals exact absurd hc (by decide)

/-- Digits are not escaped. -/
theorem staysVerbatim_toDigits (n : Nat) : staysVerbatim (Nat.toDigits 10 n) = true := by
  have hdigits : (Nat.toDigits 10 n).flatMap escapeChar = (Nat.toDigits 10 n).flatMap ([·]) :=
    List.flatMap_congr fun c hc => escapeChar_of_isDigit (Text.isDigit_of_mem hc)
  rw [staysVerbatim, hdigits, List.flatMap_singleton', Bool.not_eq_true', List.contains_eq_mem,
    decide_eq_false_iff_not]
  exact fun hmem => absurd (Text.isDigit_of_mem hmem) (by decide)

/-- The digits of a number are a literal, as zero stands in front of none. -/
theorem isNumberLiteral_toDigits (n : Nat) : isNumberLiteral (Nat.toDigits 10 n) = true := by
  have hdigits : ∀ c ∈ Nat.toDigits 10 n, c.isDigit = true := fun c hc => Text.isDigit_of_mem hc
  have hunsigned : isUnsignedLiteral (Nat.toDigits 10 n) = true := by
    unfold isUnsignedLiteral
    split
    next rest heq =>
      cases rest with
      | nil => rfl
      | cons c rest => exact absurd heq (Text.toDigits_ne_zero_cons n c rest)
    next =>
      have htake : (Nat.toDigits 10 n).takeWhile Char.isDigit = Nat.toDigits 10 n :=
        List.takeWhile_eq_self_iff.mpr hdigits
      have hdrop : (Nat.toDigits 10 n).dropWhile Char.isDigit = [] :=
        List.dropWhile_eq_nil_iff.mpr hdigits
      rw [digitsThen, htake, hdrop]
      simp [Nat.toDigits_ne_nil, isFraction, isExponent]
  unfold isNumberLiteral
  split
  next heq => exact absurd (hdigits '-' (by rw [heq]; simp)) (by decide)
  next => exact hunsigned

/-- The digits of a number are a number and no word. -/
theorem ofWord?_toDigits (n : Nat) :
    ofWord? (Nat.toDigits 10 n) = some (.number (String.ofList (Nat.toDigits 10 n))) := by
  have hne (word : List Char) (hword : word.all Char.isDigit = false) :
      (Nat.toDigits 10 n == word) = false := by
    rw [beq_eq_false_iff_ne]
    rintro rfl
    rw [List.all_eq_true.mpr fun c hc => Text.isDigit_of_mem hc] at hword
    cases hword
  rw [ofWord?, hne "null".toList (by decide), hne "true".toList (by decide),
    hne "false".toList (by decide), isNumberLiteral_toDigits]
  rfl

/-- A number spells itself. -/
theorem spells_number (n : Nat) : Spells (toString n).toList [.number (toString n)] := by
  have hword : ∀ c ∈ Nat.toDigits 10 n, isWordChar c = true := fun c hc =>
    isWordChar_of_isDigit (Text.isDigit_of_mem hc)
  have htoken := ofWord?_toDigits n
  rw [Nat.toString_eq_repr, Nat.toList_repr, Nat.repr_eq_ofList_toDigits]
  cases hdigits : Nat.toDigits 10 n with
  | nil => exact absurd hdigits Nat.toDigits_ne_nil
  | cons c digits =>
    rw [hdigits] at hword htoken
    exact spells_word c digits (hword c List.mem_cons_self)
      (fun d hd => hword d (List.mem_cons_of_mem c hd)) htoken

end Token

end LineAtlas.Json
