import LineAtlas.Json.Read
import LineAtlas.Proofs.Json.Scan
import Mathlib.Data.List.Forall2

/-!
# JSON values are read as they were written

Between the text of a value and the value stand its tokens: the text is cut into them, in whichever
style it is written, and they make up the value again. A key comes back as it is written, verbatim
where none of its characters is escaped.
-/

namespace LineAtlas.Json

namespace Value

mutual

/-- All numbers in a value are natural. -/
def Natural : Value → Prop
  | .number literal => ∃ n : Nat, literal = toString n
  | .array items => NaturalItems items
  | .object entries => NaturalEntries entries
  | _ => True

/-- All numbers in the items of an array are natural. -/
def NaturalItems : List Value → Prop
  | [] => True
  | first :: rest => first.Natural ∧ NaturalItems rest

/-- All numbers in the entries of an object are natural. -/
def NaturalEntries : List (Key × Value) → Prop
  | [] => True
  | (_, value) :: rest => value.Natural ∧ NaturalEntries rest

end

mutual

/-- The tokens of a value. -/
def tokens : Value → List Token
  | .null => [.null]
  | .bool value => [.bool value]
  | .number literal => [.number literal]
  | .string text => [.text (some text) (Token.staysVerbatim text.toList)]
  | .unpaired => [.text (some "\ufffd") (Token.staysVerbatim "\ufffd".toList)]
  | .array items => .mark .openArray ::
      ([Token.mark .comma].intercalate (itemTokens items) ++ [.mark .closeArray])
  | .object entries => .mark .openObject ::
      ([Token.mark .comma].intercalate (entryTokens entries) ++ [.mark .closeObject])

/-- The tokens of the items of an array. -/
def itemTokens : List Value → List (List Token)
  | [] => []
  | item :: rest => item.tokens :: itemTokens rest

/-- The tokens of the entries of an object. -/
def entryTokens : List (Key × Value) → List (List Token)
  | [] => []
  | (key, value) :: rest =>
    (.text (some key.text) (Token.staysVerbatim key.text.toList) :: .mark .colon :: value.tokens)
      :: entryTokens rest

end

mutual

/-- The value as it is read again. -/
def reread : Value → Value
  | .unpaired => .string "\ufffd"
  | .array items => .array (rereadItems items)
  | .object entries => .object (rereadEntries entries)
  | value => value

/-- The items of an array as they are read again. -/
def rereadItems : List Value → List Value
  | [] => []
  | item :: rest => item.reread :: rereadItems rest

/-- The entries of an object as they are read again. -/
def rereadEntries : List (Key × Value) → List (Key × Value)
  | [] => []
  | (key, value) :: rest =>
    (⟨key.text, Token.staysVerbatim key.text.toList⟩, value.reread) :: rereadEntries rest

end

end Value

open Token (Spells Apart)

/-! ## From text to tokens -/

/-- The start of a line keeps words apart where what follows does. -/
theorem apart_lineStart_append (style : Value.Style) {rest : List Char} (h : Apart rest) :
    Apart (style.lineStart.toList ++ rest) := by
  cases style with
  | compact => exact h
  | indented level =>
    rw [Value.Style.lineStart, String.toList_append]
    exact Token.apart_cons (by decide) _

/-- The start of a line consists of blanks, in every style. -/
theorem isBlank_of_mem_lineStart {style : Value.Style} {c : Char}
    (hc : c ∈ style.lineStart.toList) : Token.isBlank c = true := by
  cases style with
  | compact => simp [Value.Style.lineStart] at hc
  | indented level =>
    simp only [Value.Style.lineStart, String.toList_append, String.toList_ofList, List.mem_append,
      List.mem_replicate] at hc
    rcases hc with hc | ⟨-, rfl⟩
    · obtain rfl : c = '\n' := by simpa using hc
      decide
    · decide

/-- A colon in front spells its mark, with or without the blank behind it. -/
theorem spells_colon_append (style : Value.Style) {text : List Char} {tokens : List Token}
    (h : Spells text tokens) :
    Spells (style.colon.toList ++ text) (.mark .colon :: tokens) := by
  cases style with
  | compact => exact h.cons_mark (c := ':') rfl (by decide)
  | indented level =>
    have hcolon := (h.cons_blank (c := ' ') (by decide)).cons_mark (c := ':') rfl (by decide)
    simpa [Value.Style.colon] using hcolon

/-- Pieces with commas between them spell the tokens of the pieces with commas between them. -/
theorem spells_intercalate {pieces : List (List Char)} {tokens : List (List Token)}
    (h : List.Forall₂ Spells pieces tokens) :
    Spells ([','].intercalate pieces) ([Token.mark .comma].intercalate tokens) := by
  induction h with
  | nil => exact Token.spells_nil
  | @cons piece token pieces tokens hfirst hrest ih =>
    cases hrest with
    | nil => simpa using hfirst
    | cons hsecond hothers =>
      rw [List.intercalate_cons_cons, List.intercalate_cons_cons]
      have hcomma := ih.cons_mark (c := ',') rfl (by decide)
      simpa using hfirst.append hcomma fun rest _ => Token.apart_cons (by decide) _

/-- Pieces between brackets, each of them at the start of a line. -/
theorem spells_bracketed (style : Value.Style) (opening closing : Char) {first last : Mark}
    (hfirst : Token.markOf? opening = some first) (hopening : Token.isBlank opening = false)
    (hlast : Token.markOf? closing = some last) (hclosing : Token.isBlank closing = false)
    (hapart : Token.isWordChar closing = false)
    {pieces : List String} {tokens : List (List Token)}
    (h : List.Forall₂ (fun piece tokens => Spells piece.toList tokens) pieces tokens) :
    Spells (Value.bracketed style (String.ofList [opening]) (String.ofList [closing]) pieces).toList
      (.mark first :: ([Token.mark .comma].intercalate tokens ++ [.mark last])) := by
  have hend : Spells (style.lineStart.toList ++ [closing]) [.mark last] :=
    (Token.spells_nil.cons_mark hlast hclosing).append_blanks fun _ => isBlank_of_mem_lineStart
  have hinner : List.Forall₂ Spells
      (pieces.map fun piece => style.inner.lineStart.toList ++ piece.toList) tokens := by
    rw [List.forall₂_map_left_iff]
    exact h.imp fun _ _ hpiece => hpiece.append_blanks fun _ => isBlank_of_mem_lineStart
  have hitems := spells_intercalate hinner
  cases pieces with
  | nil =>
    obtain rfl := List.forall₂_nil_left_iff.mp h
    have hclose := Token.spells_nil.cons_mark hlast hclosing
    simpa [Value.bracketed] using hclose.cons_mark hfirst hopening
  | cons piece pieces =>
    have htext : (Value.bracketed style (String.ofList [opening]) (String.ofList [closing])
        (piece :: pieces)).toList = opening ::
          ([','].intercalate ((piece :: pieces).map fun piece =>
            style.inner.lineStart.toList ++ piece.toList)
              ++ (style.lineStart.toList ++ [closing])) := by
      have hcomma : ",".toList = [','] := rfl
      change (String.ofList [opening] ++ ",".intercalate ((piece :: pieces).map
        (style.inner.lineStart ++ ·)) ++ style.lineStart ++ String.ofList [closing]).toList = _
      simp only [String.toList_append, String.toList_intercalate, String.toList_ofList, hcomma,
        List.map_map, Function.comp_def, List.append_assoc, List.nil_append, List.cons_append]
    rw [htext]
    exact (hitems.append hend fun rest _ => by
      rw [List.append_assoc]
      exact apart_lineStart_append style (Token.apart_cons hapart rest)).cons_mark hfirst hopening

/-- A word does not go on over a colon. -/
theorem apart_colon_append (style : Value.Style) (rest : List Char) :
    Apart (style.colon.toList ++ rest) := by
  have hcolon : Token.isWordChar ':' = false := by decide
  cases style <;> simp [Value.Style.colon, Apart, hcolon]

/-- A key and its value. -/
theorem spells_entry (style : Value.Style) (key : String) {value : String} {tokens : List Token}
    (h : Spells value.toList tokens) :
    Spells (quote key ++ style.colon ++ value).toList
      (.text (some key) (Token.staysVerbatim key.toList) :: .mark .colon :: tokens) := by
  have hcolon := spells_colon_append style h
  have happend := (Token.spells_quote key).append hcolon fun rest _ => by
    rw [List.append_assoc]
    exact apart_colon_append style _
  simpa [List.append_assoc] using happend

mutual

/-- The text of a value is cut into its tokens. -/
theorem spells_render (style : Value.Style) :
    (v : Value) → v.Natural → Spells (v.render style).toList v.tokens
  | .null, _ => by
    simpa [Value.render, Value.tokens] using
      Token.spells_word 'n' ['u', 'l', 'l'] (by decide) (List.all_eq_true.mp rfl) rfl
  | .bool true, _ => by
    simpa [Value.render, Value.tokens] using
      Token.spells_word 't' ['r', 'u', 'e'] (by decide) (List.all_eq_true.mp rfl) rfl
  | .bool false, _ => by
    simpa [Value.render, Value.tokens] using
      Token.spells_word 'f' ['a', 'l', 's', 'e'] (by decide) (List.all_eq_true.mp rfl) rfl
  | .number literal, h => by
    obtain ⟨n, rfl⟩ := h
    exact Token.spells_number n
  | .string text, _ => Token.spells_quote text
  | .unpaired, _ => Token.spells_quote "\ufffd"
  | .array items, h => spells_bracketed style '[' ']' rfl (by decide) rfl (by decide) (by decide)
      (spells_renderItems style.inner items h)
  | .object entries, h => spells_bracketed style '\x7b' '\x7d' rfl (by decide) rfl (by decide)
      (by decide) (spells_renderEntries style.inner entries h)

/-- The texts of items are cut into the tokens of the items. -/
theorem spells_renderItems (style : Value.Style) :
    (items : List Value) → Value.NaturalItems items →
      List.Forall₂ (fun piece tokens => Spells piece.toList tokens)
        (Value.renderItems style items) (Value.itemTokens items)
  | [], _ => .nil
  | item :: rest, h => .cons (spells_render style item h.1) (spells_renderItems style rest h.2)

/-- The texts of entries are cut into the tokens of the entries. -/
theorem spells_renderEntries (style : Value.Style) :
    (entries : List (Key × Value)) → Value.NaturalEntries entries →
      List.Forall₂ (fun piece tokens => Spells piece.toList tokens)
        (Value.renderEntries style entries) (Value.entryTokens entries)
  | [], _ => .nil
  | (key, value) :: rest, h => .cons (spells_entry style key.text (spells_render style value h.1))
      (spells_renderEntries style rest h.2)

end

/-! ## From tokens to values -/

/-- Tokens make up a value wherever one is expected, whatever is still open. -/
def Makes (tokens : List Token) (v : Value) : Prop :=
  ∀ expects stack, expects = .value ∨ expects = .firstItem →
    tokens.foldlM ReadState.step ⟨expects, stack⟩ = some ⟨.after v, stack⟩

/-- Tokens make up an entry: a key, a colon and a value. -/
def MakesEntry (tokens : List Token) (entry : Key × Value) : Prop :=
  ∃ valueTokens,
    tokens = .text (some entry.1.text) entry.1.isVerbatim :: .mark .colon :: valueTokens ∧
      Makes valueTokens entry.2

/-- A token that does not close an array begins a value, the first item of an array included. -/
theorem ReadState.step_eq_beginValue {expects : Expectation} {stack : List Frame} {token : Token}
    (h : expects = .value ∨ expects = .firstItem) (htoken : token ≠ .mark .closeArray) :
    ReadState.step ⟨expects, stack⟩ token = ReadState.beginValue stack token := by
  rcases h with rfl | rfl
  · rfl
  · unfold ReadState.step
    split <;> simp_all

/-- A token that is a value by itself. -/
theorem makes_scalar {token : Token} {v : Value} (htoken : token ≠ .mark .closeArray)
    (hbegin : ∀ stack, ReadState.beginValue stack token = some ⟨.after v, stack⟩) :
    Makes [token] v := by
  intro expects stack h
  rw [List.foldlM_cons, ReadState.step_eq_beginValue h htoken, hbegin]
  rfl

/-- The items of an array that is open, up to its end. -/
theorem foldlM_items {tokens : List (List Token)} {items : List Value}
    (h : List.Forall₂ Makes tokens items) (hne : items ≠ []) {expects : Expectation}
    (hexpects : expects = .value ∨ expects = .firstItem) (done : List Value) (stack : List Frame) :
    ([Token.mark .comma].intercalate tokens ++ [Token.mark .closeArray]).foldlM ReadState.step
        ⟨expects, .array done :: stack⟩
      = some ⟨.after (.array (done.reverse ++ items)), stack⟩ := by
  induction h generalizing expects done with
  | nil => exact absurd rfl hne
  | @cons token item tokens items hfirst hrest ih =>
    cases hrest with
    | nil =>
      rw [List.intercalate_singleton, List.foldlM_append, hfirst _ _ hexpects]
      simp [ReadState.step, ReadState.afterValue, ReadState.complete]
    | @cons second item' others items' hsecond hothers =>
      have hnext := ih (by simp) (Or.inl rfl) (item :: done)
      rw [List.intercalate_cons_cons, List.append_assoc, List.append_assoc, List.foldlM_append,
        hfirst _ _ hexpects]
      simpa [ReadState.step, ReadState.afterValue] using hnext

/-- The entries of an object that is open, up to its end. -/
theorem foldlM_entries {tokens : List (List Token)} {entries : List (Key × Value)}
    (h : List.Forall₂ MakesEntry tokens entries) (hne : entries ≠ []) {expects : Expectation}
    (done : List (Option Key × Value))
    (hexpects : expects = .key done ∨ expects = .firstKey ∧ done = []) (stack : List Frame) :
    ([Token.mark .comma].intercalate tokens ++ [Token.mark .closeObject]).foldlM ReadState.step
        ⟨expects, .object [] none :: stack⟩
      = some ⟨.after (ReadState.objectOf
          (done.reverse ++ entries.map fun e : Key × Value => (some e.1, e.2))), stack⟩ := by
  induction h generalizing expects done with
  | nil => exact absurd rfl hne
  | @cons token entry tokens entries hfirst hrest ih =>
    obtain ⟨valueTokens, rfl, hvalue⟩ := hfirst
    have hentry : (Token.text (some entry.1.text) entry.1.isVerbatim :: .mark .colon
        :: valueTokens).foldlM ReadState.step ⟨expects, .object [] none :: stack⟩
          = some ⟨.after entry.2, .object done (some entry.1) :: stack⟩ := by
      have hkey : ReadState.step ⟨expects, .object [] none :: stack⟩
          (.text (some entry.1.text) entry.1.isVerbatim)
            = some ⟨.colon done (some entry.1), .object [] none :: stack⟩ := by
        rcases hexpects with rfl | ⟨rfl, rfl⟩ <;> rfl
      rw [List.foldlM_cons, hkey]
      exact hvalue .value (.object done (some entry.1) :: stack) (Or.inl rfl)
    cases hrest with
    | nil =>
      rw [List.intercalate_singleton, List.foldlM_append, hentry]
      simp [ReadState.step, ReadState.afterValue, ReadState.complete]
    | @cons second entry' others entries' hsecond hothers =>
      have hnext := ih (by simp) ((some entry.1, entry.2) :: done) (Or.inl rfl)
      rw [List.intercalate_cons_cons, List.append_assoc, List.append_assoc, List.foldlM_append,
        hentry]
      simpa [ReadState.step, ReadState.afterValue] using hnext

/-- Entries whose keys are all spelled make up an object. -/
theorem objectOf_eq (entries : List (Key × Value)) :
    ReadState.objectOf (entries.map fun e : Key × Value => (some e.1, e.2)) = .object entries := by
  rw [ReadState.objectOf, List.mapM_map, @Lists.mapM_eq_some _ _ _ id, List.map_id]
  exact fun _ _ => rfl

mutual

/-- The tokens of a value make up the value as it is read again. -/
theorem makes_reread : (v : Value) → Makes v.tokens v.reread
  | .null => makes_scalar (by simp) fun _ => rfl
  | .bool value => makes_scalar (by simp) fun _ => rfl
  | .number literal => makes_scalar (by simp) fun _ => rfl
  | .string text => makes_scalar (by simp) fun _ => rfl
  | .unpaired => makes_scalar (by simp) fun _ => rfl
  | .array [] => by
    intro expects stack h
    rw [Value.tokens, List.foldlM_cons, ReadState.step_eq_beginValue h (by simp)]
    rfl
  | .array (item :: rest) => by
    intro expects stack h
    rw [Value.tokens, List.foldlM_cons, ReadState.step_eq_beginValue h (by simp)]
    exact foldlM_items (makes_rereadItems (item :: rest)) (by simp [Value.rereadItems]) (Or.inr rfl)
      [] stack
  | .object [] => by
    intro expects stack h
    rw [Value.tokens, List.foldlM_cons, ReadState.step_eq_beginValue h (by simp)]
    rfl
  | .object (entry :: rest) => by
    intro expects stack h
    rw [Value.tokens, List.foldlM_cons, ReadState.step_eq_beginValue h (by simp)]
    have hentries := foldlM_entries (makes_rereadEntries (entry :: rest))
      (by simp [Value.rereadEntries]) [] (Or.inr ⟨rfl, rfl⟩) stack
    rw [List.reverse_nil, List.nil_append, objectOf_eq] at hentries
    exact hentries

/-- The tokens of items make up the items. -/
theorem makes_rereadItems : (items : List Value) →
    List.Forall₂ Makes (Value.itemTokens items) (Value.rereadItems items)
  | [] => .nil
  | item :: rest => .cons (makes_reread item) (makes_rereadItems rest)

/-- The tokens of entries make up the entries. -/
theorem makes_rereadEntries : (entries : List (Key × Value)) →
    List.Forall₂ MakesEntry (Value.entryTokens entries) (Value.rereadEntries entries)
  | [] => .nil
  | (_, value) :: rest => .cons ⟨_, rfl, makes_reread value⟩ (makes_rereadEntries rest)

end

/-- A value is read from its text, in whichever style it is written. -/
theorem parse?_render_natural (style : Value.Style) {v : Value} (h : v.Natural) :
    parse? (v.render style) = some v.reread := by
  have hscan : Token.scan? (v.render style).toList = some v.tokens := by
    have htext := spells_render style v h [] Token.apart_nil
    rwa [List.append_nil, Token.scan?, Option.map_some, List.append_nil] at htext
  have hmakes := makes_reread v .value [] (Or.inl rfl)
  rw [parse?, hscan]
  simp [Value.ofTokens?, hmakes, ReadState.result]

end LineAtlas.Json
