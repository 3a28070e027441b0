import Mathlib.Data.List.Induction
import LineAtlas.Text.Split

/-!
# Splitting texts

A text is split at every separator, so there is none in its pieces. What is cut off a text makes it
up again together with what is left, and a cut at the last occurrence of a separator leaves none
behind it. Texts without a separator come back when they have been joined by it, and are joined by
another one when each separator is replaced.
-/

namespace LineAtlas.Text

/-- There is always a piece, though it may be empty. -/
theorem piecesOf_ne_nil (separator : Char) (text : List Char) : piecesOf separator text ≠ [] := by
  cases text with
  | nil => simp [piecesOf]
  | cons c rest =>
    rw [piecesOf]
    split
    · simp
    · split <;> simp

/-- A text without the separator is one piece. -/
theorem piecesOf_of_not_mem {separator : Char} {text : List Char} (h : separator ∉ text) :
    piecesOf separator text = [text] := by
  induction text with
  | nil => rfl
  | cons c rest ih =>
    rw [List.mem_cons, not_or] at h
    obtain ⟨hc, hrest⟩ := h
    rw [piecesOf, if_neg (Ne.symm hc), ih hrest]

/-- There is no separator in a piece. -/
theorem not_mem_of_mem_piecesOf {separator : Char} {text piece : List Char}
    (h : piece ∈ piecesOf separator text) : separator ∉ piece := by
  induction text generalizing piece with
  | nil =>
    rw [piecesOf, List.mem_singleton] at h
    exact h ▸ List.not_mem_nil
  | cons c rest ih =>
    rw [piecesOf] at h
    split at h
    · rcases List.mem_cons.mp h with rfl | hrest
      · exact List.not_mem_nil
      · exact ih hrest
    · next hc =>
      obtain ⟨first, others, hpieces⟩ := List.exists_cons_of_ne_nil (piecesOf_ne_nil separator rest)
      rw [hpieces] at h ih
      rcases List.mem_cons.mp h with rfl | hothers
      · exact List.not_mem_cons_of_ne_of_not_mem (Ne.symm hc) (ih List.mem_cons_self)
      · exact ih (List.mem_cons_of_mem _ hothers)

/-- A separator stands between the pieces before it and those behind it. -/
theorem piecesOf_append (separator : Char) (before after : List Char) :
    piecesOf separator (before ++ separator :: after)
      = piecesOf separator before ++ piecesOf separator after := by
  induction before with
  | nil => simp [piecesOf]
  | cons c rest ih =>
    rw [List.cons_append, piecesOf, piecesOf, ih]
    by_cases hc : c = separator
    · rw [if_pos hc, if_pos hc]
      rfl
    · obtain ⟨piece, others, hpieces⟩ := List.exists_cons_of_ne_nil (piecesOf_ne_nil separator rest)
      simp only [if_neg hc, hpieces, List.cons_append]

/-- What is left behind a head is the rest of the text. -/
theorem afterHead?_eq_some_iff {head text rest : List Char} :
    afterHead? head text = some rest ↔ text = head ++ rest := by
  induction head generalizing text with
  | nil => exact ⟨fun h => Option.some.inj h, fun h => congrArg some h⟩
  | cons p ps ih =>
    cases text with
    | nil => simp [afterHead?]
    | cons c cs =>
      rw [afterHead?, List.cons_append, List.cons.injEq]
      split
      · next heq => rw [ih, heq, and_iff_right rfl]
      · next hne => simp [Ne.symm hne]

/-- What follows a beginning makes up the text together with it. -/
theorem dropHead?_eq_some_iff {head text rest : String} :
    dropHead? head text = some rest ↔ text = head ++ rest := by
  rw [dropHead?, Option.map_eq_some_iff, ← String.toList_inj, String.toList_append]
  constructor
  · rintro ⟨after, hafter, rfl⟩
    rw [String.toList_ofList]
    exact afterHead?_eq_some_iff.mp hafter
  · intro h
    exact ⟨rest.toList, afterHead?_eq_some_iff.mpr h, String.ofList_toList⟩

/-- What precedes an ending makes up the text together with it. -/
theorem dropTail?_eq_some_iff {tail text rest : String} :
    dropTail? tail text = some rest ↔ text = rest ++ tail := by
  rw [dropTail?, Option.map_eq_some_iff, ← String.toList_inj, String.toList_append]
  constructor
  · rintro ⟨before, hbefore, rfl⟩
    have hreverse := congrArg List.reverse (afterHead?_eq_some_iff.mp hbefore)
    rw [List.reverse_reverse, List.reverse_append, List.reverse_reverse] at hreverse
    rw [String.toList_ofList]
    exact hreverse
  · intro h
    refine ⟨rest.toList.reverse, afterHead?_eq_some_iff.mpr ?_, ?_⟩
    · rw [h, List.reverse_append]
    · rw [List.reverse_reverse, String.ofList_toList]

/-- Nothing but digits stands in a run of them. -/
theorem not_mem_of_isDigits {c : Char} (hc : c.isDigit = false) {text : List Char}
    (h : isDigits text = true) : c ∉ text := by
  intro hmem
  rw [isDigits, Bool.and_eq_true, List.all_eq_true] at h
  rw [h.2 c hmem] at hc
  exact absurd hc (by decide)

/-- Characters are cut exactly if the separator is among them. -/
theorem cutLastOf?_eq_none_iff {separator : Char} {text : List Char} :
    cutLastOf? separator text = none ↔ separator ∉ text := by
  induction text with
  | nil => simp [cutLastOf?]
  | cons c rest ih =>
    rw [cutLastOf?, List.mem_cons, not_or, ← ih]
    cases cutLastOf? separator rest with
    | some parts => simp
    | none =>
      by_cases heq : c = separator
      · simp [heq]
      · simp [heq, Ne.symm heq]

/-- A text is cut at the last of its separators. -/
theorem cutLastOf?_eq_some_iff {separator : Char} {text before after : List Char} :
    cutLastOf? separator text = some (before, after)
      ↔ text = before ++ separator :: after ∧ separator ∉ after := by
  constructor
  · intro h
    induction text generalizing before with
    | nil => simp [cutLastOf?] at h
    | cons c rest ih =>
      rw [cutLastOf?] at h
      split at h
      · next b a hrest =>
        obtain ⟨rfl, rfl⟩ := Prod.mk.inj (Option.some.inj h)
        obtain ⟨rfl, hafter⟩ := ih hrest
        exact ⟨rfl, hafter⟩
      · next hnone =>
        split at h
        · next heq =>
          obtain ⟨rfl, rfl⟩ := Prod.mk.inj (Option.some.inj h)
          exact ⟨by rw [heq, List.nil_append], cutLastOf?_eq_none_iff.mp hnone⟩
        · simp at h
  · rintro ⟨rfl, hafter⟩
    induction before with
    | nil => rw [List.nil_append, cutLastOf?, cutLastOf?_eq_none_iff.mpr hafter, if_pos rfl]
    | cons c rest ih => rw [List.cons_append, cutLastOf?, ih]

/-- String form of `cutLastOf?_eq_some_iff`. -/
theorem cutLast?_eq_some_iff {separator : Char} {text before after : String} :
    cutLast? separator text = some (before, after)
      ↔ text = before ++ separator.toString ++ after ∧ separator ∉ after.toList := by
  rw [cutLast?, Option.map_eq_some_iff, ← String.toList_inj, String.toList_append,
    String.toList_append]
  constructor
  · rintro ⟨⟨b, a⟩, hcut, heq⟩
    obtain ⟨rfl, rfl⟩ := Prod.mk.inj heq
    obtain ⟨htext, hafter⟩ := cutLastOf?_eq_some_iff.mp hcut
    simp [htext, hafter]
  · rintro ⟨htext, hafter⟩
    refine ⟨(before.toList, after.toList), cutLastOf?_eq_some_iff.mpr ⟨?_, hafter⟩, by simp⟩
    simpa using htext

/-- A text is cut exactly if the separator is in it. -/
theorem cutLast?_eq_none_iff {separator : Char} {text : String} :
    cutLast? separator text = none ↔ separator ∉ text.toList := by
  rw [cutLast?, Option.map_eq_none_iff, cutLastOf?_eq_none_iff]

/-- What follows the last separator is the last piece. -/
theorem pieces_of_cutLast? {separator : Char} {text before after : String}
    (h : cutLast? separator text = some (before, after)) :
    pieces separator text = pieces separator before ++ [after] := by
  obtain ⟨rfl, hafter⟩ := cutLast?_eq_some_iff.mp h
  have htext : (before ++ separator.toString ++ after).toList
      = before.toList ++ separator :: after.toList := by simp
  rw [pieces, htext, piecesOf_append, piecesOf_of_not_mem hafter, List.map_append,
    List.map_singleton, String.ofList_toList]
  rfl

/-- A text that cannot be cut is one piece. -/
theorem pieces_of_cutLast?_eq_none {separator : Char} {text : String}
    (h : cutLast? separator text = none) : pieces separator text = [text] := by
  rw [pieces, piecesOf_of_not_mem (cutLast?_eq_none_iff.mp h), List.map_singleton,
    String.ofList_toList]

section Joined

variable {c separator : Char} {segments : List String}

/-- Of joined texts the last one can be cut off. -/
theorem cutLast?_intercalate {outer : List String} {last : String} (houter : outer ≠ [])
    (hlast : separator ∉ last.toList) :
    cutLast? separator (separator.toString.intercalate (outer ++ [last]))
      = some (separator.toString.intercalate outer, last) := by
  refine cutLast?_eq_some_iff.mpr ⟨?_, hlast⟩
  rw [String.intercalate_append_of_ne_nil houter (by simp), String.intercalate_singleton]

/-- There is no character in joined texts but the separator and those of the texts. -/
theorem not_mem_intercalate (hc : c ≠ separator) (h : ∀ s ∈ segments, c ∉ s.toList) :
    c ∉ (separator.toString.intercalate segments).toList := by
  induction segments with
  | nil => simp
  | cons s rest ih =>
    have hs := h s List.mem_cons_self
    cases rest with
    | nil => rwa [String.intercalate_singleton]
    | cons next others =>
      have hrest := ih fun t ht => h t (List.mem_cons_of_mem s ht)
      rw [String.intercalate_cons_cons, String.toList_append, String.toList_append,
        List.mem_append, List.mem_append]
      simpa [hs, hc] using hrest

/-- Texts without the separator are the pieces of what they are joined to. -/
theorem pieces_intercalate (hsome : segments ≠ []) (h : ∀ s ∈ segments, separator ∉ s.toList) :
    pieces separator (separator.toString.intercalate segments) = segments := by
  induction segments using List.reverseRecOn with
  | nil => exact absurd rfl hsome
  | append_singleton outer last ih =>
    have hlast := h last (by simp)
    by_cases houter : outer = []
    · rw [houter, List.nil_append, String.intercalate_singleton]
      exact pieces_of_cutLast?_eq_none (cutLast?_eq_none_iff.mpr hlast)
    · rw [pieces_of_cutLast? (cutLast?_intercalate houter hlast),
        ih houter fun s hs => h s (List.mem_append_left _ hs)]

/-- A character is replaced wherever it stands. -/
theorem toList_replaceChar (old new : Char) (text : String) :
    (replaceChar old new text).toList = text.toList.map fun c => if c = old then new else c :=
  String.toList_map

/-- Texts that are put together have their characters replaced one by one. -/
theorem replaceChar_append (old new : Char) (one two : String) :
    replaceChar old new (one ++ two) = replaceChar old new one ++ replaceChar old new two := by
  simp only [← String.toList_inj, String.toList_append, toList_replaceChar, List.map_append]

/-- A text without the character stays as it is. -/
theorem replaceChar_of_not_mem {old new : Char} {text : String} (h : old ∉ text.toList) :
    replaceChar old new text = text := by
  have hsame : (text.toList.map fun c => if c = old then new else c) = text.toList.map id := by
    refine List.map_congr_left fun c hc => if_neg ?_
    rintro rfl
    exact h hc
  rw [← String.toList_inj, toList_replaceChar, hsame, List.map_id]

/-- Texts are joined by another separator when each one is replaced. -/
theorem replaceChar_intercalate {new : Char} (h : ∀ s ∈ segments, separator ∉ s.toList) :
    replaceChar separator new (separator.toString.intercalate segments)
      = new.toString.intercalate segments := by
  induction segments with
  | nil => simp [← String.toList_inj, toList_replaceChar]
  | cons s rest ih =>
    have hs : replaceChar separator new s = s := replaceChar_of_not_mem (h s List.mem_cons_self)
    cases rest with
    | nil => rw [String.intercalate_singleton, String.intercalate_singleton, hs]
    | cons next others =>
      have hseparator : replaceChar separator new separator.toString = new.toString := by
        simp [← String.toList_inj, toList_replaceChar]
      rw [String.intercalate_cons_cons, String.intercalate_cons_cons, replaceChar_append,
        replaceChar_append, hs, hseparator, ih fun t ht => h t (List.mem_cons_of_mem s ht)]

end Joined

/-- What precedes a separator is shorter. -/
theorem length_lt_of_cutLast? {separator : Char} {text before after : String}
    (h : cutLast? separator text = some (before, after)) :
    before.toList.length < text.toList.length := by
  rw [(cutLast?_eq_some_iff.mp h).1]
  simp

end LineAtlas.Text
