import LineAtlas.Files.Path
import LineAtlas.Proofs.Text.Split
import Mathlib.Data.List.Basic

/-!
# Parts of paths

What a path says is in its parts: how paths are ordered, which of them are the same, and where
they lead. A name put behind a path is one more part of it.
-/

namespace LineAtlas

namespace PathPart

/-- Parts are ordered by kind first, and then by their texts. -/
theorem order_eq_compareLex : order = compareLex (compareOn rank) (compareOn text) := by
  funext a b
  cases a <;> cases b <;> rfl

/-- Parts are ordered transitively. -/
instance : Std.TransCmp order := order_eq_compareLex ▸ inferInstance

/-- Only equal parts are at the same place in their order. -/
instance : Std.LawfulEqCmp order where
  compare_self := Std.ReflCmp.compare_self
  eq_of_compare {a b} h := by
    cases a <;> cases b <;> simp_all [order, rank]

/-- The piece by which a part leads on, if it does. -/
def piece? : PathPart → Option String
  | .up => some ".."
  | .named name => some name
  | .root | .here => none

/-- A part with a name stands for that very piece. -/
theorem ofPiece?_eq_named {piece name : String} (h : ofPiece? piece = some (.named name)) :
    piece = name := by
  rw [ofPiece?] at h
  split at h
  · simp at h
  · split at h
    · simp at h
    · exact PathPart.named.inj (Option.some.inj h)

/-- A piece that stands for a part is the one by which it leads on. -/
theorem piece?_of_ofPiece? {piece : String} {part : PathPart} (h : ofPiece? piece = some part) :
    part.piece? = some piece := by
  rw [ofPiece?] at h
  split at h
  · simp at h
  · split at h
    · next heq =>
      rw [← Option.some.inj h, beq_iff_eq.mp heq]
      rfl
    · rw [← Option.some.inj h]
      rfl

end PathPart

namespace Path

/-- What may be the name of a file or directory. -/
structure IsName (name : String) : Prop where
  /-- It stands for itself as a part of a path. -/
  part : PathPart.ofPiece? name = some (.named name)
  /-- There is no slash in it. -/
  slash : '/' ∉ name.toList

/-- It can be decided whether a text is a name. -/
instance (name : String) : Decidable (IsName name) :=
  decidable_of_iff (PathPart.ofPiece? name = some (.named name) ∧ '/' ∉ name.toList)
    ⟨fun h => ⟨h.1, h.2⟩, fun h => ⟨h.part, h.slash⟩⟩

/-- Whether a piece leads nowhere. -/
def isIdle (piece : String) : Bool := piece.isEmpty || piece == "."

/-- The pieces that lead nowhere are those that stand for no part. -/
theorem isIdle_iff {piece : String} : isIdle piece = true ↔ PathPart.ofPiece? piece = none := by
  rw [PathPart.ofPiece?, isIdle]
  split
  · next hidle => simp [hidle]
  · next hidle =>
    rw [iff_false_left hidle]
    split <;> simp

/-- A name leads on, and not back. -/
theorem IsName.not_idle {name : String} (h : IsName name) :
    isIdle name = false ∧ name ≠ ".." := by
  constructor
  · rw [Bool.eq_false_iff, Ne, isIdle_iff, h.part]
    simp
  · rintro rfl
    exact absurd h.part (by decide)

section Order

/-- Paths are ordered transitively. -/
instance : Std.TransCmp order where
  eq_swap {p q} := by
    change List.compareLex PathPart.order p.parts q.parts
      = (List.compareLex PathPart.order q.parts p.parts).swap
    exact Std.OrientedCmp.eq_swap
  isLE_trans {p q r} hpq hqr := by
    change (List.compareLex PathPart.order p.parts r.parts).isLE = true
    exact Std.TransCmp.isLE_trans (show (List.compareLex _ _ q.parts).isLE = true from hpq) hqr

/-- Paths that the order does not tell apart are those with the same parts. -/
theorem order_eq_eq_iff {p q : Path} : p.order q = .eq ↔ p.parts = q.parts := by
  change List.compareLex PathPart.order p.parts q.parts = .eq ↔ _
  exact Std.LawfulEqCmp.compare_eq_iff_eq

/-- Paths are the same when their parts are equal, however they are spelled. -/
theorem same_iff {p q : Path} : p.same q = true ↔ p.parts = q.parts := beq_iff_eq

/-- The order of paths is transitive. -/
theorem notAfter_trans (p q r : Path) (hpq : p.notAfter q = true) (hqr : q.notAfter r = true) :
    p.notAfter r = true :=
  Std.TransCmp.isLE_trans (show (p.order q).isLE = true from hpq) hqr

/-- Of any two paths one is not behind the other. -/
theorem notAfter_total (p q : Path) : (p.notAfter q || q.notAfter p) = true := by
  have hswap : q.order p = (p.order q).swap := Std.OrientedCmp.eq_swap
  rw [notAfter, notAfter, hswap]
  cases p.order q <;> rfl

end Order

section Spelling

/-- An absolute path is one whose first character is a slash. -/
theorem isAbsolute_iff {p : Path} : p.isAbsolute = true ↔ p.text.toList.head? = some '/' := by
  rw [isAbsolute, String.startsWith_string_iff]
  change ['/'] <+: _ ↔ _
  cases p.text.toList <;> simp [List.cons_prefix_cons, eq_comm]

/-- A text ends with a slash when its last character is one. -/
theorem endsWith_slash_iff {text : String} :
    text.endsWith "/" = true ↔ ∃ front, text.toList = front ++ ['/'] := by
  rw [← String.endsWith_toSlice, String.Slice.endsWith_string_iff, String.copy_toSlice]
  exact ⟨fun ⟨front, h⟩ => ⟨front, h.symm⟩, fun ⟨front, h⟩ => ⟨front, h.symm⟩⟩

/-- The parts that some pieces stand for, at the start of an absolute or a relative path. -/
def partsOf (isAbsolute : Bool) : List String → List PathPart
  | [] => []
  | first :: rest =>
    (if isAbsolute then [.root]
      else if first == "." then [.here]
      else (PathPart.ofPiece? first).toList) ++ rest.filterMap PathPart.ofPiece?

/-- The parts of a path are those of its pieces. -/
theorem parts_eq_partsOf (p : Path) : p.parts = partsOf p.isAbsolute p.pieces := by
  rw [parts]
  cases p.pieces <;> rfl

/-- Pieces that do not come first stand for parts that depend on nothing before them. -/
theorem partsOf_append (isAbsolute : Bool) {front : List String} (h : front ≠ [])
    (back : List String) :
    partsOf isAbsolute (front ++ back)
      = partsOf isAbsolute front ++ back.filterMap PathPart.ofPiece? := by
  obtain ⟨first, rest, rfl⟩ := List.exists_cons_of_ne_nil h
  simp [partsOf]

/-- A relative path that does not start with a dot has the parts of its pieces. -/
theorem partsOf_of_ne_dot {first : String} (h : first ≠ ".") (rest : List String) :
    partsOf false (first :: rest) = (first :: rest).filterMap PathPart.ofPiece? := by
  rw [partsOf, if_neg (by simp), if_neg (beq_iff_eq.not.mpr h), List.filterMap_cons]
  cases PathPart.ofPiece? first <;> rfl

variable {p : Path} {name : String}

/-- A name behind a slash is the last piece of a path. -/
theorem pieces_append {before : List Char} (htext : p.text.toList = before ++ '/' :: name.toList)
    (h : '/' ∉ name.toList) :
    p.pieces = (Text.piecesOf '/' before).map String.ofList ++ [name] := by
  rw [pieces, Text.pieces, htext, Text.piecesOf_append, Text.piecesOf_of_not_mem h, List.map_append]
  simp

/-- A path with a name behind it. A slash stands between them, be it the one at the end. -/
theorem toList_join (hsome : p.text ≠ "") (h : '/' ∉ name.toList) :
    ∃ before, (p.join ⟨name⟩).text.toList = before ++ '/' :: name.toList ∧
      (p.text.toList = before ∨ p.text.toList = before ++ ['/']) := by
  have hrelative : ¬(Path.mk name).isAbsolute = true := by
    rw [isAbsolute_iff]
    exact fun hhead => h (List.mem_of_mem_head? hhead)
  have hempty : p.text.isEmpty = false := String.isEmpty_eq_false_iff.mpr hsome
  rw [join, if_neg hrelative, hempty, Bool.false_or]
  split
  · next hslash =>
    obtain ⟨front, hfront⟩ := endsWith_slash_iff.mp hslash
    exact ⟨front, by simp [String.toList_append, hfront], Or.inr hfront⟩
  · exact ⟨p.text.toList, by simp [String.toList_append], Or.inl rfl⟩

/-- A name behind a path is one more piece, in place of the empty one behind a slash at the end. -/
theorem pieces_join (hsome : p.text ≠ "") (h : '/' ∉ name.toList) :
    ∃ front, front ≠ [] ∧ (p.pieces = front ∨ p.pieces = front ++ [""]) ∧
      (p.join ⟨name⟩).pieces = front ++ [name] ∧
      (p.join ⟨name⟩).isAbsolute = p.isAbsolute := by
  obtain ⟨before, htext, hbefore⟩ := toList_join hsome h
  refine ⟨(Text.piecesOf '/' before).map String.ofList,
    by simp [Text.piecesOf_ne_nil], ?_, pieces_append htext h, ?_⟩
  · rcases hbefore with hbefore | hbefore
    · exact Or.inl (by rw [pieces, Text.pieces, hbefore])
    · have hslash : p.text.toList = before ++ '/' :: "".toList := hbefore
      exact Or.inr (pieces_append hslash (by simp))
  · rw [Bool.eq_iff_iff, isAbsolute_iff, isAbsolute_iff, htext]
    rcases hbefore with hbefore | hbefore
    · have hne : before ≠ [] := hbefore ▸ String.toList_eq_nil_iff.not.mpr hsome
      rw [hbefore, List.head?_append_of_ne_nil _ hne]
    · rw [hbefore]
      cases before <;> simp

/-- The path of a single name has that name as its only part. -/
theorem parts_name (h : IsName name) : (Path.mk name).parts = [.named name] := by
  have hrelative : (Path.mk name).isAbsolute = false := by
    rw [Bool.eq_false_iff, Ne, isAbsolute_iff]
    exact fun hhead => h.slash (List.mem_of_mem_head? hhead)
  have hpieces : (Path.mk name).pieces = [name] := by
    rw [pieces, Text.pieces, Text.piecesOf_of_not_mem h.slash]
    simp
  have hdot : (name == ".") = false := by
    rw [beq_eq_false_iff_ne]
    rintro rfl
    exact absurd h.part (by decide)
  rw [parts_eq_partsOf, hrelative, hpieces, partsOf, hdot, h.part]
  rfl

/-- A name behind a path is one more part. -/
theorem parts_join (h : IsName name) : (p.join ⟨name⟩).parts = p.parts ++ [.named name] := by
  have hname : [name].filterMap PathPart.ofPiece? = [.named name] := by
    rw [List.filterMap_cons_some h.part, List.filterMap_nil]
  by_cases hsome : p.text = ""
  · obtain rfl : p = ⟨""⟩ := congrArg Path.mk hsome
    have hjoin : (Path.mk "").join ⟨name⟩ = ⟨name⟩ := by
      rw [join]
      split
      · rfl
      · simp
    rw [hjoin, parts_name h]
    rfl
  · obtain ⟨front, hfront, hpieces, hjoin, habsolute⟩ := pieces_join hsome h.slash
    have hsame : partsOf p.isAbsolute p.pieces = partsOf p.isAbsolute front := by
      rcases hpieces with hpieces | hpieces
      · rw [hpieces]
      · rw [hpieces, partsOf_append _ hfront]
        exact List.append_nil _
    rw [parts_eq_partsOf, parts_eq_partsOf p, habsolute, hjoin, partsOf_append _ hfront, hname,
      hsame]

/-- A path with names behind it. -/
def below (p : Path) (names : List String) : Path :=
  names.foldl (fun path name => path.join ⟨name⟩) p

/-- Names behind a path are its further parts. -/
theorem parts_below {names : List String} (h : ∀ name ∈ names, IsName name) (p : Path) :
    (p.below names).parts = p.parts ++ names.map .named := by
  induction names generalizing p with
  | nil => simp [below]
  | cons name rest ih =>
    obtain ⟨hname, hrest⟩ := List.forall_mem_cons.mp h
    have hbelow : p.below (name :: rest) = (p.join ⟨name⟩).below rest := rfl
    rw [hbelow, ih hrest, parts_join hname, List.append_assoc]
    rfl

/-- The pieces that lead on. -/
def way (p : Path) : List String := p.pieces.filter fun piece => !isIdle piece

/-- A piece leads on by itself or not at all. -/
theorem ofPiece?_bind_piece? (piece : String) : (PathPart.ofPiece? piece).bind PathPart.piece?
    = if !isIdle piece then some piece else none := by
  cases hpart : PathPart.ofPiece? piece with
  | none => simp [isIdle_iff.mpr hpart]
  | some part =>
    have hidle : isIdle piece = false := by
      rw [Bool.eq_false_iff, Ne, isIdle_iff, hpart]
      simp
    simpa [hidle] using PathPart.piece?_of_ofPiece? hpart

/-- The pieces of the parts are those that lead on. -/
theorem filterMap_piece? (l : List String) :
    (l.filterMap PathPart.ofPiece?).filterMap PathPart.piece?
      = l.filter fun piece => !isIdle piece := by
  rw [List.filterMap_filterMap, ← List.filterMap_eq_filter]
  exact List.filterMap_congr fun piece _ => ofPiece?_bind_piece? piece

/-- An absolute path starts with an empty piece. -/
theorem pieces_of_isAbsolute (h : p.isAbsolute = true) : ∃ rest, p.pieces = "" :: rest := by
  obtain ⟨rest, htext⟩ := List.head?_eq_some_iff.mp (isAbsolute_iff.mp h)
  exact ⟨(Text.piecesOf '/' rest).map String.ofList, by
    rw [pieces, Text.pieces, htext, Text.piecesOf, if_pos rfl]
    rfl⟩

/-- The parts of a path say which way it leads. -/
theorem way_eq_filterMap (p : Path) : p.way = p.parts.filterMap PathPart.piece? := by
  rw [way, parts_eq_partsOf]
  cases habsolute : p.isAbsolute with
  | true =>
    obtain ⟨rest, hpieces⟩ := pieces_of_isAbsolute habsolute
    rw [hpieces]
    exact (filterMap_piece? rest).symm
  | false =>
    cases p.pieces with
    | nil => rfl
    | cons first rest =>
      by_cases hdot : first = "."
      · subst hdot
        exact (filterMap_piece? rest).symm
      · rw [partsOf_of_ne_dot hdot]
        exact (filterMap_piece? (first :: rest)).symm

/-- A path that goes on from another one by names leads on by them. -/
theorem way_eq_append {q : Path} {names : List String} (h : q.parts = p.parts ++ names.map .named) :
    q.way = p.way ++ names := by
  rw [way_eq_filterMap, h, List.filterMap_append, ← way_eq_filterMap, List.filterMap_map]
  exact congrArg _ List.filterMap_some

/-- The parts of a path say whether it is absolute. -/
theorem isAbsolute_iff_root_mem (p : Path) : p.isAbsolute = true ↔ .root ∈ p.parts := by
  have hpiece (piece : String) : PathPart.ofPiece? piece ≠ some .root := fun h => by
    have hroot := PathPart.piece?_of_ofPiece? h
    simp [PathPart.piece?] at hroot
  have hpieces (l : List String) : .root ∉ l.filterMap PathPart.ofPiece? := by
    simpa using fun piece _ => hpiece piece
  rw [parts_eq_partsOf]
  cases habsolute : p.isAbsolute with
  | true =>
    obtain ⟨rest, hrest⟩ := pieces_of_isAbsolute habsolute
    rw [hrest]
    exact ⟨fun _ => List.mem_cons_self, fun _ => rfl⟩
  | false =>
    refine ⟨fun h => absurd h (by simp), fun hmem => ?_⟩
    cases hall : p.pieces with
    | nil => simp [hall, partsOf] at hmem
    | cons first rest =>
      rw [hall] at hmem
      by_cases hdot : first = "."
      · subst hdot
        exact absurd (List.mem_of_ne_of_mem (by simp) hmem) (hpieces rest)
      · rw [partsOf_of_ne_dot hdot] at hmem
        exact absurd hmem (hpieces _)

/-- A path whose last piece is a name ends in this name. -/
theorem fileName?_of_pieces {front : List String} {last : String} (h : p.pieces = front ++ [last])
    (hlast : PathPart.ofPiece? last = some (.named last)) : p.fileName? = some last := by
  have hname : [last].filterMap PathPart.ofPiece? = [.named last] := by
    rw [List.filterMap_cons_some hlast, List.filterMap_nil]
  have hparts : p.parts.getLast? = some (.named last) := by
    rw [parts_eq_partsOf, h]
    by_cases hfront : front = []
    · subst hfront
      have hrelative : p.isAbsolute = false := by
        rw [Bool.eq_false_iff]
        intro habsolute
        obtain ⟨rest, hrest⟩ := pieces_of_isAbsolute habsolute
        obtain ⟨rfl, -⟩ := List.cons.inj (h.symm.trans hrest)
        exact absurd hlast (by decide)
      have hdot : last ≠ "." := by
        rintro rfl
        exact absurd hlast (by decide)
      rw [hrelative, List.nil_append, partsOf_of_ne_dot hdot, hname]
      rfl
    · rw [partsOf_append _ hfront, hname, List.getLast?_concat]
  rw [fileName?, hparts]

/-- Every path has a piece, the empty path an empty one. -/
theorem pieces_ne_nil (p : Path) : p.pieces ≠ [] :=
  List.map_eq_nil_iff.not.mpr (Text.piecesOf_ne_nil _ _)

/-- Apart from the start of a path, every part stands for one of the pieces. -/
theorem mem_partsOf {isAbsolute : Bool} {l : List String} {part : PathPart}
    (h : part ∈ partsOf isAbsolute l) :
    part = .root ∨ part = .here ∨ ∃ piece ∈ l, PathPart.ofPiece? piece = some part := by
  cases l with
  | nil => simp [partsOf] at h
  | cons first rest =>
    rw [partsOf, List.mem_append, List.mem_filterMap] at h
    rcases h with hstart | ⟨piece, hpiece, hpart⟩
    · split at hstart
      · exact Or.inl (List.mem_singleton.mp hstart)
      · split at hstart
        · exact Or.inr (Or.inl (List.mem_singleton.mp hstart))
        · exact Or.inr (Or.inr ⟨first, List.mem_cons_self, Option.mem_toList.mp hstart⟩)
    · exact Or.inr (Or.inr ⟨piece, List.mem_cons_of_mem _ hpiece, hpart⟩)

/-- The names in a path may be names of files and directories. -/
theorem isName_of_mem_parts (h : .named name ∈ p.parts) : IsName name := by
  rw [parts_eq_partsOf] at h
  obtain hroot | hhere | ⟨piece, hpiece, hpart⟩ := mem_partsOf h
  · cases hroot
  · cases hhere
  · obtain rfl := PathPart.ofPiece?_eq_named hpart
    obtain ⟨chars, hchars, rfl⟩ := List.mem_map.mp hpiece
    refine ⟨hpart, ?_⟩
    rw [String.toList_ofList]
    exact Text.not_mem_of_mem_piecesOf hchars

end Spelling

end Path

end LineAtlas
