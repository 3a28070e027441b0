import LineAtlas.ClassFile.Basic
import LineAtlas.Name.ClassName
import LineAtlas.Proofs.Name.Mangled
import LineAtlas.Proofs.Text.Split

/-!
# The spellings of class names

A declared class is spelled by the segments of its package and by the chain of the classes around
it. Each spelling has its own separators, and all of them stand for the same chain: it comes back
from the metadata form, and, when there are no dollars in it, also from the internal one.
-/

namespace LineAtlas.Mangled

/-- A text without separators has no runs of them. -/
theorem evenRuns_of_not_mem {text : List Char} (h : '$' ∉ text) : EvenRuns text := by
  intro before run after htext _ _
  cases run with
  | zero => exact Even.zero
  | succ run =>
    rw [htext, List.replicate_succ] at h
    exact absurd (by simp) h

/-- Segments without dollars are kept apart. -/
theorem splittable_of_not_mem {segments : List (List Char)} (hsome : segments ≠ [])
    (hnonempty : ∀ s ∈ segments, s ≠ []) (h : ∀ s ∈ segments, '$' ∉ s) : Splittable segments where
  nonempty := hsome
  segments_nonempty := hnonempty
  evenRuns := fun s hs => evenRuns_of_not_mem (h s hs)
  closed := fun s hs hlast =>
    h s (List.dropLast_subset _ hs) (List.mem_of_mem_getLast? hlast)
  opened := fun s hs => by
    have hmem := List.mem_of_mem_tail hs
    obtain ⟨c, rest, rfl⟩ := List.exists_cons_of_ne_nil (hnonempty s hmem)
    refine ⟨c, List.mem_cons_self, ?_⟩
    rintro rfl
    exact h _ hmem List.mem_cons_self

end LineAtlas.Mangled

namespace LineAtlas.ClassName

/-- A text that can be a segment of a package or a class of a chain: there are characters in it,
and no separators. -/
structure IsSegment (s : String) : Prop where
  /-- There are characters. -/
  nonempty : s ≠ ""
  /-- No dot is among them. -/
  dot : '.' ∉ s.toList
  /-- No slash is among them. -/
  slash : '/' ∉ s.toList

/-- It can be decided whether a text is a segment. -/
instance (s : String) : Decidable (IsSegment s) :=
  decidable_of_iff (s ≠ "" ∧ '.' ∉ s.toList ∧ '/' ∉ s.toList)
    ⟨fun h => ⟨h.1, h.2.1, h.2.2⟩, fun h => ⟨h.nonempty, h.dot, h.slash⟩⟩

/-- A chain of classes behind the segments of a package, with a slash after each segment. -/
def inPackage (packages : List String) (chain : String) : String :=
  if packages = [] then chain else "/".intercalate packages ++ "/" ++ chain

variable {packages classes outer : List String} {package chain last : String}

/-- The last slash stands between the package and the chain, if there is a package. -/
theorem cutLast?_inPackage (hchain : '/' ∉ chain.toList) :
    Text.cutLast? '/' (inPackage packages chain)
      = if packages = [] then none else some ("/".intercalate packages, chain) := by
  rw [inPackage]
  split
  · exact Text.cutLast?_eq_none_iff.mpr hchain
  · exact Text.cutLast?_eq_some_iff.mpr ⟨rfl, hchain⟩

/-- A chain of segments has no slash in it, whatever separates them. -/
theorem slash_not_mem (separator : Char) (hseparator : '/' ≠ separator)
    (hclasses : ∀ s ∈ classes, IsSegment s) :
    '/' ∉ (separator.toString.intercalate classes).toList :=
  Text.not_mem_intercalate hseparator fun s hs => (hclasses s hs).slash

/-- The package and the chain of a metadata form are told apart by its last slash. -/
theorem ofMetadata_inPackage (hpackages : ∀ s ∈ packages, IsSegment s)
    (hclasses : ∀ s ∈ classes, IsSegment s) :
    ofMetadata (inPackage packages (".".intercalate classes))
      = ⟨".".intercalate packages, ".".intercalate classes⟩ := by
  have hdots : Text.replaceChar '/' '.' ("/".intercalate packages) = ".".intercalate packages :=
    Text.replaceChar_intercalate fun s hs => (hpackages s hs).slash
  have hchain : '/' ∉ (".".intercalate classes).toList :=
    slash_not_mem '.' (by decide) hclasses
  rw [ofMetadata, cutLast?_inPackage hchain]
  by_cases hroot : packages = []
  · rw [if_pos hroot, hroot, inPackage, if_pos rfl]
    rfl
  · rw [if_neg hroot]
    exact congrArg (ClassName.mk · _) hdots

/-- The classes of a chain are its segments, as none of them has a dot in it. -/
theorem segments_chain (hsome : classes ≠ []) (hclasses : ∀ s ∈ classes, IsSegment s) :
    (ClassName.mk package (".".intercalate classes)).segments = classes :=
  Text.pieces_intercalate hsome fun s hs => (hclasses s hs).dot

/-- The last class of a chain is cut off from the ones around it. -/
theorem cutLast?_chain (hlast : IsSegment last) :
    Text.cutLast? '.' (".".intercalate (outer ++ [last]))
      = if outer = [] then none else some (".".intercalate outer, last) := by
  split
  next houter =>
    rw [houter, List.nil_append, String.intercalate_singleton]
    exact Text.cutLast?_eq_none_iff.mpr hlast.dot
  next houter => exact Text.cutLast?_intercalate houter hlast.dot

/-- The last class of a chain is the one that was put behind the others. -/
theorem last_chain (hlast : IsSegment last) :
    (ClassName.mk package (".".intercalate (outer ++ [last]))).last = last := by
  rw [ClassName.last, cutLast?_chain hlast]
  by_cases houter : outer = []
  · rw [if_pos houter, houter, List.nil_append, String.intercalate_singleton]
  · rw [if_neg houter]

/-- The class around the last one of a chain is the chain without it, if anything is left. -/
theorem parent?_chain (hlast : IsSegment last) :
    (ClassName.mk package (".".intercalate (outer ++ [last]))).parent?
      = if outer = [] then none else some ⟨package, ".".intercalate outer⟩ := by
  rw [parent?, cutLast?_chain hlast]
  by_cases houter : outer = []
  · rw [if_pos houter, if_pos houter]
    rfl
  · rw [if_neg houter, if_neg houter]
    rfl

/-- A class nested in the last one of a chain makes the chain longer. -/
theorem nested_chain (houter : outer ≠ []) :
    (ClassName.mk package (".".intercalate outer)).nested last
      = ⟨package, ".".intercalate (outer ++ [last])⟩ := by
  rw [nested, String.intercalate_append_of_ne_nil houter (by simp), String.intercalate_singleton]

/-- The internal form has slashes in the package and dollars in the chain. -/
theorem internal_chain (hpackages : ∀ s ∈ packages, IsSegment s)
    (hclasses : ∀ s ∈ classes, IsSegment s) :
    (ClassName.mk (".".intercalate packages) (".".intercalate classes)).internal
      = inPackage packages ("$".intercalate classes) := by
  have hdollars : Text.replaceChar '.' '$' (".".intercalate classes) = "$".intercalate classes :=
    Text.replaceChar_intercalate fun s hs => (hclasses s hs).dot
  have hslashes : Text.replaceChar '.' '/' (".".intercalate packages) = "/".intercalate packages :=
    Text.replaceChar_intercalate fun s hs => (hpackages s hs).dot
  rw [internal, inPackage]
  dsimp only
  rw [hdollars, hslashes]
  cases packages with
  | nil => rfl
  | cons first rest =>
    have hfirst : first ≠ "" := (hpackages first List.mem_cons_self).nonempty
    have hsome : (".".intercalate (first :: rest)).isEmpty = false := by
      rw [String.isEmpty_eq_false_iff]
      cases rest with
      | nil => rwa [String.intercalate_singleton]
      | cons next others => simp [String.intercalate_cons_cons, hfirst]
    rw [hsome, if_neg (by simp), if_neg (by simp)]

/-- The internal form without the package is the chain. -/
theorem simpleNameOf_inPackage (hchain : '/' ∉ chain.toList) :
    ClassFile.simpleNameOf (inPackage packages chain) = chain := by
  rw [ClassFile.simpleNameOf, cutLast?_inPackage hchain]
  by_cases hroot : packages = []
  · rw [if_pos hroot, hroot, inPackage, if_pos rfl]
  · rw [if_neg hroot]

/-- Segments without dollars come back from the chain with dollars between them. -/
theorem split_chain (hsome : classes ≠ []) (hclasses : ∀ s ∈ classes, IsSegment s)
    (hdollar : ∀ s ∈ classes, '$' ∉ s.toList) :
    Mangled.split ("$".intercalate classes) = .ok classes := by
  refine Mangled.split_eq_ok_iff.mpr ⟨rfl, Mangled.splittable_of_not_mem ?_ ?_ ?_⟩
  · simpa using hsome
  · simpa using fun s hs => (hclasses s hs).nonempty
  · simpa using hdollar

/-- A name that is spelled by segments of a package and a chain of classes keeps the chain: its
classes and their number, the last of them, and the class around it, in which the last class is
nested again. Its internal form has the chain with dollars behind the package, and from there the
classes come back when there are no dollars in them. -/
theorem ofMetadata_keepsChain (hpackages : ∀ s ∈ packages, IsSegment s)
    (hclasses : ∀ s ∈ classes, IsSegment s) (hsome : classes ≠ []) :
    let spelled (chain : List String) := ofMetadata (inPackage packages (".".intercalate chain))
    let name := spelled classes
    name.segments = classes ∧ name.depth = classes.length ∧ name.last = classes.getLast hsome ∧
      name.parent? = (if classes.length = 1 then none else some (spelled classes.dropLast)) ∧
      (∀ parent, name.parent? = some parent →
        parent.segments = classes.dropLast ∧ parent.nested name.last = name) ∧
      name.internal = inPackage packages ("$".intercalate classes) ∧
      ((∀ s ∈ classes, '$' ∉ s.toList) →
        Mangled.split (ClassFile.simpleNameOf name.internal) = .ok classes) := by
  obtain ⟨outer, last, rfl⟩ : ∃ outer last, classes = outer ++ [last] :=
    ⟨_, _, (List.dropLast_concat_getLast hsome).symm⟩
  have hlast : IsSegment last := hclasses last (by simp)
  have houter : ∀ s ∈ outer, IsSegment s := fun s hs => hclasses s (List.mem_append_left _ hs)
  intro spelled name
  have hname : name = ⟨".".intercalate packages, ".".intercalate (outer ++ [last])⟩ :=
    ofMetadata_inPackage hpackages hclasses
  have haround : spelled outer = ⟨".".intercalate packages, ".".intercalate outer⟩ :=
    ofMetadata_inPackage hpackages houter
  have hparent : name.parent? = if outer = [] then none else some (spelled outer) := by
    rw [hname, parent?_chain hlast, haround]
  have hsegments : name.segments = outer ++ [last] := by
    rw [hname, segments_chain hsome hclasses]
  have hinternal : name.internal = inPackage packages ("$".intercalate (outer ++ [last])) := by
    rw [hname, internal_chain hpackages hclasses]
  refine ⟨hsegments, congrArg List.length hsegments, ?_, ?_, fun parent hfound => ?_, hinternal,
    fun hdollar => ?_⟩
  · rw [hname, last_chain hlast, List.getLast_concat]
  · rw [hparent, List.dropLast_concat]
    simp
  · rw [hparent] at hfound
    split at hfound
    next => cases hfound
    next hinner =>
      rw [← Option.some.inj hfound, haround, hname, last_chain hlast, List.dropLast_concat]
      exact ⟨segments_chain hinner houter, nested_chain hinner⟩
  · have hchain : '/' ∉ ("$".intercalate (outer ++ [last])).toList :=
      slash_not_mem '$' (by decide) hclasses
    rw [hinternal, simpleNameOf_inPackage hchain]
    exact split_chain hsome hclasses hdollar

/-- A chain of three classes in a package. -/
theorem ofMetadata_keepsChain_threeClasses :
    let name := ofMetadata "com/example/Outer.Inner.Deep"
    name.segments = ["Outer", "Inner", "Deep"] ∧ name.depth = 3 ∧ name.last = "Deep" ∧
      name.parent? = some (ofMetadata "com/example/Outer.Inner") ∧
      (ofMetadata "com/example/Outer.Inner").nested "Deep" = name ∧
      name.internal = "com/example/Outer$Inner$Deep" ∧
      Mangled.split (ClassFile.simpleNameOf name.internal) = .ok ["Outer", "Inner", "Deep"] := by
  have hpackages : ∀ s ∈ ["com", "example"], IsSegment s := by decide
  have hclasses : ∀ s ∈ ["Outer", "Inner", "Deep"], IsSegment s := by decide
  have hname : "com/example/Outer.Inner.Deep"
      = inPackage ["com", "example"] (".".intercalate ["Outer", "Inner", "Deep"]) := by decide
  have haround : "com/example/Outer.Inner"
      = inPackage ["com", "example"] (".".intercalate ["Outer", "Inner"]) := by decide
  obtain ⟨hsegments, hdepth, hlast, hparent, hnested, hinternal, hsplit⟩ :=
    ofMetadata_keepsChain hpackages hclasses (by decide)
  have hback := (hnested _ hparent).2
  rw [hlast] at hback
  rw [hname, haround]
  refine ⟨hsegments, hdepth, hlast, hparent, hback, ?_, hsplit (by decide)⟩
  rw [hinternal]
  decide

end LineAtlas.ClassName
