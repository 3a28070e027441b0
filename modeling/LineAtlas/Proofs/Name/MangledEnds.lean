import Mathlib.Algebra.Ring.Parity
import LineAtlas.Proofs.Name.Mangled

/-!
# Which names are mangled names

Only the runs of dollars at the two ends of a name decide whether it can be taken apart: inside a
name every run either belongs to a segment or separates two of them. A name that cannot be taken
apart is refused for what its ends are.
-/

namespace LineAtlas.Mangled

/-- The number of dollars that a text begins with. -/
def leadingRun (text : List Char) : Nat := (text.takeWhile (· = '$')).length

/-- The number of dollars that a text ends with. -/
def trailingRun (text : List Char) : Nat := leadingRun text.reverse

/-- A name is refused, with itself and a wording of what is wrong with it. -/
def IsRefusedFor (name reason : String) : Prop :=
  ∃ m, split name = .error m ∧ m.name = name ∧ m.fault.message = reason

/-- A text of dollars alone begins with all of them. -/
theorem leadingRun_replicate (run : Nat) : leadingRun (List.replicate run '$') = run := by
  simp [leadingRun]

/-- The run at the beginning ends at another character. -/
theorem leadingRun_append_char (run : Nat) {c : Char} (hc : c ≠ '$') (rest : List Char) :
    leadingRun (List.replicate run '$' ++ c :: rest) = run := by
  induction run with
  | zero => simp [leadingRun, hc]
  | succ run ih =>
    rw [leadingRun] at ih ⊢
    rw [List.replicate_succ, List.cons_append, List.takeWhile_cons_of_pos (by simp),
      List.length_cons, ih]

/-- A text of dollars alone ends with all of them. -/
theorem trailingRun_replicate (run : Nat) : trailingRun (List.replicate run '$') = run := by
  rw [trailingRun, List.reverse_replicate, leadingRun_replicate]

/-- What stands before another character does not matter for the run at the end. -/
theorem trailingRun_append_char (before : List Char) {c : Char} (hc : c ≠ '$')
    (rest : List Char) : trailingRun (before ++ c :: rest) = trailingRun rest := by
  have hreverse : (before ++ c :: rest).reverse = rest.reverse ++ c :: before.reverse := by simp
  have hstop : (c :: before.reverse).takeWhile (· = '$') = [] := by simp [hc]
  rw [trailingRun, trailingRun, leadingRun, leadingRun, hreverse, List.takeWhile_append, hstop]
  split
  next hall => rw [List.append_nil, hall]
  next => rfl

/-- Inside a segment nothing but a run at the end can be wrong. -/
theorem segmentsFrom_inside {current : List Char} (hcurrent : current ≠ []) (run : Nat)
    (text : List Char) :
    (Even (trailingRun (List.replicate run '$' ++ text)) ∧
        ∃ segments, segmentsFrom current run text = .ok segments) ∨
      Odd (trailingRun (List.replicate run '$' ++ text)) ∧
        segmentsFrom current run text = .error .trailingDollar := by
  induction text generalizing current run with
  | nil =>
    have hsome : (current.isEmpty && run == 0) = false := by simp [hcurrent]
    rw [List.append_nil, trailingRun_replicate, segmentsFrom, hsome]
    by_cases hrun : run % 2 = 1
    · right
      exact ⟨Nat.odd_iff.mpr hrun, if_pos hrun⟩
    · left
      exact ⟨Nat.even_iff.mpr (by omega), [current ++ List.replicate run '$'], if_neg hrun⟩
  | cons c rest ih =>
    by_cases hc : c = '$'
    · have hlonger : List.replicate run '$' ++ c :: rest
          = List.replicate (run + 1) '$' ++ rest := by
        simp [hc, List.replicate_succ']
      rw [hlonger, segmentsFrom, if_pos hc]
      exact ih hcurrent (run + 1)
    · rw [trailingRun_append_char _ hc, segmentsFrom, if_neg hc]
      by_cases hrun : run % 2 = 0
      · rw [if_pos hrun]
        exact ih (by simp) 0
      · -- the run separates two segments, and the first of them is not empty
        have hsome : current.isEmpty = false := by simpa using hcurrent
        rw [if_neg hrun, hsome]
        have hnext : List.replicate (run - 1) '$' ++ [c] ≠ [] := by simp
        rcases ih hnext 0 with ⟨heven, segments, hsegments⟩ | ⟨hodd, herror⟩
        · left
          exact ⟨heven, current :: segments, Except.map_ok _ hsegments⟩
        · right
          refine ⟨hodd, ?_⟩
          rw [if_neg (by simp), herror]
          rfl

/-- What becomes of a text, by the runs at its ends. -/
inductive Ends (text : List Char) : Except Fault (List (List Char)) → Prop
  /-- There is nothing. -/
  | empty (hnil : text = []) : Ends text (.error .emptyName)
  /-- The first dollar would separate nothing from what follows. -/
  | opened (hodd : Odd (leadingRun text)) (hshort : leadingRun text < text.length) :
      Ends text (.error .emptySegment)
  /-- The text ends in a separator. -/
  | closed (hsome : text ≠ []) (hstart : ¬ (Odd (leadingRun text) ∧ leadingRun text < text.length))
      (hodd : Odd (leadingRun text) ∨ Odd (trailingRun text)) :
      Ends text (.error .trailingDollar)
  /-- All dollars at the ends stand in pairs. -/
  | whole (hsome : text ≠ []) (hstart : Even (leadingRun text)) (hend : Even (trailingRun text))
      (segments : List (List Char)) : Ends text (.ok segments)

/-- A text of dollars alone is a segment or a separator with nothing behind it. -/
theorem ends_replicate (run : Nat) :
    Ends (List.replicate run '$') (segmentsFrom [] 0 (List.replicate run '$')) := by
  have hread := segmentsFrom_run [] 0 run []
  rw [List.append_nil, Nat.zero_add] at hread
  have hlength : ¬ leadingRun (List.replicate run '$') < (List.replicate run '$').length := by
    rw [leadingRun_replicate, List.length_replicate]
    omega
  rw [hread, segmentsFrom]
  by_cases hodd : run % 2 = 1
  · rw [if_pos hodd]
    refine .closed ?_ (fun h => hlength h.2) (Or.inl ?_)
    · rw [Ne, List.replicate_eq_nil_iff]
      omega
    · rw [leadingRun_replicate]
      exact Nat.odd_iff.mpr hodd
  · rw [if_neg hodd]
    have heven : Even run := Nat.even_iff.mpr (by omega)
    by_cases hzero : run = 0
    · rw [hzero]
      exact .empty rfl
    · have hsome : (([] : List Char).isEmpty && run == 0) = false := by simpa using hzero
      rw [hsome]
      refine .whole ?_ ?_ ?_ _
      · rwa [Ne, List.replicate_eq_nil_iff]
      · rwa [leadingRun_replicate]
      · rwa [trailingRun_replicate]

/-- A text with another character is taken apart from there on, unless it begins with a
separator. -/
theorem ends_append_char (run : Nat) {c : Char} (hc : c ≠ '$') (rest : List Char) :
    Ends (List.replicate run '$' ++ c :: rest)
      (segmentsFrom [] 0 (List.replicate run '$' ++ c :: rest)) := by
  have hlead := leadingRun_append_char run hc rest
  have htrail := trailingRun_append_char (List.replicate run '$') hc rest
  have hshort : leadingRun (List.replicate run '$' ++ c :: rest)
      < (List.replicate run '$' ++ c :: rest).length := by
    rw [hlead, List.length_append, List.length_replicate, List.length_cons]
    omega
  rw [segmentsFrom_run, Nat.zero_add, segmentsFrom, if_neg hc]
  by_cases hrun : run % 2 = 0
  · have heven : Even (leadingRun (List.replicate run '$' ++ c :: rest)) := by
      rw [hlead]
      exact Nat.even_iff.mpr hrun
    rw [if_pos hrun]
    have hfirst : [] ++ List.replicate run '$' ++ [c] ≠ [] := by simp
    rcases segmentsFrom_inside hfirst 0 rest with
      ⟨hend, segments, hsegments⟩ | ⟨hend, herror⟩
    · rw [hsegments]
      exact .whole (by simp) heven (htrail ▸ hend) segments
    · rw [herror]
      exact .closed (by simp) (fun h => Nat.not_even_iff_odd.mpr h.1 heven) (Or.inr (htrail ▸ hend))
  · rw [if_neg hrun]
    refine .opened ?_ hshort
    rw [hlead]
    exact Nat.odd_iff.mpr (by omega)

/-- What becomes of a text is told by the runs at its ends. -/
theorem ends_segmentsFrom (text : List Char) : Ends text (segmentsFrom [] 0 text) := by
  by_cases hother : ∃ c ∈ text, c ≠ '$'
  · obtain ⟨run, c, rest, hc, rfl⟩ := exists_first_char hother
    exact ends_append_char run hc rest
  · have hall : text = List.replicate text.length '$' :=
      List.eq_replicate_of_mem fun c hmem => by_contra fun hc => hother ⟨c, hmem, hc⟩
    rw [hall]
    exact ends_replicate text.length

/-- Faults of names have different messages. -/
theorem Fault.message_inj {one two : Fault} (h : one.message = two.message) : one = two := by
  cases one <;> cases two <;> simp_all [Fault.message]

/-- A refusal with a wording is a fault of the characters. -/
theorem isRefusedFor_iff {name : String} (fault : Fault) :
    IsRefusedFor name fault.message ↔ segmentsFrom [] 0 name.toList = .error fault := by
  rw [IsRefusedFor, split]
  constructor
  · rintro ⟨m, herror, -, hmessage⟩
    split at herror
    next => simp at herror
    next found hfound =>
      obtain rfl := Except.error.inj herror
      exact hfound.trans (congrArg Except.error (Fault.message_inj hmessage))
  · intro h
    rw [h]
    exact ⟨⟨name, fault⟩, rfl, rfl, rfl⟩

/-- A name is taken apart exactly if its characters are. -/
theorem exists_split_iff {name : String} :
    (∃ segments, split name = .ok segments) ↔
      ∃ segments, segmentsFrom [] 0 name.toList = .ok segments := by
  rw [split]
  cases segmentsFrom [] 0 name.toList <;> simp

/-- A name can be taken apart just when it is not empty and the runs of dollars at both of its ends
are even. It is refused as an empty name just when it is one, for an empty segment just when it goes
on behind an odd run at its front, and otherwise for a dollar at its end; the refusal has the whole
name. What is found is at least one segment, and no segment is empty. -/
theorem split_byEnds (name : String) :
    ((∃ segments, split name = .ok segments) ↔
      name ≠ "" ∧ Even (leadingRun name.toList) ∧ Even (trailingRun name.toList)) ∧
    (IsRefusedFor name "empty name" ↔ name = "") ∧
    (IsRefusedFor name "empty segment" ↔
      Odd (leadingRun name.toList) ∧ leadingRun name.toList < name.toList.length) ∧
    (IsRefusedFor name "trailing `$`" ↔
      name ≠ "" ∧ ¬ (Odd (leadingRun name.toList) ∧ leadingRun name.toList < name.toList.length) ∧
        (Odd (leadingRun name.toList) ∨ Odd (trailingRun name.toList))) ∧
    (∀ m, split name = .error m → m.name = name) ∧
    ∀ segments, split name = .ok segments → segments ≠ [] ∧ ∀ s ∈ segments, s ≠ "" := by
  have hempty : IsRefusedFor name "empty name" ↔ _ := isRefusedFor_iff .emptyName
  have hsegment : IsRefusedFor name "empty segment" ↔ _ := isRefusedFor_iff .emptySegment
  have hdollar : IsRefusedFor name "trailing `$`" ↔ _ := isRefusedFor_iff .trailingDollar
  have hnil : name = "" ↔ name.toList = [] := String.toList_eq_nil_iff.symm
  have hends := ends_segmentsFrom name.toList
  have herrors (m : Malformed) (hm : split name = .error m) : m.name = name := by
    rw [split] at hm
    split at hm
    · simp at hm
    · rw [← Except.error.inj hm]
  have hfound (segments : List String) (hsplit : split name = .ok segments) :
      segments ≠ [] ∧ ∀ s ∈ segments, s ≠ "" := by
    obtain ⟨-, hsplittable⟩ := split_eq_ok_iff.mp hsplit
    refine ⟨?_, ?_⟩
    · simpa using hsplittable.nonempty
    · simpa using hsplittable.segments_nonempty
  rw [exists_split_iff, hempty, hsegment, hdollar, Ne, hnil]
  generalize segmentsFrom [] 0 name.toList = outcome at hends
  cases hends with
  | whole hsome hstart hend segments =>
    have hleading := Nat.not_odd_iff_even.mpr hstart
    have htrailing := Nat.not_odd_iff_even.mpr hend
    refine ⟨iff_of_true ⟨segments, rfl⟩ ⟨hsome, hstart, hend⟩, iff_of_false (by simp) hsome,
      iff_of_false (by simp) fun h => hleading h.1, iff_of_false (by simp) fun h => ?_,
      herrors, hfound⟩
    exact h.2.2.elim hleading htrailing
  | empty hnone =>
    have hlength : ¬ leadingRun name.toList < name.toList.length := by simp [hnone]
    exact ⟨iff_of_false (by simp) fun h => h.1 hnone, iff_of_true rfl hnone,
      iff_of_false (by simp) fun h => hlength h.2, iff_of_false (by simp) fun h => h.1 hnone,
      herrors, hfound⟩
  | opened hodd hshort =>
    have hsome : name.toList ≠ [] := List.ne_nil_of_length_pos (by omega)
    refine ⟨iff_of_false (by simp) fun h => ?_, iff_of_false (by simp) hsome,
      iff_of_true rfl ⟨hodd, hshort⟩, iff_of_false (by simp) fun h => h.2.1 ⟨hodd, hshort⟩,
      herrors, hfound⟩
    exact Nat.not_even_iff_odd.mpr hodd h.2.1
  | closed hsome hstart hodd =>
    refine ⟨iff_of_false (by simp) fun h => ?_, iff_of_false (by simp) hsome,
      iff_of_false (by simp) hstart, iff_of_true rfl ⟨hsome, hstart, hodd⟩, herrors, hfound⟩
    rcases hodd with hleading | htrailing
    · exact Nat.not_even_iff_odd.mpr hleading h.2.1
    · exact Nat.not_even_iff_odd.mpr htrailing h.2.2

/-- With odd runs at both ends, it is the one at the front that counts. -/
example : split "$a$" = .error ⟨"$a$", .emptySegment⟩ := by decide

end LineAtlas.Mangled
