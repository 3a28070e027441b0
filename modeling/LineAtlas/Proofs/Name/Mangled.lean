import LineAtlas.Name.Mangled
import LineAtlas.Proofs.Except
import Mathlib.Algebra.Group.Nat.Even
import Mathlib.Data.List.Basic

/-!
# Taking mangled names apart

The segments of a mangled name, put together again, are the name. Segments come back from their
mangled name exactly when no run of dollars in it can be taken for another one: runs inside
segments are even, and no run goes from one segment into the next.
-/

namespace LineAtlas.Mangled

/-- Every run of dollars that has no dollar before or after it has an even length. -/
def EvenRuns (text : List Char) : Prop :=
  ∀ before run after, text = before ++ List.replicate run '$' ++ after →
    before.getLast? ≠ some '$' → after.head? ≠ some '$' → Even run

/-- Segments that a mangled name keeps apart. -/
structure Splittable (segments : List (List Char)) : Prop where
  /-- There is a segment. -/
  nonempty : segments ≠ []
  /-- No segment is empty. -/
  segments_nonempty : ∀ s ∈ segments, s ≠ []
  /-- Inside a segment dollars stand in pairs. -/
  evenRuns : ∀ s ∈ segments, EvenRuns s
  /-- Only the last segment may end in a dollar. -/
  closed : ∀ s ∈ segments.dropLast, s.getLast? ≠ some '$'
  /-- Only the first segment may be made of dollars alone. -/
  opened : ∀ s ∈ segments.tail, ∃ c ∈ s, c ≠ '$'

/-- No text has no runs. -/
theorem evenRuns_nil : EvenRuns [] := by
  intro before run after h _ _
  have hrun : run = 0 := by
    have hlength := congrArg List.length h
    simp at hlength
    omega
  simp [hrun]

/-- A character behind a run ends it. -/
theorem EvenRuns.append_char {text : List Char} {c : Char} (h : EvenRuns text) (hc : c ≠ '$') :
    EvenRuns (text ++ [c]) := by
  intro before run after heq hbefore hafter
  rcases List.eq_nil_or_concat after with rfl | ⟨after, d, rfl⟩
  · cases run with
    | zero => exact Even.zero
    | succ run =>
      -- a run at the end would end in `c`
      rw [List.append_nil, List.replicate_succ', ← List.append_assoc] at heq
      exact absurd (List.append_inj_right' heq rfl) (by simpa using hc)
  · rw [List.concat_eq_append, ← List.append_assoc] at heq
    refine h before run after (List.append_inj_left' heq rfl) hbefore ?_
    intro hhead
    refine hafter ?_
    rw [List.concat_eq_append, List.head?_append, hhead]
    rfl

/-- A text that does not end in a dollar ends in a run of none. -/
theorem getLast?_replicate_dollar {run : Nat} {before : List Char}
    (h : (before ++ List.replicate run '$').getLast? ≠ some '$') : run = 0 := by
  cases run with
  | zero => rfl
  | succ run =>
    rw [List.replicate_succ', ← List.append_assoc, List.getLast?_concat] at h
    exact absurd rfl h

/-- Where two texts that do not end in a dollar are followed by runs, the runs are as long. -/
theorem run_eq_of_append_eq {one two : List Char} {run other : Nat}
    (h : one ++ List.replicate run '$' = two ++ List.replicate other '$')
    (hone : one.getLast? ≠ some '$') (htwo : two.getLast? ≠ some '$') : run = other := by
  rcases List.append_eq_append_iff.mp h with ⟨middle, rfl, hruns⟩ | ⟨middle, rfl, hruns⟩
  · obtain ⟨-, hmiddle, -⟩ := List.replicate_eq_append_iff.mp hruns
    rw [hmiddle] at htwo hruns
    have hzero := getLast?_replicate_dollar htwo
    have hlength := congrArg List.length hruns
    simp only [List.length_append, List.length_replicate] at hlength
    omega
  · obtain ⟨-, hmiddle, -⟩ := List.replicate_eq_append_iff.mp hruns
    rw [hmiddle] at hone hruns
    have hzero := getLast?_replicate_dollar hone
    have hlength := congrArg List.length hruns
    simp only [List.length_append, List.length_replicate] at hlength
    omega

/-- An even run behind a text that does not end in a dollar. -/
theorem EvenRuns.append_run {text : List Char} {run : Nat} (h : EvenRuns text)
    (htext : text.getLast? ≠ some '$') (hrun : Even run) :
    EvenRuns (text ++ List.replicate run '$') := by
  intro before other after heq hbefore hafter
  cases after with
  | nil =>
    rw [List.append_nil] at heq
    rwa [← run_eq_of_append_eq heq htext hbefore]
  | cons d after =>
    have hd : d ≠ '$' := by simpa using hafter
    -- the run is followed by another character, so that it lies inside the text
    rcases List.append_eq_append_iff.mp heq with ⟨middle, -, hruns⟩ | ⟨middle, htext, hruns⟩
    · have hmem : d ∈ List.replicate run '$' := by simp [hruns]
      exact absurd (List.eq_of_mem_replicate hmem) hd
    · refine h before other middle htext hbefore ?_
      cases middle with
      | nil =>
        have hmem : d ∈ List.replicate run '$' := by
          rw [← List.nil_append (List.replicate run '$'), ← hruns]
          exact List.mem_cons_self
        exact absurd (List.eq_of_mem_replicate hmem) hd
      | cons e middle =>
        obtain ⟨rfl, -⟩ := List.cons.inj hruns
        simpa using hd

/-- A run of an even number of dollars alone is even. -/
theorem evenRuns_replicate {run : Nat} (hrun : Even run) :
    EvenRuns (List.replicate run '$') := by
  simpa using evenRuns_nil.append_run (by simp) hrun

/-- A text with another character than dollars has a first one, behind a run. -/
theorem exists_first_char {text : List Char} (h : ∃ c ∈ text, c ≠ '$') :
    ∃ run c rest, c ≠ '$' ∧ text = List.replicate run '$' ++ c :: rest := by
  induction text with
  | nil => simp at h
  | cons d text ih =>
    by_cases hd : d = '$'
    · subst hd
      obtain ⟨c, hmem, hc⟩ := h
      obtain ⟨run, e, rest, he, rfl⟩ :=
        ih ⟨c, (List.mem_cons.mp hmem).resolve_left hc, hc⟩
      exact ⟨run + 1, e, rest, he, rfl⟩
    · exact ⟨0, d, text, hd, rfl⟩

/-- Each segment but the first stands behind a dollar. -/
theorem intercalate_cons (s : List Char) (others : List (List Char)) :
    ['$'].intercalate (s :: others) = s ++ others.flatMap ('$' :: ·) := by
  induction others generalizing s with
  | nil => simp
  | cons next others ih => simp [List.intercalate_cons_cons, ih]

namespace Splittable

variable {s : List Char} {others : List (List Char)}

/-- A single segment can be told apart when its runs are even. -/
theorem singleton (hs : s ≠ []) (heven : EvenRuns s) : Splittable [s] :=
  ⟨by simp, by simpa using hs, by simpa using heven, by simp, by simp⟩

/-- One more segment in front. -/
theorem cons {next : List Char} (h : Splittable (next :: others)) (hs : s ≠ [])
    (heven : EvenRuns s) (hclosed : s.getLast? ≠ some '$') (hopened : ∃ c ∈ next, c ≠ '$') :
    Splittable (s :: next :: others) where
  nonempty := by simp
  segments_nonempty := List.forall_mem_cons.mpr ⟨hs, h.segments_nonempty⟩
  evenRuns := List.forall_mem_cons.mpr ⟨heven, h.evenRuns⟩
  closed := List.forall_mem_cons.mpr ⟨hclosed, h.closed⟩
  opened := List.forall_mem_cons.mpr ⟨hopened, h.opened⟩

/-- The segments behind the first one. -/
theorem tail {next : List Char} (h : Splittable (s :: next :: others)) :
    Splittable (next :: others) where
  nonempty := by simp
  segments_nonempty := fun t ht => h.segments_nonempty t (List.mem_cons_of_mem s ht)
  evenRuns := fun t ht => h.evenRuns t (List.mem_cons_of_mem s ht)
  closed := fun t ht => h.closed t (List.mem_cons_of_mem s ht)
  opened := fun t ht => h.opened t (List.mem_cons_of_mem next ht)

end Splittable

/-- Dollars in front of a text go on with the run before it. -/
theorem segmentsFrom_run (current : List Char) (run more : Nat) (rest : List Char) :
    segmentsFrom current run (List.replicate more '$' ++ rest)
      = segmentsFrom current (run + more) rest := by
  induction more generalizing run with
  | zero => rfl
  | succ more ih =>
    rw [List.replicate_succ, List.cons_append, segmentsFrom, if_pos rfl, ih,
      Nat.add_assoc, Nat.add_comm 1]

/-- Reading goes through the text of a segment without leaving it. -/
theorem exists_segmentsFrom_append {current : List Char} {run : Nat} (text rest : List Char)
    (hcurrent : current.getLast? ≠ some '$')
    (heven : EvenRuns (current ++ List.replicate run '$' ++ text)) :
    ∃ read last, read ++ List.replicate last '$' = current ++ List.replicate run '$' ++ text ∧
      read.getLast? ≠ some '$' ∧
      segmentsFrom current run (text ++ rest) = segmentsFrom read last rest := by
  induction text generalizing current run with
  | nil => exact ⟨current, run, by simp, hcurrent, rfl⟩
  | cons c text ih =>
    by_cases hc : c = '$'
    · subst hc
      have hwhole : current ++ List.replicate run '$' ++ '$' :: text
          = current ++ List.replicate (run + 1) '$' ++ text := by
        simp [List.replicate_succ']
      rw [hwhole] at heven ⊢
      rw [List.cons_append, segmentsFrom, if_pos rfl]
      exact ih hcurrent heven
    · have hrun : Even run := heven current run (c :: text) rfl hcurrent (by simpa using hc)
      have hwhole : current ++ List.replicate run '$' ++ c :: text
          = (current ++ List.replicate run '$' ++ [c]) ++ List.replicate 0 '$' ++ text := by
        simp
      rw [hwhole] at heven ⊢
      rw [List.cons_append, segmentsFrom, if_neg hc, if_pos (Nat.even_iff.mp hrun)]
      exact ih (by simpa using hc) heven

/-- Segments that a mangled name keeps apart are found in it, from any place in the first of them
that is not inside a run. -/
theorem segmentsFrom_eq_ok {others : List (List Char)} {s : List Char} (current text : List Char)
    (hcurrent : current.getLast? ≠ some '$') (hs : current ++ text = s)
    (h : Splittable (s :: others)) :
    segmentsFrom current 0 (text ++ others.flatMap ('$' :: ·)) = .ok (s :: others) := by
  have hne := h.segments_nonempty s List.mem_cons_self
  have heven : EvenRuns (current ++ List.replicate 0 '$' ++ text) := by
    simpa [hs] using h.evenRuns s List.mem_cons_self
  obtain ⟨read, last, hread, hlast, hfrom⟩ :=
    exists_segmentsFrom_append text (others.flatMap ('$' :: ·)) hcurrent heven
  have hread : read ++ List.replicate last '$' = s := by simpa [hs] using hread
  rw [hfrom]
  cases others with
  | nil =>
    have hrun : Even last :=
      h.evenRuns s List.mem_cons_self read last [] (by simp [hread]) hlast (by simp)
    have hpart : (read.isEmpty && last == 0) = false := by
      by_contra hempty
      simp_all
    simp [segmentsFrom, Nat.even_iff.mp hrun, hpart, hread]
  | cons next others =>
    -- a segment that is not the last one ends before the dollar
    have hclosed : s.getLast? ≠ some '$' := h.closed s List.mem_cons_self
    obtain rfl := getLast?_replicate_dollar (hread ▸ hclosed)
    obtain rfl : read = s := by simpa using hread
    obtain ⟨run, c, rest, hc, hnext⟩ := exists_first_char (h.opened next List.mem_cons_self)
    have hrun : Even run :=
      h.evenRuns next (by simp) [] run (c :: rest) hnext (by simp) (by simpa using hc)
    have hodd : ¬ (0 + (run + 1)) % 2 = 0 := by
      have := Nat.even_iff.mp hrun
      omega
    have hempty : read.isEmpty = false := by simpa using hne
    have hstart : (next :: others).flatMap ('$' :: ·)
        = List.replicate (run + 1) '$' ++ c :: (rest ++ others.flatMap ('$' :: ·)) := by
      simp [hnext, List.replicate_succ]
    have hrest := segmentsFrom_eq_ok (List.replicate run '$' ++ [c]) rest (by simpa using hc)
      (by simp [hnext]) h.tail
    rw [hstart, segmentsFrom_run, segmentsFrom, if_neg hc, if_neg hodd, hempty]
    simp [hrest]

/-- What is found in a mangled name: the segments make up the text, and a mangled name keeps them
apart. The first one starts with what was read before. -/
theorem splittable_of_segmentsFrom {current text : List Char} {run : Nat}
    {segments : List (List Char)} (hcurrent : current.getLast? ≠ some '$')
    (heven : EvenRuns current) (h : segmentsFrom current run text = .ok segments) :
    ∃ s others, segments = s :: others ∧ current <+: s ∧ Splittable (s :: others) ∧
      s ++ others.flatMap ('$' :: ·) = current ++ List.replicate run '$' ++ text := by
  induction text generalizing current run segments with
  | nil =>
    rw [segmentsFrom] at h
    split at h
    · simp at h
    next hodd =>
    split at h
    · simp at h
    next hempty =>
    obtain rfl := Except.ok.inj h
    have hrun : Even run := Nat.even_iff.mpr (by omega)
    refine ⟨_, [], rfl, List.prefix_append _ _, .singleton ?_ (heven.append_run hcurrent hrun), ?_⟩
    · simpa [List.append_eq_nil_iff] using hempty
    · simp
  | cons c text ih =>
    rw [segmentsFrom] at h
    split at h
    next hc =>
      obtain ⟨s, others, rfl, hprefix, hsplit, htext⟩ := ih hcurrent heven h
      refine ⟨s, others, rfl, hprefix, hsplit, htext.trans ?_⟩
      simp [hc, List.replicate_succ']
    next hc =>
    split at h
    next heq =>
      have hrun : Even run := Nat.even_iff.mpr heq
      obtain ⟨s, others, rfl, hprefix, hsplit, htext⟩ :=
        ih (by simpa using hc) ((heven.append_run hcurrent hrun).append_char hc) h
      refine ⟨s, others, rfl, ?_, hsplit, htext.trans (by simp)⟩
      exact (List.prefix_append _ _).trans (by simpa using hprefix)
    next hodd =>
    split at h
    · simp at h
    next hempty =>
    obtain ⟨found, hfound, rfl⟩ := Except.map_eq_ok h
    -- the first dollar of the run separates, the others open the next segment
    have hrun : Even (run - 1) := Nat.even_iff.mpr (by omega)
    have hread : (List.replicate (run - 1) '$' ++ [c]).getLast? ≠ some '$' := by simpa using hc
    obtain ⟨next, others, rfl, hprefix, hsplit, htext⟩ :=
      ih hread ((evenRuns_replicate hrun).append_char hc) hfound
    have hmem : c ∈ next := hprefix.subset (by simp)
    refine ⟨current, next :: others, rfl, List.prefix_refl current,
      hsplit.cons (by simpa using hempty) heven hcurrent ⟨c, hmem, hc⟩, ?_⟩
    have hsucc : run = run - 1 + 1 := by omega
    rw [List.flatMap_cons, List.cons_append, htext, hsucc, List.replicate_succ]
    simp

/-- The segments of a name make up the name, and come back from any name they make up. -/
theorem split_eq_ok_iff {name : String} {segments : List String} :
    split name = .ok segments ↔ join segments = name ∧ Splittable (segments.map String.toList) := by
  have hjoin : (join segments).toList = ['$'].intercalate (segments.map String.toList) :=
    String.toList_intercalate
  have hback : (segments.map String.toList).map String.ofList = segments := by simp
  rw [← String.toList_inj, hjoin]
  constructor
  · intro h
    rw [split] at h
    split at h
    next found hfound =>
      obtain rfl := Except.ok.inj h
      obtain ⟨s, others, rfl, -, hsplit, htext⟩ :=
        splittable_of_segmentsFrom (by simp) evenRuns_nil hfound
      have hfound : ((s :: others).map String.ofList).map String.toList = s :: others := by simp
      rw [hfound, intercalate_cons]
      exact ⟨by simpa using htext, hsplit⟩
    next => simp at h
  · rintro ⟨hname, hsplit⟩
    obtain ⟨s, others, hcons⟩ := List.exists_cons_of_ne_nil hsplit.nonempty
    rw [hcons] at hname hsplit hback
    rw [intercalate_cons] at hname
    rw [split, ← hname, segmentsFrom_eq_ok [] s (by simp) rfl hsplit]
    exact congrArg Except.ok hback

/-- Segments put together again are the name they come from, and segments come back from the name
they make up exactly when a mangled name keeps them apart. -/
theorem split_roundTrip :
    (∀ name segments, split name = .ok segments → join segments = name) ∧
      ∀ segments, split (join segments) = .ok segments
        ↔ Splittable (segments.map String.toList) :=
  ⟨fun _ _ h => (split_eq_ok_iff.mp h).1, fun _ => split_eq_ok_iff.trans (and_iff_right rfl)⟩

/-- Of an odd run the first dollar separates; a run that two segments make up together is lost. -/
theorem split_roundTrip_oddRun :
    split "a$$$b" = .ok ["a", "$$b"] ∧ join ["a", "$$b"] = "a$$$b" ∧
      Splittable (["a", "$$b"].map String.toList) ∧
      ¬ Splittable (["a$", "$b"].map String.toList) := by
  have hsplit : split "a$$$b" = .ok ["a", "$$b"] := by decide
  have hjoin := split_roundTrip.1 "a$$$b" ["a", "$$b"] hsplit
  have hlost : split (join ["a$", "$b"]) ≠ .ok ["a$", "$b"] := by decide
  refine ⟨hsplit, hjoin, (split_roundTrip.2 _).mp (by rw [hjoin, hsplit]), fun hsplittable => ?_⟩
  exact hlost ((split_roundTrip.2 _).mpr hsplittable)

end LineAtlas.Mangled
