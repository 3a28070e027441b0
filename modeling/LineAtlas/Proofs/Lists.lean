import Mathlib.Data.List.Basic
import Mathlib.Data.List.Nodup
import Mathlib.Data.List.Flatten
import Mathlib.Data.List.Forall2
import Mathlib.Data.List.Induction
import Mathlib.Data.List.Perm.Subperm

/-!
# Lists up to order

Facts on lists whose order does not matter: taking the first item of a kind out of a list, and
following a permutation back through a map.
-/

namespace LineAtlas.Lists

variable {α β γ : Type}

/-- The first item of a kind and what is left without it make up the whole list. -/
theorem perm_cons_eraseP {p : α → Bool} {l : List α} {a : α} (hfind : l.find? p = some a) :
    l.Perm (a :: l.eraseP p) := by
  induction l with
  | nil => simp at hfind
  | cons first rest ih =>
    by_cases hfirst : p first = true
    · have heq : first = a := by simpa [List.find?_cons, hfirst] using hfind
      rw [List.eraseP_cons_of_pos hfirst, heq]
    · have hrest : rest.find? p = some a := by simpa [List.find?_cons, hfirst] using hfind
      rw [List.eraseP_cons_of_neg hfirst]
      exact ((ih hrest).cons first).trans (List.Perm.swap a first _)

/-- Leaving out items that are not of a kind does not change which item of the kind is first. -/
theorem find?_of_sublist {p : α → Bool} {l l' : List α} (hsublist : l.Sublist l')
    (hnodup : l'.Nodup) (hmem : ∀ a ∈ l', p a = true → a ∈ l) : l'.find? p = l.find? p := by
  induction hsublist with
  | slnil => rfl
  | @cons l l' a hsub ih =>
    rw [List.nodup_cons] at hnodup
    have hfirst : p a = false := by
      by_contra hkind
      exact hnodup.1 (hsub.subset (hmem a List.mem_cons_self (by simpa using hkind)))
    rw [List.find?_cons, hfirst]
    exact ih hnodup.2 fun b hb => hmem b (List.mem_cons_of_mem a hb)
  | @cons_cons l l' a hsub ih =>
    rw [List.nodup_cons] at hnodup
    rw [List.find?_cons, List.find?_cons, ih hnodup.2 fun b hb hkind => ?_]
    refine (List.mem_cons.mp (hmem b (List.mem_cons_of_mem a hb) hkind)).resolve_left ?_
    rintro rfl
    exact hnodup.1 hb

/-- A permutation of the values of a map comes from a permutation of the items. -/
theorem exists_perm_map_eq {f : α → β} {l : List α} {m : List β} (hperm : (l.map f).Perm m) :
    ∃ l', l.Perm l' ∧ l'.map f = m := by
  induction hperm' : l.map f generalizing l m with
  | nil =>
    rw [hperm'] at hperm
    exact ⟨l, List.Perm.refl l, hperm'.trans hperm.nil_eq⟩
  | cons b bs ih =>
    obtain ⟨a, rest, rfl, rfl, rfl⟩ := List.map_eq_cons_iff.mp hperm'
    rw [List.map_cons] at hperm
    obtain ⟨before, after, rfl⟩ := List.append_of_mem (hperm.subset List.mem_cons_self)
    have hrest : (rest.map f).Perm (before ++ after) :=
      (hperm.trans List.perm_middle).cons_inv
    obtain ⟨items, hitems, hmap⟩ := ih hrest rfl
    obtain ⟨front, back, rfl, rfl, rfl⟩ := List.map_eq_append_iff.mp hmap
    exact ⟨front ++ a :: back, (hitems.cons a).trans List.perm_middle.symm, by simp⟩

/-- Without duplicates no item comes twice. -/
theorem nodup_eraseDups [BEq α] [LawfulBEq α] (l : List α) : l.eraseDups.Nodup := by
  induction hlength : l.length using Nat.strongRecOn generalizing l with
  | ind n ih =>
    cases l with
    | nil => exact List.nodup_nil
    | cons a rest =>
      have hshorter : (rest.filter fun b => !b == a).length < n := by
        have hfilter := List.length_filter_le (fun b => !b == a) rest
        rw [← hlength, List.length_cons]
        omega
      rw [List.eraseDups_cons, List.nodup_cons]
      refine ⟨fun hmem => ?_, ih _ hshorter _ rfl⟩
      rw [List.mem_eraseDups, List.mem_filter] at hmem
      simp at hmem

/-- Some items give some of what all of them give. -/
theorem Subperm.flatMap {l l' : List α} (h : l.Subperm l') (f : α → List β) :
    (l.flatMap f).Subperm (l'.flatMap f) := by
  obtain ⟨m, hperm, hsublist⟩ := h
  exact (hperm.flatMap_right f).symm.subperm.trans (hsublist.flatMap f).subperm

/-- Where each part is among the items of another one, so is the whole. -/
theorem Subperm.flatMap_left (l : List α) {f g : α → List β}
    (h : ∀ a ∈ l, (f a).Subperm (g a)) : (l.flatMap f).Subperm (l.flatMap g) := by
  induction l with
  | nil => exact List.Subperm.refl _
  | cons a rest ih =>
    rw [List.flatMap_cons, List.flatMap_cons]
    exact (h a List.mem_cons_self).append (ih fun b hb => h b (List.mem_cons_of_mem a hb))

/-- Parts that come from what is kept are empty for what is dropped. -/
theorem flatMap_filterMap (f : α → Option β) (g : β → List γ) (l : List α) :
    (l.filterMap f).flatMap g = l.flatMap fun a => (f a).toList.flatMap g := by
  rw [List.filterMap_eq_flatMap_toList, List.flatMap_assoc]

/-- Going through a list by position. -/
theorem range_flatMap_getElem? (l : List α) (g : α → List β) :
    (List.range l.length).flatMap (fun i => l[i]?.toList.flatMap g) = l.flatMap g := by
  have hitems : (List.range l.length).flatMap (fun i => l[i]?.toList) = l := by
    induction l with
    | nil => rfl
    | cons a rest ih =>
      rw [List.length_cons, List.range_succ_eq_map, List.flatMap_cons, List.flatMap_map]
      simpa using ih
  rw [← List.flatMap_assoc, hitems]

/-- Some of what comes once comes once. -/
theorem Subperm.nodup {l l' : List α} (h : l.Subperm l') (hnodup : l'.Nodup) : l.Nodup := by
  obtain ⟨m, hperm, hsublist⟩ := h
  exact hperm.nodup_iff.mp (hsublist.nodup hnodup)

/-- Numbers with what comes along with each of them. -/
theorem flatMap_cons_subperm {l : List Nat} (extra : Nat → List Nat) {size : Nat}
    (hnodup : l.Nodup) (hbound : ∀ i ∈ l, i < size) :
    (l.flatMap fun i => i :: extra i).Subperm (l ++ (List.range size).flatMap extra) := by
  have hrange : l.Subperm (List.range size) :=
    List.subperm_of_subset hnodup fun i hi => List.mem_range.mpr (hbound i hi)
  have hperm : (l.flatMap fun i => i :: extra i).Perm (l ++ l.flatMap extra) := by
    have happend := List.flatMap_append_perm l (fun i => [i]) extra
    rw [List.flatMap_singleton'] at happend
    exact happend.symm
  exact hperm.subperm.trans ((List.Subperm.refl l).append (Subperm.flatMap hrange extra))

/-- What is at a position after a change at another one or the same. -/
theorem getElem?_modify_eq_some {l : List α} {i j : Nat} {change : α → α} {b : α}
    (h : (l.modify i change)[j]? = some b) :
    ∃ a, l[j]? = some a ∧ b = if i = j then change a else a := by
  rw [List.getElem?_modify] at h
  cases ha : l[j]? with
  | none => simp [ha] at h
  | some a =>
    refine ⟨a, rfl, ?_⟩
    rw [ha] at h
    split at h <;> simp_all

/-- A change that something does not see. -/
theorem map_modify {l : List α} {i : Nat} {change : α → α} {f : α → β}
    (hchange : ∀ a, f (change a) = f a) : (l.modify i change).map f = l.map f := by
  induction l generalizing i with
  | nil => simp
  | cons a rest ih =>
    cases i with
    | zero => simp [hchange]
    | succ i => simp [ih]

/-- A change that adds something to what an item gives. -/
theorem flatMap_modify_perm (change : α → α) (f : α → List β) (more : List β) {l : List α}
    {i : Nat} {a : α} (ha : l[i]? = some a) (hchange : (f (change a)).Perm (f a ++ more)) :
    ((l.modify i change).flatMap f).Perm (l.flatMap f ++ more) := by
  induction l generalizing i with
  | nil => simp at ha
  | cons b rest ih =>
    cases i with
    | zero =>
      obtain rfl : b = a := by simpa using ha
      rw [List.modify_zero_cons, List.flatMap_cons, List.flatMap_cons]
      refine (hchange.append_right _).trans ?_
      rw [List.append_assoc, List.append_assoc]
      exact List.perm_append_comm.append_left _
    | succ i =>
      rw [List.modify_succ_cons, List.flatMap_cons, List.flatMap_cons, List.append_assoc]
      exact (ih (by simpa using ha)).append_left _

/-- What a change does not touch holds of some item after it if it did before. -/
theorem exists_mem_modify {l : List α} {i : Nat} {change : α → α} {P : α → Prop}
    (hchange : ∀ a, P (change a) ↔ P a) : (∃ a ∈ l.modify i change, P a) ↔ ∃ a ∈ l, P a := by
  induction l generalizing i with
  | nil => simp
  | cons a rest ih =>
    cases i with
    | zero => simp [hchange]
    | succ i => simp [ih]

/-- A change behind the first part of a list happens in the second part. -/
theorem modify_append_right (l l' : List α) (i : Nat) (change : α → α) :
    (l ++ l').modify (l.length + i) change = l ++ l'.modify i change := by
  induction l with
  | nil => simp
  | cons a rest ih =>
    rw [List.cons_append, List.length_cons, Nat.succ_add, List.modify_succ_cons, ih,
      List.cons_append]

/-- A change at the length of a list happens in the item behind it. -/
theorem modify_append_last (l : List α) (a : α) (change : α → α) :
    (l ++ [a]).modify l.length change = l ++ [change a] := by
  have happend := modify_append_right l [a] 0 change
  rwa [Nat.add_zero, List.modify_zero_cons] at happend

/-- A change within the first part of a list leaves the second part as it is. -/
theorem modify_append_left {l l' : List α} {i : Nat} {change : α → α} (hi : i < l.length) :
    (l ++ l').modify i change = l.modify i change ++ l' := by
  induction l generalizing i with
  | nil => simp at hi
  | cons a rest ih =>
    cases i with
    | zero => simp
    | succ i => simp [ih (by simpa using hi)]

/-- The positions of the items of a kind. -/
def positions (kind : α → Bool) (l : List α) : List Nat :=
  (List.range l.length).filter fun i => l[i]?.any kind

/-- An item of the kind stands at each of the positions, and nowhere else. -/
theorem mem_positions {kind : α → Bool} {l : List α} {i : Nat} :
    i ∈ positions kind l ↔ ∃ a, l[i]? = some a ∧ kind a = true := by
  rw [positions, List.mem_filter, List.mem_range, Option.any_eq_true]
  exact ⟨fun h => h.2, fun h => ⟨(List.getElem?_eq_some_iff.mp h.choose_spec.1).1, h⟩⟩

/-- No position is listed twice. -/
theorem nodup_positions (kind : α → Bool) (l : List α) : (positions kind l).Nodup :=
  List.nodup_range.filter _

/-- An item at the end adds its position, if it is of the kind. -/
theorem positions_append_singleton (kind : α → Bool) (l : List α) (a : α) :
    positions kind (l ++ [a]) = positions kind l ++ if kind a then [l.length] else [] := by
  have hold : (List.range l.length).filter (fun i => (l ++ [a])[i]?.any kind)
      = positions kind l := by
    refine List.filter_congr fun i hi => ?_
    rw [List.getElem?_append_left (List.mem_range.mp hi)]
  rw [positions, List.length_append, List.length_singleton, List.range_succ, List.filter_append,
    hold, List.filter_singleton]
  simp

/-- The items at the positions of a kind are those of the kind. -/
theorem map_positions (kind : α → Bool) (l : List α) :
    (positions kind l).map (l[·]?) = (l.filter kind).map some := by
  induction l using List.reverseRecOn with
  | nil => rfl
  | append_singleton l a ih =>
    have hold : (positions kind l).map ((l ++ [a])[·]?) = (positions kind l).map (l[·]?) := by
      refine List.map_congr_left fun i hi => ?_
      obtain ⟨b, hb, -⟩ := mem_positions.mp hi
      exact List.getElem?_append_left (List.getElem?_eq_some_iff.mp hb).1
    rw [positions_append_singleton, List.map_append, hold, ih, List.filter_append, List.map_append]
    congr 1
    by_cases hkind : kind a = true <;> simp [hkind]

/-- Looking among positions finds what looking among the items at them finds. -/
theorem find?_of_map_eq {l items : List α} {places : List Nat}
    (hmap : places.map (l[·]?) = items.map some) (p : α → Bool) :
    (places.find? fun i => l[i]?.any p).bind (l[·]?) = items.find? p := by
  have hfind := congrArg (fun m => (m.find? (Option.any p)).bind id) hmap
  simpa [List.find?_map, Option.bind_map, Function.comp_def] using hfind

/-- The first item, where all items are alike in some respect. -/
theorem head?_filter_of_alike {p : α → Bool} {l : List α} (halike : ∀ a ∈ l, ∀ b ∈ l, p a = p b) :
    (l.filter p).head? = l.head?.filter p := by
  cases l with
  | nil => rfl
  | cons a rest =>
    cases ha : p a with
    | true => simp [ha, Option.filter]
    | false =>
      have hnone : (a :: rest).filter p = [] := by
        rw [List.filter_eq_nil_iff]
        intro b hb
        simp [halike b hb a List.mem_cons_self, ha]
      simp [hnone, Option.filter, ha]

/-- Lists for different numbers without common elements are a list without repetitions. -/
theorem nodup_flatMap_range {α : Type} {g : Nat → List α} (hnodup : ∀ i, (g i).Nodup)
    (hone : ∀ i j a, a ∈ g i → a ∈ g j → i = j) (n : Nat) :
    ((List.range n).flatMap g).Nodup := by
  refine List.nodup_flatMap.mpr ⟨fun i _ => hnodup i, ?_⟩
  exact List.nodup_range.imp fun hne a ha ha' => hne (hone _ _ a ha ha')

/-- Where nothing is listed twice, an item is in the list of one index only. -/
theorem eq_of_nodup_flatMap_range {α : Type} {g : Nat → List α} {n i j : Nat} {a : α}
    (h : ((List.range n).flatMap g).Nodup) (hi : i < n) (hj : j < n) (ha : a ∈ g i)
    (ha' : a ∈ g j) : i = j := by
  have hdisjoint := List.pairwise_iff_getElem.mp (List.nodup_flatMap.mp h).2
  rcases Nat.lt_trichotomy i j with hlt | heq | hlt
  · have hpair := hdisjoint i j (by simpa using hi) (by simpa using hj) hlt
    simp only [List.getElem_range] at hpair
    exact (hpair ha ha').elim
  · exact heq
  · have hpair := hdisjoint j i (by simpa using hj) (by simpa using hi) hlt
    simp only [List.getElem_range] at hpair
    exact (hpair ha' ha).elim

/-- When a map gives nothing twice, no two items give the same. -/
theorem eq_of_nodup_filterMap {f : α → Option β} {l : List α} (h : (l.filterMap f).Nodup)
    {i j : Nat} {b : β} (hi : l[i]?.bind f = some b) (hj : l[j]?.bind f = some b) : i = j := by
  rw [List.filterMap_eq_flatMap_toList, ← range_flatMap_getElem?] at h
  have hmem {k : Nat} (hk : l[k]?.bind f = some b) :
      k < l.length ∧ b ∈ l[k]?.toList.flatMap fun a => (f a).toList := by
    obtain ⟨a, ha, hb⟩ := Option.bind_eq_some_iff.mp hk
    exact ⟨(List.getElem?_eq_some_iff.mp ha).1, by simp [ha, hb]⟩
  exact eq_of_nodup_flatMap_range h (hmem hi).1 (hmem hj).1 (hmem hi).2 (hmem hj).2

/-- An item that is the only one of its kind is found wherever it stands. -/
theorem find?_perm_map {l : List α} {l' : List β} {f : α → β} (hperm : l'.Perm (l.map f))
    {p : α → Bool} {p' : β → Bool} (hp : ∀ a ∈ l, p' (f a) = p a)
    (hone : ∀ a ∈ l, ∀ b ∈ l, p a = true → p b = true → a = b) :
    l'.find? p' = (l.find? p).map f := by
  cases hfind : l.find? p with
  | none =>
    refine List.find?_eq_none.mpr fun b hb => ?_
    obtain ⟨a, ha, rfl⟩ := List.mem_map.mp (hperm.mem_iff.mp hb)
    rw [hp a ha]
    exact List.find?_eq_none.mp hfind a ha
  | some a =>
    have ha := List.mem_of_find?_eq_some hfind
    have hpa := List.find?_some hfind
    cases hfind' : l'.find? p' with
    | none =>
      have hnot := List.find?_eq_none.mp hfind' (f a)
        (hperm.mem_iff.mpr (List.mem_map_of_mem ha))
      exact absurd ((hp a ha).trans hpa) hnot
    | some b =>
      obtain ⟨c, hc, rfl⟩ := List.mem_map.mp (hperm.mem_iff.mp (List.mem_of_find?_eq_some hfind'))
      have hpc := List.find?_some hfind'
      rw [hp c hc] at hpc
      rw [hone c hc a ha hpc hpa, Option.map_some]

/-- Each part of a list that is joined from parts is no longer than the whole. -/
theorem length_le_flatMap (f : α → List β) {l : List α} {a : α} (ha : a ∈ l) :
    (f a).length ≤ (l.flatMap f).length := by
  rw [List.flatMap_def]
  exact (List.sublist_flatten_of_mem (List.mem_map_of_mem ha)).length_le

/-- What an item is mapped to counts when no later item is mapped to anything. -/
theorem getLast?_filterMap_cons_or (f : α → Option β) (a : α) (l : List α) (b : Option β) :
    ((a :: l).filterMap f).getLast?.or b = (l.filterMap f).getLast?.or ((f a).or b) := by
  cases hfirst : f a with
  | none => rw [List.filterMap_cons_none hfirst, Option.none_or]
  | some first =>
    rw [List.filterMap_cons_some hfirst, List.getLast?_cons]
    cases (l.filterMap f).getLast? <;> rfl

/-- The last of at most one item is that item. -/
@[simp]
theorem getLast?_toList (o : Option α) : o.toList.getLast? = o := by
  cases o <;> rfl

/-- The last image of at most one item is the image of that item. -/
theorem getLast?_map_toList (f : α → β) (o : Option α) :
    (o.toList.map f).getLast? = o.map f := by
  rw [List.getLast?_map, getLast?_toList]

/-- Parts that are themselves joined from parts are joined in one step or in two. -/
theorem flatten_map_flatten (f : α → List (List β)) (l : List α) :
    (l.map fun a => (f a).flatten).flatten = (l.flatMap f).flatten := by
  rw [List.flatMap_def, List.flatten_flatten, List.map_map]
  rfl

/-- A step that succeeds for each item. -/
theorem mapM_eq_some {read : α → Option β} {value : α → β} {items : List α}
    (h : ∀ a ∈ items, read a = some (value a)) : items.mapM read = some (items.map value) := by
  induction items with
  | nil => rfl
  | cons first rest ih =>
    rw [List.mapM_cons, h first List.mem_cons_self,
      ih fun a ha => h a (List.mem_cons_of_mem first ha)]
    rfl

/-- What many steps give that each turn around what they find. -/
theorem mapM_map_eq_some_iff {find : α → Option β} {turn : β → γ} {items : List α}
    {results : List γ} : items.mapM (fun a => (find a).map turn) = some results ↔
      ∃ found : List β, items.map find = found.map some ∧ results = found.map turn := by
  induction items generalizing results with
  | nil =>
    rw [List.mapM_nil]
    constructor
    · intro h
      exact ⟨[], rfl, (Option.some.inj h).symm⟩
    · rintro ⟨found, hfound, rfl⟩
      rw [List.map_eq_nil_iff.mp hfound.symm]
      rfl
  | cons a rest ih =>
    rw [List.mapM_cons]
    constructor
    · intro h
      obtain ⟨result, hresult, h⟩ := Option.bind_eq_some_iff.mp h
      obtain ⟨results, hresults, h⟩ := Option.bind_eq_some_iff.mp h
      obtain rfl := Option.some.inj h
      obtain ⟨first, hfirst, rfl⟩ := Option.map_eq_some_iff.mp hresult
      obtain ⟨found, hfound, rfl⟩ := ih.mp hresults
      exact ⟨first :: found, by rw [List.map_cons, hfirst, hfound, List.map_cons], rfl⟩
    · rintro ⟨found, hfound, rfl⟩
      cases found with
      | nil => simp at hfound
      | cons first found =>
        obtain ⟨hfirst, hrest⟩ := List.cons.inj hfound
        rw [hfirst, ih.mpr ⟨found, hrest, rfl⟩]
        rfl

/-- Items that go with some of other ones in order go with what those go with. -/
theorem sublistForall₂_comp {R : α → β → Prop} {S : β → γ → Prop} {T : α → γ → Prop}
    (hcomp : ∀ a b c, R a b → S b c → T a c) {as : List α} {bs : List β} {cs : List γ}
    (h : List.SublistForall₂ R as bs) (h' : List.SublistForall₂ S bs cs) :
    List.SublistForall₂ T as cs := by
  induction h' generalizing as with
  | nil =>
    cases h
    exact .nil
  | cons hbc _ ih =>
    cases h with
    | nil => exact .nil
    | cons hab h => exact .cons (hcomp _ _ _ hab hbc) (ih h)
    | cons_right h => exact .cons_right (ih h)
  | cons_right _ ih => exact .cons_right (ih h)

/-- Lists that go together item by item go together in order. -/
theorem sublistForall₂_of_forall₂ {R : α → β → Prop} {as : List α} {bs : List β}
    (h : List.Forall₂ R as bs) : List.SublistForall₂ R as bs :=
  List.sublistForall₂_iff.mpr ⟨bs, h, List.Sublist.refl bs⟩

/-- Of several items those that became something, in order. -/
theorem sublistForall₂_filterMap {R : β → α → Prop} {items : List α} {found : List (Option β)}
    (h : List.Forall₂ (fun a option => ∀ b ∈ option, R b a) items found) :
    List.SublistForall₂ R (found.filterMap id) items := by
  induction h with
  | nil => exact .nil
  | @cons a option _ _ hfirst _ ih =>
    cases option with
    | none => exact .cons_right ih
    | some b => exact .cons (hfirst b rfl) ih

/-- When just the items of a kind became something, what they became goes with them. -/
theorem forall₂_filterMap {R : β → α → Prop} {kind : α → Bool} {items : List α}
    {found : List (Option β)}
    (h : List.Forall₂ (fun a option => (∀ b ∈ option, R b a) ∧ option.isSome = kind a) items
      found) : List.Forall₂ R (found.filterMap id) (items.filter kind) := by
  induction h with
  | nil => exact .nil
  | @cons a option _ _ hfirst _ ih =>
    cases option with
    | none => rwa [List.filter_cons_of_neg (by simp [← hfirst.2])]
    | some b =>
      rw [List.filter_cons_of_pos (by simp [← hfirst.2])]
      exact .cons (hfirst.1 b rfl) ih

end LineAtlas.Lists
