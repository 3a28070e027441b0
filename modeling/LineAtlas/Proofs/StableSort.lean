import Mathlib.Data.List.Basic
import Mathlib.Data.List.Nodup

/-!
# Stable sorting

A stable sort by a number keeps, for every number, the items of that number in their order. It
is therefore known from these parts alone.
-/

namespace LineAtlas.StableSort

variable {α : Type} {key : α → Nat}

/-- Ascending lists with the same items of every key are the same. -/
theorem eq_of_filter_eq {l l' : List α} (hl : l.Pairwise fun a b => key a ≤ key b)
    (hl' : l'.Pairwise fun a b => key a ≤ key b)
    (hfilter : ∀ k, l.filter (key · == k) = l'.filter (key · == k)) : l = l' := by
  have hmem (a : α) : a ∈ l ↔ a ∈ l' := by
    have hiff := congrArg (a ∈ ·) (hfilter (key a))
    simpa using hiff
  induction l generalizing l' with
  | nil =>
    cases l' with
    | nil => rfl
    | cons b rest => exact absurd ((hmem b).mpr List.mem_cons_self) List.not_mem_nil
  | cons a rest ih =>
    cases l' with
    | nil => exact absurd ((hmem a).mp List.mem_cons_self) List.not_mem_nil
    | cons b rest' =>
      have hab : key a ≤ key b := by
        rcases List.mem_cons.mp ((hmem b).mpr List.mem_cons_self) with rfl | hb
        · exact Nat.le_refl _
        · exact List.rel_of_pairwise_cons hl hb
      have hba : key b ≤ key a := by
        rcases List.mem_cons.mp ((hmem a).mp List.mem_cons_self) with rfl | ha
        · exact Nat.le_refl _
        · exact List.rel_of_pairwise_cons hl' ha
      have hkey : key b = key a := Nat.le_antisymm hba hab
      have hhead := hfilter (key a)
      simp only [List.filter_cons, hkey, beq_self_eq_true, if_true, List.cons.injEq] at hhead
      obtain ⟨rfl, -⟩ := hhead
      have hrest (k : Nat) : rest.filter (key · == k) = rest'.filter (key · == k) := by
        have h := hfilter k
        by_cases hk : (key a == k) = true
        · simpa [List.filter_cons, hk] using h
        · simpa [List.filter_cons, hk] using h
      have hmem' (c : α) : c ∈ rest ↔ c ∈ rest' := by
        have hiff := congrArg (c ∈ ·) (hrest (key c))
        simpa using hiff
      rw [ih (List.Pairwise.of_cons hl) (List.Pairwise.of_cons hl') hrest hmem']

/-- Sorting puts items in the order of their keys. -/
theorem ascending_mergeSort (l : List α) :
    (l.mergeSort fun a b => key a ≤ key b).Pairwise fun a b => key a ≤ key b := by
  have h : (l.mergeSort fun a b => key a ≤ key b).Pairwise
      fun a b => decide (key a ≤ key b) = true := List.pairwise_mergeSort
    (fun a b c hab hbc => by simp only [decide_eq_true_eq] at *; omega)
    (fun a b => by simp only [Bool.or_eq_true, decide_eq_true_eq]; omega) l
  exact h.imp of_decide_eq_true

/-- The items of a key keep their order. -/
theorem filter_mergeSort (l : List α) (k : Nat) :
    (l.mergeSort fun a b => key a ≤ key b).filter (key · == k) = l.filter (key · == k) := by
  have hpairwise : (l.filter (key · == k)).Pairwise
      fun a b => decide (key a ≤ key b) = true := by
    refine List.pairwise_of_forall_mem_list fun a ha b hb => ?_
    have hka : key a = k := by simpa using List.of_mem_filter ha
    have hkb : key b = k := by simpa using List.of_mem_filter hb
    simp [hka, hkb]
  have hsublist : (l.filter (key · == k)).Sublist
      (l.mergeSort fun a b => decide (key a ≤ key b)) := List.sublist_mergeSort
    (fun a b c hab hbc => by simp only [decide_eq_true_eq] at *; omega)
    (fun a b => by simp only [Bool.or_eq_true, decide_eq_true_eq]; omega)
    hpairwise List.filter_sublist
  have hfilter := hsublist.filter (key · == k)
  rw [List.filter_filter] at hfilter
  simp only [Bool.and_self] at hfilter
  have hperm := (List.mergeSort_perm l fun a b => decide (key a ≤ key b)).filter (key · == k)
  exact (hfilter.eq_of_length hperm.length_eq.symm).symm

/-- Lists with the same items of every key are sorted into the same list. -/
theorem mergeSort_eq_of_filter_eq {l l' : List α}
    (hfilter : ∀ k, l.filter (key · == k) = l'.filter (key · == k)) :
    (l.mergeSort fun a b => key a ≤ key b) = l'.mergeSort fun a b => key a ≤ key b := by
  apply eq_of_filter_eq (ascending_mergeSort l) (ascending_mergeSort l')
  intro k
  rw [filter_mergeSort, filter_mergeSort, hfilter]

/-- Items with different keys have no order of their own: of each key there is at most one. -/
theorem filter_eq_of_perm {l l' : List α} (hperm : l.Perm l') (hkeys : (l.map key).Nodup)
    (k : Nat) : l.filter (key · == k) = l'.filter (key · == k) := by
  have hfilter := hperm.filter (key · == k)
  have hlength : (l.filter (key · == k)).length ≤ 1 := by
    rw [← List.countP_eq_length_filter]
    have hcount := List.nodup_iff_count_le_one.mp hkeys k
    rw [List.count, List.countP_map] at hcount
    exact hcount
  match h : l.filter (key · == k), hlength with
  | [], _ => rw [h] at hfilter; exact hfilter.nil_eq
  | [a], _ => rw [h] at hfilter; exact List.singleton_perm.mp hfilter

/-- Lists of items with different keys are sorted alike in whatever order they come. -/
theorem mergeSort_eq_of_perm {l l' : List α} (hperm : l.Perm l') (hkeys : (l.map key).Nodup) :
    (l.mergeSort fun a b => key a ≤ key b) = l'.mergeSort fun a b => key a ≤ key b :=
  mergeSort_eq_of_filter_eq (filter_eq_of_perm hperm hkeys)

end LineAtlas.StableSort
