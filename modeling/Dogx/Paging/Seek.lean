import Mathlib

/-!
# Distinct values by seeking

The distinct values of a list above a bound, in order. The least value above the bound is the first of
them, and the others are those above it; so they can be had one by one, or page by page.
-/

namespace Paging

variable {α : Type*} [LinearOrder α] {rows page rest : List α} {a b : α}

def above (rows : List α) (b : α) : List α := (rows.filter (b < ·)).dedup.insertionSort (· ≤ ·)

def least (rows : List α) (b : α) : Option α := ((rows.filter (b < ·)).insertionSort (· ≤ ·)).head?

theorem mem_above : a ∈ above rows b ↔ a ∈ rows ∧ b < a := by
  simp [above]

theorem pairwise_above (rows : List α) (b : α) : (above rows b).Pairwise (· < ·) := by
  have hsorted : (above rows b).Pairwise (· ≤ ·) := List.pairwise_insertionSort (· ≤ ·) _
  have hnodup : (above rows b).Nodup :=
    (List.perm_insertionSort (· ≤ ·) _).nodup_iff.mpr (List.nodup_dedup _)
  exact (hsorted.and hnodup).imp fun h => lt_of_le_of_ne h.1 h.2

/-- Strictly increasing lists of the same values are equal. -/
theorem eq_above (hrest : rest.Pairwise (· < ·)) (hmem : ∀ a, a ∈ rest ↔ a ∈ rows ∧ b < a) :
    rest = above rows b :=
  hrest.eq_of_mem_iff (pairwise_above rows b) fun a => (hmem a).trans mem_above.symm

/-- The least row above the bound is the first of those above it. -/
theorem least_eq_head (rows : List α) (b : α) : least rows b = (above rows b).head? := by
  have hmem : ∀ a, a ∈ (rows.filter (b < ·)).insertionSort (· ≤ ·) ↔ a ∈ above rows b := by
    simp [above]
  have hsorted : ((rows.filter (b < ·)).insertionSort (· ≤ ·)).Pairwise (· ≤ ·) :=
    List.pairwise_insertionSort (· ≤ ·) _
  have habove := pairwise_above rows b
  unfold least
  generalize (rows.filter (b < ·)).insertionSort (· ≤ ·) = values at *
  generalize above rows b = distinct at *
  cases values with
  | nil => rw [List.eq_nil_iff_forall_not_mem.mpr fun a ha => List.not_mem_nil ((hmem a).mpr ha)]
  | cons v =>
    cases distinct with
    | nil => exact absurd ((hmem v).mp List.mem_cons_self) List.not_mem_nil
    | cons d =>
      -- each head is a member of the other list, and the least one there
      have hdv : d ≤ v := by
        rcases List.mem_cons.mp ((hmem v).mp List.mem_cons_self) with rfl | hv
        · exact le_refl _
        · exact le_of_lt ((List.pairwise_cons.mp habove).1 v hv)
      have hvd : v ≤ d := by
        rcases List.mem_cons.mp ((hmem d).mpr List.mem_cons_self) with rfl | hd
        · exact le_refl _
        · exact (List.pairwise_cons.mp hsorted).1 d hd
      rw [List.head?_cons, List.head?_cons, le_antisymm hvd hdv]

/-- Behind the last row of a page, the rest comes next. -/
theorem above_getLast (h : above rows b = page ++ rest) (hne : page ≠ []) :
    above rows (page.getLast hne) = rest := by
  have hsorted := pairwise_above rows b
  rw [h] at hsorted
  obtain ⟨hpage, hrest, hcross⟩ := List.pairwise_append.mp hsorted
  refine (eq_above hrest fun a => ?_).symm
  have hmem : a ∈ page ++ rest ↔ a ∈ rows ∧ b < a := h ▸ mem_above
  have hlast : b < page.getLast hne := by
    have hin : page.getLast hne ∈ above rows b := h ▸ List.mem_append_left _ (List.getLast_mem hne)
    exact (mem_above.mp hin).2
  constructor
  · intro ha
    exact ⟨(hmem.mp (List.mem_append_right _ ha)).1, hcross _ (List.getLast_mem hne) a ha⟩
  · rintro ⟨ha, hlt⟩
    rcases List.mem_append.mp (hmem.mpr ⟨ha, lt_trans hlast hlt⟩) with hin | hin
    · -- no value of the page is above its last one
      rw [← List.dropLast_append_getLast hne] at hpage hin
      rcases List.mem_append.mp hin with hin | hin
      · have hbefore := (List.pairwise_append.mp hpage).2.2 a hin _ (List.mem_singleton_self _)
        exact absurd hlt (lt_asymm hbefore)
      · exact absurd hlt (List.mem_singleton.mp hin ▸ lt_irrefl _)
    · exact hin

theorem above_of_cons (h : above rows b = a :: rest) : above rows a = rest :=
  above_getLast (show above rows b = [a] ++ rest from h) (List.cons_ne_nil a [])

end Paging
