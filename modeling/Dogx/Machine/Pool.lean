import Mathlib

/-!
# Pools of workers

A fixed number of workers, each in a state of its own. One step changes one of them, so what a pool
holds in all changes by what that worker had and has.
-/

namespace Machine.Pool

open Function (update update_of_ne update_self)

variable {W : Type*} {n i j : ℕ} {ws ws' : ℕ → W} {p : W → Bool}

def count (n : ℕ) (ws : ℕ → W) (p : W → Bool) : ℕ := (List.range n).countP fun i => p (ws i)

theorem count_succ (n : ℕ) (ws : ℕ → W) (p : W → Bool) :
    count (n + 1) ws p = count n ws p + (p (ws n)).toNat := by
  unfold count
  rw [List.range_succ]
  cases h : p (ws n) <;> simp [h]

theorem count_congr (h : ∀ i < n, p (ws' i) = p (ws i)) : count n ws' p = count n ws p := by
  induction n with
  | zero => rfl
  | succ n ih => rw [count_succ, count_succ, ih fun i hi => h i (Nat.lt_succ_of_lt hi), h n n.lt_succ_self]

theorem count_update (hi : i < n) (w : W) :
    count n (update ws i w) p + (p (ws i)).toNat = count n ws p + (p w).toNat := by
  induction n with
  | zero => exact absurd hi (Nat.not_lt_zero i)
  | succ n ih =>
    rw [count_succ, count_succ]
    rcases Nat.lt_succ_iff_lt_or_eq.mp hi with hlt | rfl
    · rw [update_of_ne (Nat.ne_of_gt hlt)]
      omega
    · rw [count_congr fun j hj => by rw [update_of_ne (Nat.ne_of_lt hj)],
        update_self]
      omega

theorem count_pos : 0 < count n ws p ↔ ∃ i < n, p (ws i) = true := by
  simp [count]

theorem update_eq_some {α : Type*} {ws : ℕ → Option α} {w x : α}
    (h : update ws i (some w) j = some x) : (j = i ∧ x = w) ∨ (j ≠ i ∧ ws j = some x) := by
  by_cases hj : j = i
  · subst hj
    rw [update_self, Option.some.injEq] at h
    exact .inl ⟨rfl, h.symm⟩
  · rw [update_of_ne hj] at h
    exact .inr ⟨hj, h⟩

/-! ## What the workers hold -/

variable {β κ : Type*} {f : W → Option β} {b : β}

def collect (n : ℕ) (ws : ℕ → W) (f : W → Option β) : List β :=
  (List.range n).filterMap fun i => f (ws i)

theorem collect_succ (n : ℕ) (ws : ℕ → W) (f : W → Option β) :
    collect (n + 1) ws f = collect n ws f ++ (f (ws n)).toList := by
  unfold collect
  rw [List.range_succ]
  cases h : f (ws n) <;> simp [h]

theorem collect_congr (h : ∀ i < n, f (ws' i) = f (ws i)) : collect n ws' f = collect n ws f :=
  List.filterMap_congr fun i hi => h i (List.mem_range.mp hi)

/-- The worker `i` gives up what it holds for something else. -/
theorem collect_update (hi : i < n) (w : W) :
    ((f (ws i)).toList ++ collect n (update ws i w) f).Perm
      ((f w).toList ++ collect n ws f) := by
  induction n with
  | zero => exact absurd hi (Nat.not_lt_zero i)
  | succ n ih =>
    rw [collect_succ, collect_succ]
    rcases Nat.lt_succ_iff_lt_or_eq.mp hi with hlt | rfl
    · rw [update_of_ne (Nat.ne_of_gt hlt), ← List.append_assoc, ← List.append_assoc]
      exact (ih hlt).append_right _
    · rw [collect_congr fun j hj => by rw [update_of_ne (Nat.ne_of_lt hj)],
        update_self, ← List.append_assoc]
      exact List.perm_append_comm.trans (List.perm_append_comm.append_left _)

/-- A worker that holds what it held changes nothing. -/
theorem collect_update_of_eq {w : W} (h : f w = f (ws i)) :
    collect n (update ws i w) f = collect n ws f := by
  refine collect_congr fun j _ => ?_
  by_cases hj : j = i
  · subst hj
    rw [update_self, h]
  · rw [update_of_ne hj]

theorem mem_collect : b ∈ collect n ws f ↔ ∃ i < n, f (ws i) = some b := by
  simp [collect]

theorem length_collect_le : (collect n ws f).length ≤ n := by
  have h := List.length_filterMap_le (fun i => f (ws i)) (List.range n)
  rwa [List.length_range] at h

/-- Two workers do not hold things with one key. -/
theorem eq_of_key_eq {key : β → κ} {b' : β} (hnd : ((collect n ws f).map key).Nodup) (hi : i < n)
    (hj : j < n) (hb : f (ws i) = some b) (hb' : f (ws j) = some b') (hkey : key b = key b') :
    i = j := by
  rw [collect, List.Nodup, List.pairwise_map, List.pairwise_filterMap,
    List.pairwise_iff_getElem] at hnd
  simp only [List.length_range, List.getElem_range] at hnd
  rcases Nat.lt_trichotomy i j with hlt | heq | hgt
  · exact absurd hkey (hnd i j hi hj hlt b hb b' hb')
  · exact heq
  · exact absurd hkey.symm (hnd j i hj hi hgt b' hb' b hb)

end Machine.Pool
