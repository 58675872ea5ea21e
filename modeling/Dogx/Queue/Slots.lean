import Dogx.Machine.Pool

/-!
# Items in one place

Items wait in a list or are in the hands of a worker of a pool, each of them in one place only.
-/

namespace Queue

open Machine.Pool (collect)
open Function (update update_of_ne update_self)

variable {W β : Type*} {n i : ℕ} {ws : ℕ → W} {held : W → Option β} {waiting waiting' items : List β}
  {w : W} {b : β}

structure Slots (n : ℕ) (ws : ℕ → W) (held : W → Option β) (waiting items : List β) : Prop where
  nodup : items.Nodup
  perm : items.Perm (waiting ++ collect n ws held)
  pool : ∀ i, held (ws i) ≠ none → i < n

namespace Slots

theorem empty (h : ∀ i, held (ws i) = none) : Slots n ws held [] [] := by
  refine ⟨.nil, ?_, fun i hi => absurd (h i) hi⟩
  rw [List.nil_append, show collect n ws held = [] from ?_]
  exact List.filterMap_eq_nil_iff.mpr fun i _ => h i

variable (h : Slots n ws held waiting items)
include h

theorem lt_of_held (hb : held (ws i) = some b) : i < n :=
  h.pool i (hb ▸ Option.some_ne_none b)

theorem mem_waiting (hb : b ∈ waiting) : b ∈ items :=
  h.perm.mem_iff.mpr (List.mem_append_left _ hb)

theorem mem_held (hb : held (ws i) = some b) : b ∈ items :=
  h.perm.mem_iff.mpr (List.mem_append_right _ (Machine.Pool.mem_collect.mpr ⟨i, h.lt_of_held hb, hb⟩))

theorem pool_update (hi : i < n) (w : W) : ∀ j, held (update ws i w j) ≠ none → j < n := by
  intro j hj
  by_cases hji : j = i
  · exact hji ▸ hi
  · rw [update_of_ne hji] at hj
    exact h.pool j hj

/-! ## Changes -/

theorem add (hb : b ∉ items) : Slots n ws held (waiting ++ [b]) (items ++ [b]) where
  nodup := h.nodup.append (List.nodup_singleton b) (by simpa using hb)
  perm := by
    rw [List.append_assoc]
    exact (h.perm.append_right [b]).trans (by
      rw [List.append_assoc]
      exact List.perm_append_comm.append_left waiting)
  pool := h.pool

theorem stay (hw : held w = held (ws i)) : Slots n (update ws i w) held waiting items where
  nodup := h.nodup
  perm := by
    rw [Machine.Pool.collect_update_of_eq hw]
    exact h.perm
  pool := by
    intro j hj
    by_cases hji : j = i
    · rw [hji, update_self, hw] at hj
      exact hji ▸ h.pool i hj
    · rw [update_of_ne hji] at hj
      exact h.pool j hj

/-- A free worker takes the item. -/
theorem take (hi : i < n) (hfree : held (ws i) = none) (hw : held w = some b)
    (hwaiting : waiting.Perm (b :: waiting')) : Slots n (update ws i w) held waiting' items where
  nodup := h.nodup
  perm := by
    have hcollect : ((held (ws i)).toList ++ collect n (update ws i w) held).Perm
        ((held w).toList ++ collect n ws held) := Machine.Pool.collect_update hi w
    rw [hfree, hw, Option.toList_some, List.singleton_append]
      at hcollect
    refine (h.perm.trans (hwaiting.append_right _)).trans ?_
    exact List.perm_middle.symm.trans (hcollect.symm.append_left _)
  pool := h.pool_update hi w

theorem perm_drop (hb : held (ws i) = some b) (hw : held w = none) :
    items.Perm (b :: (waiting ++ collect n (update ws i w) held)) := by
  have hcollect : ((held (ws i)).toList ++ collect n (update ws i w) held).Perm
      ((held w).toList ++ collect n ws held) := Machine.Pool.collect_update (h.lt_of_held hb) w
  rw [hb, hw, Option.toList_some, List.singleton_append]
    at hcollect
  refine h.perm.trans ?_
  exact (hcollect.symm.append_left waiting).trans List.perm_middle

theorem requeue (hb : held (ws i) = some b) (hw : held w = none)
    (hwaiting : waiting'.Perm (b :: waiting)) : Slots n (update ws i w) held waiting' items where
  nodup := h.nodup
  perm := (h.perm_drop hb hw).trans (hwaiting.symm.append_right _)
  pool := h.pool_update (h.lt_of_held hb) w

theorem release {items' : List β} (hb : held (ws i) = some b) (hw : held w = none)
    (hitems : items.Perm (b :: items')) : Slots n (update ws i w) held waiting items' where
  nodup := (List.nodup_cons.mp (hitems.nodup_iff.mp h.nodup)).2
  perm := (hitems.symm.trans (h.perm_drop hb hw)).cons_inv
  pool := h.pool_update (h.lt_of_held hb) w

/-! ## Where an item is -/

theorem nodup_waiting : waiting.Nodup :=
  (List.nodup_append.mp (h.perm.nodup_iff.mp h.nodup)).1

theorem notMem_waiting (hb : held (ws i) = some b) : b ∉ waiting := by
  have hnodup := h.perm.nodup_iff.mp h.nodup
  intro hmem
  exact List.disjoint_of_nodup_append hnodup hmem
    (Machine.Pool.mem_collect.mpr ⟨i, h.lt_of_held hb, hb⟩)

/-- No two workers hold one item. -/
theorem holder_unique {j : ℕ} (hi : held (ws i) = some b) (hj : held (ws j) = some b) : i = j := by
  have hnodup : ((collect n ws held).map id).Nodup := by
    rw [List.map_id]
    exact (List.nodup_append.mp (h.perm.nodup_iff.mp h.nodup)).2.1
  exact Machine.Pool.eq_of_key_eq hnodup (h.lt_of_held hi) (h.lt_of_held hj) hi hj rfl

/-- An item waits, once, or one worker holds it. -/
theorem once [DecidableEq β] (hb : b ∈ items) :
    (waiting.count b = 1 ∧ ∀ i, held (ws i) ≠ some b) ∨
      b ∉ waiting ∧ ∃ i, held (ws i) = some b ∧ ∀ j, held (ws j) = some b → j = i := by
  rcases List.mem_append.mp (h.perm.mem_iff.mp hb) with hmem | hmem
  · refine .inl ⟨?_, fun i hi => h.notMem_waiting hi hmem⟩
    exact List.count_eq_one_of_mem h.nodup_waiting hmem
  · obtain ⟨i, -, hi⟩ := Machine.Pool.mem_collect.mp hmem
    exact .inr ⟨h.notMem_waiting hi, i, hi, fun j hj => h.holder_unique hj hi⟩

end Slots

end Queue
