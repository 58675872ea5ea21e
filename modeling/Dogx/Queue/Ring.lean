import Mathlib

/-!
# Ring buffers

The elements of a ring buffer are the window of its size that begins at its head.
-/

namespace Queue

open Function (update update_of_ne update_self)

variable {α : Type*} {buffer : ℕ → α} {capacity head size : ℕ}

def window (buffer : ℕ → α) (capacity head size : ℕ) : List α :=
  (List.range size).map fun i => buffer ((head + i) % capacity)

/-- A push into a buffer with room leaves the window as it is, with the new element at its end. -/
theorem window_push (h : size < capacity) (a : α) :
    window (update buffer ((head + size) % capacity) a) capacity head (size + 1)
      = window buffer capacity head size ++ [a] := by
  rw [window, List.range_succ, List.map_append, List.map_singleton, update_self]
  congr 1
  refine List.map_congr_left fun i hi => update_of_ne (fun heq => ?_) _ _
  have hi := List.mem_range.mp hi
  have hmod : i ≡ size [MOD capacity] := Nat.ModEq.add_left_cancel' head heq
  exact absurd (hmod.eq_of_lt_of_lt (hi.trans h) h) hi.ne

theorem window_pop : window buffer capacity head (size + 1)
    = buffer (head % capacity) :: window buffer capacity ((head + 1) % capacity) size := by
  rw [window, List.range_succ_eq_map, List.map_cons, List.map_map]
  refine congrArg _ (List.map_congr_left fun i _ => ?_)
  rw [Nat.mod_add_mod, Nat.add_assoc, Nat.add_comm 1]
  rfl

end Queue
