import Dogx.Queue.Slots

/-!
# Numbered items

Items are numbered as they are issued, and every number is closed at most once. Until then it waits, is
in the hands of a worker, or has been given up.
-/

namespace Queue

variable {W : Type*} {n i b issued : ℕ} {ws ws' : ℕ → W} {held : W → Option ℕ}
  {waiting waiting' lost closed closed' items : List ℕ} {w : W}

structure Ledger (n : ℕ) (ws : ℕ → W) (held : W → Option ℕ) (waiting lost closed items : List ℕ)
    (issued : ℕ) : Prop where
  slots : Slots n ws held (waiting ++ lost) items
  perm : (List.range' 1 issued).Perm (closed ++ items)

namespace Ledger

theorem empty (h : ∀ i, held (ws i) = none) : Ledger n ws held [] [] [] [] 0 where
  slots := .empty h
  perm := .refl _

variable (h : Ledger n ws held waiting lost closed items issued)
include h

theorem mem_le (hb : b ∈ items) : b ≤ issued := by
  have hmem := h.perm.mem_iff.mpr (List.mem_append_right _ hb)
  have hle := (List.mem_range'_1.mp hmem).2
  omega

/-- A new item gets the next number. -/
theorem issue (hwaiting : waiting'.Perm ((issued + 1) :: waiting)) :
    Ledger n ws held waiting' lost closed (items ++ [issued + 1]) (issued + 1) where
  slots := by
    have hnew : issued + 1 ∉ items := fun hmem => absurd (h.mem_le hmem) (Nat.not_succ_le_self _)
    have hadd := h.slots.add hnew
    refine ⟨hadd.nodup, hadd.perm.trans (List.Perm.append_right _ ?_), hadd.pool⟩
    exact List.perm_append_comm.trans (hwaiting.symm.append_right lost)
  perm := by
    rw [List.range'_concat, ← List.append_assoc, Nat.one_mul, Nat.add_comm 1]
    exact h.perm.append_right _

theorem launch (hws : ∀ i, held (ws i) = none) (hws' : ∀ i, held (ws' i) = none) :
    Ledger n ws' held waiting lost closed items issued where
  slots := by
    refine ⟨h.slots.nodup, ?_, fun i hi => absurd (hws' i) hi⟩
    rw [Machine.Pool.collect_congr fun i _ => (hws' i).trans (hws i).symm]
    exact h.slots.perm
  perm := h.perm

theorem stay (hw : held w = held (ws i)) :
    Ledger n (Function.update ws i w) held waiting lost closed items issued where
  slots := h.slots.stay hw
  perm := h.perm

theorem take (hi : i < n) (hfree : held (ws i) = none) (hw : held w = some b)
    (hwaiting : waiting = b :: waiting') :
    Ledger n (Function.update ws i w) held waiting' lost closed items issued where
  slots := by
    subst hwaiting
    exact h.slots.take hi hfree hw (.refl _)
  perm := h.perm

theorem requeue (hb : held (ws i) = some b) (hw : held w = none)
    (hwaiting : waiting'.Perm (b :: waiting)) :
    Ledger n (Function.update ws i w) held waiting' lost closed items issued where
  slots := h.slots.requeue hb hw (hwaiting.append_right lost)
  perm := h.perm

theorem abandon (hb : held (ws i) = some b) (hw : held w = none) :
    Ledger n (Function.update ws i w) held waiting (b :: lost) closed items issued where
  slots := h.slots.requeue hb hw List.perm_middle
  perm := h.perm

theorem clear : Ledger n ws held [] (waiting ++ lost) closed items issued where
  slots := h.slots
  perm := h.perm

/-- An item that a worker holds is settled. -/
theorem close (hb : held (ws i) = some b) (hw : held w = none)
    (hclosed : closed'.Perm (b :: closed)) :
    ∃ items', Ledger n (Function.update ws i w) held waiting lost closed' items' issued ∧
      items.length = items'.length + 1 := by
  have hitems : items.Perm (b :: items.erase b) := List.perm_cons_erase (h.slots.mem_held hb)
  refine ⟨items.erase b, ⟨h.slots.release hb hw hitems, ?_⟩, hitems.length_eq⟩
  calc List.range' 1 issued
    _ |>.Perm (closed ++ items) := h.perm
    _ |>.Perm (closed ++ b :: items.erase b) := hitems.append_left closed
    _ |>.Perm (b :: closed ++ items.erase b) := List.perm_middle
    _ |>.Perm (closed' ++ items.erase b) := hclosed.symm.append_right _

end Ledger

end Queue
