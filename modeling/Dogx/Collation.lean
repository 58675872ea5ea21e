import Mathlib

/-!
# Collations

The order of a text column. Every collation the database uses is a strict total order in which the
empty string comes first; which one it is does not matter to any operation.
-/

namespace Dogx

/-- A strict total order on strings. -/
structure Collation where
  lt : String → String → Bool
  irrefl : ∀ a, lt a a = false
  trans : ∀ {a b c}, lt a b = true → lt b c = true → lt a c = true
  total : ∀ {a b}, a ≠ b → lt a b = true ∨ lt b a = true
  empty : ∀ {a}, a ≠ "" → lt "" a = true

/-- The collation `"C"`: the order of the code points. -/
def Collation.codePoints : Collation where
  lt a b := decide (a < b)
  irrefl a := decide_eq_false (lt_irrefl a)
  trans hab hbc := decide_eq_true (lt_trans (of_decide_eq_true hab) (of_decide_eq_true hbc))
  total hne := (lt_or_gt_of_ne hne).imp decide_eq_true decide_eq_true
  empty {a} hne := by
    refine decide_eq_true (String.lt_iff_toList_lt.mpr ?_)
    cases ha : a.toList with
    | nil => exact absurd (String.toList_eq_nil_iff.mp ha) hne
    | cons c cs => exact List.nil_lt_cons c cs

end Dogx
