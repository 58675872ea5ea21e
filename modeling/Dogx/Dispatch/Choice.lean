import Dogx.Dispatch.Supply

/-!
# The choice of a candidate

Which candidate `take` chooses: the first one whose parent is not registering, or, once a parent
has had its share, the first one of another such parent if there is one.
-/

namespace Dogx.Dispatch.Supply

variable {busy : Int → Bool} {lastParent : Int} {parentShare position index : ℕ} {found : Option ℕ}
  {cs : List Candidate} {s : Supply} {c : Candidate}

/-- The position of the first candidate that may be taken. -/
def first (busy : Int → Bool) (cs : List Candidate) : Option ℕ :=
  cs.findIdx? fun c => !busy c.instanceId

/-- The position of the first one of another parent. -/
def firstOther (busy : Int → Bool) (lastParent : Int) (cs : List Candidate) : Option ℕ :=
  cs.findIdx? fun c => !busy c.instanceId && decide (c.instanceId ≠ lastParent)

theorem pick_fresh (h : parentShare < dispatchParentShare) :
    pick busy lastParent parentShare cs position none = (first busy cs).map (position + ·) := by
  induction cs generalizing position with
  | nil => rfl
  | cons c _ ih =>
    unfold first at ih ⊢
    rw [pick, List.findIdx?_cons, ih]
    cases hb : busy c.instanceId with
    | true => simp [Function.comp_def, Nat.add_left_comm, Nat.add_comm]
    | false => simp [h]

theorem pick_tired (h : dispatchParentShare ≤ parentShare) :
    pick busy lastParent parentShare cs position found =
      ((firstOther busy lastParent cs).map (position + ·)).or
        (found.or ((first busy cs).map (position + ·))) := by
  induction cs generalizing position found with
  | nil => simp [pick, first, firstOther]
  | cons c _ ih =>
    have hshare : ¬ parentShare < dispatchParentShare := Nat.not_lt.mpr h
    unfold first firstOther at ih ⊢
    simp only [pick, ih, List.findIdx?_cons]
    cases hb : busy c.instanceId with
    | true => simp [Function.comp_def, Nat.add_left_comm, Nat.add_comm]
    | false =>
      by_cases hlast : c.instanceId = lastParent
      · simp [hshare, hlast, Function.comp_def, Nat.add_left_comm, Nat.add_comm]
      · simp [h, hlast]

/-- What is known of the candidate at the chosen position. -/
structure Chosen (s : Supply) (index : ℕ) (c : Candidate) : Prop where
  spare : s.conflictFull = false
  free : s.registering c.instanceId = none
  first : ∀ b ∈ s.pending.take index, b.instanceId ≠ c.instanceId
  /-- After its share, a parent is chosen only if there is no other one. -/
  other : dispatchParentShare ≤ s.parentShare → c.instanceId = s.lastParent →
    ∀ b ∈ s.pending, s.registering b.instanceId = none → b.instanceId = s.lastParent

theorem chosen_of_first (h : first busy cs = some index) (hc : cs[index]? = some c) :
    busy c.instanceId = false ∧ ∀ b ∈ cs.take index, b.instanceId ≠ c.instanceId := by
  obtain ⟨_, hfree, hbefore⟩ := List.findIdx?_eq_some_iff_getElem.mp h
  obtain ⟨-, rfl⟩ := List.getElem?_eq_some_iff.mp hc
  rw [Bool.not_eq_true'] at hfree
  refine ⟨hfree, fun b hb heq => ?_⟩
  obtain ⟨j, _, rfl⟩ := List.mem_take_iff_getElem.mp hb
  have hbusy := hbefore j (by omega)
  rw [heq, hfree] at hbusy
  exact hbusy rfl

theorem chosen_of_firstOther (h : firstOther busy lastParent cs = some index)
    (hc : cs[index]? = some c) : busy c.instanceId = false ∧ c.instanceId ≠ lastParent ∧
      ∀ b ∈ cs.take index, b.instanceId ≠ c.instanceId := by
  obtain ⟨_, hfree, hbefore⟩ := List.findIdx?_eq_some_iff_getElem.mp h
  obtain ⟨-, rfl⟩ := List.getElem?_eq_some_iff.mp hc
  have hfree' := hfree
  rw [Bool.and_eq_true, Bool.not_eq_true', decide_eq_true_eq] at hfree'
  refine ⟨hfree'.1, hfree'.2, fun b hb heq => ?_⟩
  obtain ⟨j, _, rfl⟩ := List.mem_take_iff_getElem.mp hb
  have hother := hbefore j (by omega)
  rw [heq] at hother
  exact hother hfree

/-- What `choose` guarantees of its choice. -/
theorem chosen (h : s.choose = some index) (hc : s.pending[index]? = some c) : s.Chosen index c := by
  unfold choose at h
  split at h
  · cases h
  · next hfull =>
    have hspare := Bool.eq_false_iff.mpr hfull
    by_cases hshare : s.parentShare < dispatchParentShare
    · rw [pick_fresh hshare] at h
      simp only [Nat.zero_add, Option.map_id'] at h
      obtain ⟨hfree, hfirst⟩ := chosen_of_first h hc
      exact ⟨hspare, by simpa using hfree, hfirst, fun hle => absurd hshare (Nat.not_lt.mpr hle)⟩
    · rw [pick_tired (Nat.not_lt.mp hshare)] at h
      simp only [Nat.zero_add, Option.map_id', Option.none_or, Option.or_eq_some_iff] at h
      rcases h with hother | ⟨hnone, hfirst⟩
      · obtain ⟨hfree, hne, hfirst⟩ := chosen_of_firstOther hother hc
        exact ⟨hspare, by simpa using hfree, hfirst, fun _ hlast => absurd hlast hne⟩
      · obtain ⟨hfree, hfirst⟩ := chosen_of_first hfirst hc
        refine ⟨hspare, by simpa using hfree, hfirst, fun _ _ b hb hbfree => ?_⟩
        have hlast := List.findIdx?_eq_none_iff.mp hnone b hb
        simpa [hbfree] using hlast

end Dogx.Dispatch.Supply
