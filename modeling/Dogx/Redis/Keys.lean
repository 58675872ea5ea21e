import Mathlib

/-!
# Keys of Redis

A `Space` holds the keys of one kind. A key that has expired does not exist for any command, so the
clock takes it away when it moves (`elapse`).

A set remembers with every member when it was added. That is not visible to commands, but it is what
a scan is about: an iteration returns every member that was there from its beginning to its end, and
the cursor between two calls stands for what has been promised and what has been returned.
-/

namespace Redis

/-- The value of a key and, if it expires, the last millisecond of its life. -/
structure Entry (α : Type) where
  value : α
  deadline : Option ℕ

abbrev Space (κ α : Type) := κ → Option (Entry α)

namespace Space

variable {κ α : Type} {d : Space κ α}

def elapse (d : Space κ α) (now : ℕ) : Space κ α :=
  fun k => (d k).filter fun e => e.deadline.all fun t => now ≤ t

theorem of_elapse {k : κ} {e : Entry α} {now : ℕ} (h : d.elapse now k = some e) : d k = some e :=
  (Option.filter_eq_some_iff.mp h).1

variable [DecidableEq κ]

def setex (d : Space κ α) (k : κ) (v : α) (deadline : ℕ) : Space κ α :=
  Function.update d k (some ⟨v, some deadline⟩)

def del (d : Space κ α) (ks : List κ) : Space κ α := fun k => if k ∈ ks then none else d k

def expire (d : Space κ α) (k : κ) (deadline : ℕ) : Space κ α :=
  Function.update d k ((d k).map fun e => { e with deadline := some deadline })

theorem del_eq_some {k : κ} {e : Entry α} {ks : List κ} :
    d.del ks k = some e ↔ k ∉ ks ∧ d k = some e := by
  unfold del
  split <;> simp_all

end Space

/-! ## Sets -/

abbrev Members (α : Type) := List (α × ℕ)

section Sets

variable {κ α : Type} [DecidableEq α] {d : Space κ (Members α)}

namespace Members

def has (s : Members α) (a : α) : Bool := s.any fun m => m.1 = a

def add (s : Members α) (a : α) (stamp : ℕ) : Members α := if s.has a then s else (a, stamp) :: s

def remove (s : Members α) (a : α) : Members α := s.filter fun m => m.1 ≠ a

variable {s : Members α} {a b : α} {stamp : ℕ}

theorem has_iff : s.has a = true ↔ ∃ n, (a, n) ∈ s := by
  simp [has]

theorem has_add : (s.add a stamp).has b = true ↔ b = a ∨ s.has b = true := by
  unfold add
  split
  next h =>
    constructor
    · exact .inr
    · rintro (rfl | hb)
      · exact h
      · exact hb
  · rw [has, List.any_cons, Bool.or_eq_true, decide_eq_true_eq]
    exact or_congr eq_comm Iff.rfl

theorem has_remove : (s.remove a).has b = true ↔ b ≠ a ∧ s.has b = true := by
  simp only [has_iff, remove, List.mem_filter]
  constructor
  · rintro ⟨n, hn, hne⟩
    exact ⟨by simpa using hne, n, hn⟩
  · rintro ⟨hne, n, hn⟩
    exact ⟨n, hn, by simpa using hne⟩

end Members

namespace Space

def sismember (d : Space κ (Members α)) (k : κ) (a : α) : Bool := (d k).any fun e => e.value.has a

theorem sismember_iff {k : κ} {a : α} :
    d.sismember k a = true ↔ ∃ e, d k = some e ∧ e.value.has a = true := by
  simp [sismember, Option.any_eq_true]

def members (d : Space κ (Members α)) (k : κ) : Members α := ((d k).map Entry.value).getD []

theorem members_has {k : κ} {a : α} : (d.members k).has a = d.sismember k a := by
  cases hd : d k <;> simp [members, sismember, hd, Members.has]

variable [DecidableEq κ]

def sadd (d : Space κ (Members α)) (k : κ) (a : α) (stamp : ℕ) : Space κ (Members α) :=
  match d k with
  | none => Function.update d k (some ⟨[(a, stamp)], none⟩)
  | some e => Function.update d k (some { e with value := e.value.add a stamp })

def srem (d : Space κ (Members α)) (k : κ) (a : α) : Space κ (Members α) :=
  match d k with
  | none => d
  | some e =>
    Function.update d k
      (if e.value.remove a = [] then none else some { e with value := e.value.remove a })

variable {d : Space κ (Members α)} {k k' : κ} {a b : α} {stamp : ℕ}

theorem sismember_sadd :
    (d.sadd k a stamp).sismember k' b = true ↔ (k' = k ∧ b = a) ∨ d.sismember k' b = true := by
  unfold sadd
  by_cases hk : k' = k
  · subst hk
    cases hd : d k' with
    | none => simp [sismember, hd, Members.has, eq_comm]
    | some => simp [sismember, hd, Members.has_add]
  · cases hd : d k <;> simp [sismember, hk]

/-- `SREM` takes one member of one set. -/
theorem sismember_srem :
    (d.srem k a).sismember k' b = true ↔ ¬ (k' = k ∧ b = a) ∧ d.sismember k' b = true := by
  unfold srem
  by_cases hk : k' = k
  · subst hk
    cases hd : d k' with
    | none => simp [sismember, hd]
    | some e =>
      have hrem := Members.has_remove (s := e.value) (a := a) (b := b)
      by_cases hempty : e.value.remove a = []
      · rw [hempty] at hrem
        simp only [sismember, hd, hempty, Option.any_some]
        simpa [Members.has] using hrem
      · simp [sismember, hd, hempty, hrem]
  · cases hd : d k with
    | none => simp [hk]
    | some => simp [sismember, hk]

theorem sismember_expire {deadline : ℕ} :
    (d.expire k deadline).sismember k' b = d.sismember k' b := by
  unfold expire
  by_cases hk : k' = k
  · subst hk
    cases hd : d k' <;> simp [sismember, hd]
  · simp [sismember, hk]

end Space

/-! ## Scans -/

structure Cursor (α : Type) where
  snapshot : Members α
  seen : List α

namespace Cursor

def allows (current : Members α) (cursor : Option (Cursor α)) (ids : List α) (more : Bool) : Bool :=
  ids.all current.has &&
    (more || ((cursor.map snapshot).getD current).all fun m =>
      !current.contains m || ((cursor.map seen).getD [] ++ ids).contains m.1)

def next (current : Members α) (cursor : Option (Cursor α)) (ids : List α) (more : Bool) :
    Option (Cursor α) :=
  if more then
    some { snapshot := (cursor.map snapshot).getD current, seen := (cursor.map seen).getD [] ++ ids }
  else none

def Due (current : Members α) (cursor : Option (Cursor α)) (a : α) : Prop :=
  ∃ n, (a, n) ∈ current ∧ (a, n) ∈ (cursor.map snapshot).getD current ∧
    a ∉ (cursor.map seen).getD []

variable {current : Members α} {cursor : Option (Cursor α)} {ids : List α} {more : Bool} {a : α}

theorem due_none (h : current.has a = true) : Due current none a := by
  obtain ⟨n, hn⟩ := Members.has_iff.mp h
  exact ⟨n, hn, hn, by simp⟩

theorem Due.has (h : Due current cursor a) : current.has a = true := by
  obtain ⟨n, hn, -⟩ := h
  exact Members.has_iff.mpr ⟨n, hn⟩

theorem Due.next (h : Due current cursor a) (hallows : allows current cursor ids more = true) :
    a ∈ ids ∨ ∃ c, next current cursor ids more = some c ∧ Due current (some c) a := by
  obtain ⟨n, hcur, hsnap, hseen⟩ := h
  by_cases ha : a ∈ ids
  · exact .inl ha
  right
  cases more with
  | true => exact ⟨_, rfl, n, hcur, hsnap, by simp [hseen, ha]⟩
  | false =>
    simp only [allows, Bool.false_or, Bool.and_eq_true, List.all_eq_true] at hallows
    have := hallows.2 (a, n) hsnap
    simp [hcur, hseen, ha] at this

theorem allows_all : allows current none (current.map Prod.fst) false = true := by
  simp only [allows, Bool.false_or, Bool.and_eq_true, List.all_eq_true]
  constructor
  · intro a ha
    obtain ⟨⟨a, n⟩, hm, rfl⟩ := List.mem_map.mp ha
    exact Members.has_iff.mpr ⟨n, hm⟩
  · intro m hm
    simp only [Bool.or_eq_true]
    exact .inr (by simpa using ⟨m.2, hm⟩)

end Cursor

end Sets

end Redis
