import Dogx.Collation
import Dogx.Job.Model
import Dogx.Paging.Seek

/-!
# Addresses to notify of a cancellation

`ListCancelTargets` reads the distinct saved addresses of an instance with a recursive query: each row
seeks the next address after the one before it. The query is modelled as the database evaluates it: a
working table starts with the anchor's rows and is replaced by the rows of the recursive term, until it
is empty.
-/

namespace Dogx.Job

/-! ## The table -/

/-- An address, in the order of the column's collation. -/
structure Address (col : Collation) where
  text : String
  deriving DecidableEq

namespace Address

variable {col : Collation}

instance : IsStrictTotalOrder (Address col) fun a b => col.lt a.text b.text = true where
  trichotomous a b hab hba := by
    by_contra hne
    have htext : a.text ≠ b.text := fun heq => hne (by cases a; cases b; exact congrArg mk heq)
    exact (col.total htext).elim hab hba
  irrefl a h := by
    rw [col.irrefl] at h
    cases h
  trans _ _ _ := col.trans

instance : DecidableRel fun a b : Address col => col.lt a.text b.text = true :=
  fun _ _ => inferInstance

instance : LinearOrder (Address col) := linearOrderOfSTO fun a b => col.lt a.text b.text = true

end Address

/-- The rows of `job_task`; the column `executor_address` is a `varchar(255)`. -/
structure TaskTable where
  rows : List JobTask
  short : ∀ t ∈ rows, ∀ a, t.executorAddress = some a → a.length ≤ 255

namespace TaskTable

variable (col : Collation) (table : TaskTable) (instanceId : ℤ)

/-- The addresses of the instance that are not NULL. -/
def addresses : List (Address col) :=
  table.rows.filterMap fun t =>
    if (t.instanceId : ℤ) = instanceId then t.executorAddress.map Address.mk else none

/-! ## The query -/

/-- `WHERE … executor_address > bound ORDER BY executor_address LIMIT 1`. -/
def seek (bound : Address col) : Option (Address col) :=
  Paging.least (table.addresses col instanceId) bound

/-- The recursive term, over the working table of addresses and their positions. -/
def recursiveTerm (limit : ℕ) (working : List (Address col × ℕ)) : List (Address col × ℕ) :=
  working.flatMap fun row =>
    if row.2 < limit then
      (table.seek col instanceId row.1).toList.map fun following => (following, row.2 + 1)
    else []

/-- `WITH RECURSIVE`: `none` if the working table is not empty after so many rounds. -/
def withRecursive (limit : ℕ) : ℕ → List (Address col × ℕ) → Option (List (Address col × ℕ))
  | _, [] => some []
  | 0, _ :: _ => none
  | rounds + 1, row :: rows =>
    (withRecursive limit rounds (table.recursiveTerm col instanceId limit (row :: rows))).map
      (row :: rows ++ ·)

inductive TargetError where
  /-- "invalid cancellation target query" -/
  | invalid
  /-- The recursion has not come to an end. -/
  | unfinished
  deriving DecidableEq, Repr

def listCancelTargets (after : String) (limit : ℤ) : Except TargetError (List String) :=
  if instanceId ≤ 0 || limit < 1 || 32 < limit || 255 < after.length then .error .invalid
  else
    let anchor := (table.seek col instanceId ⟨after⟩).toList.map fun address => (address, 1)
    match table.withRecursive col instanceId limit.toNat limit.toNat anchor with
    | none => .error .unfinished
    | some targets => .ok ((targets.insertionSort fun x y => x.2 ≤ y.2).map fun x => x.1.text)

/-- Pages are read, each after the last address of the one before it, until one is empty. -/
def traverse (limit : ℤ) : ℕ → String → Option (List String)
  | 0, _ => none
  | pages + 1, after =>
    match table.listCancelTargets col instanceId after limit with
    | .error _ => none
    | .ok [] => some []
    | .ok (address :: page) =>
      (traverse limit pages ((address :: page).getLast (List.cons_ne_nil address page))).map
        (address :: page ++ ·)

/-! ## What it returns -/

/-- The distinct addresses of the instance after `after`, in increasing order. -/
def targets (after : String) : List String :=
  (Paging.above (table.addresses col instanceId) ⟨after⟩).map Address.text

variable {col table instanceId} {after : String} {bound a : Address col} {limit : ℤ}

theorem mem_addresses : a ∈ table.addresses col instanceId ↔
    ∃ t ∈ table.rows, (t.instanceId : ℤ) = instanceId ∧ t.executorAddress = some a.text := by
  simp only [addresses, List.mem_filterMap, Option.ite_none_right_eq_some, Option.map_eq_some_iff]
  refine exists_congr fun t => and_congr_right fun _ => and_congr_right fun _ => ?_
  constructor
  · rintro ⟨text, ht, rfl⟩
    exact ht
  · exact fun ht => ⟨a.text, ht, rfl⟩

theorem mem_targets {a : String} : a ∈ table.targets col instanceId after ↔
    (∃ t ∈ table.rows, (t.instanceId : ℤ) = instanceId ∧ t.executorAddress = some a) ∧
      col.lt after a = true := by
  simp only [targets, List.mem_map, Paging.mem_above, mem_addresses]
  constructor
  · rintro ⟨b, ⟨hb, hlt⟩, rfl⟩
    exact ⟨hb, hlt⟩
  · rintro ⟨ha, hlt⟩
    exact ⟨⟨a⟩, ⟨ha, hlt⟩, rfl⟩

theorem pairwise_targets :
    (table.targets col instanceId after).Pairwise fun a b => col.lt a b = true :=
  List.pairwise_map.mpr (Paging.pairwise_above _ _)

/-- The recursive query steps through the addresses above the bound, one a round. -/
theorem withRecursive_seek {limit position rounds : ℕ} (hposition : position ≤ limit)
    (hrounds : limit < position + rounds) :
    table.withRecursive col instanceId limit rounds
        ((table.seek col instanceId bound).toList.map fun address => (address, position)) =
      some (((Paging.above (table.addresses col instanceId) bound).take
        (limit + 1 - position)).zipIdx position) := by
  induction rounds generalizing bound position with
  | zero => omega
  | succ _ ih =>
    rw [seek, Paging.least_eq_head]
    cases habove : Paging.above (table.addresses col instanceId) bound with
    | nil => simp [withRecursive]
    | cons address =>
      have hrest := Paging.above_of_cons habove
      have hterm : table.recursiveTerm col instanceId limit [(address, position)] =
          if position < limit then (table.seek col instanceId address).toList.map
            fun following => (following, position + 1) else [] := by
        simp [recursiveTerm]
      simp only [List.head?_cons, Option.toList_some, List.map_cons, List.map_nil, withRecursive]
      rw [hterm]
      by_cases hmore : position < limit
      · rw [if_pos hmore, ih (by omega) (by omega), hrest,
          show limit + 1 - position = (limit + 1 - (position + 1)) + 1 by omega]
        simp
      · rw [if_neg hmore, show limit + 1 - position = 1 by omega]
        simp [withRecursive]

theorem orderBy_position (l : List (Address col)) (n : ℕ) :
    (l.zipIdx n).insertionSort (fun x y => x.2 ≤ y.2) = l.zipIdx n := by
  refine List.Pairwise.insertionSort_eq ?_
  have hpositions : ((l.zipIdx n).map Prod.snd).Pairwise (· ≤ ·) := by
    rw [List.zipIdx_map_snd]
    exact (List.pairwise_lt_range' (n := l.length)).imp Nat.le_of_lt
  exact List.pairwise_map.mp hpositions

/-- A page is the first targets behind the cursor. -/
theorem listCancelTargets_eq (hid : 0 < instanceId) (hafter : after.length ≤ 255)
    (hlimit : 1 ≤ limit ∧ limit ≤ 32) :
    table.listCancelTargets col instanceId after limit =
      .ok ((table.targets col instanceId after).take limit.toNat) := by
  have hvalid : (instanceId ≤ 0 || limit < 1 || 32 < limit || 255 < after.length) = false := by
    simp only [Bool.or_eq_false_iff, decide_eq_false_iff_not]
    omega
  have hquery : table.withRecursive col instanceId limit.toNat limit.toNat
      ((table.seek col instanceId ⟨after⟩).toList.map fun address => (address, 1)) = _ :=
    withRecursive_seek (by omega) (by omega)
  unfold listCancelTargets
  rw [hvalid]
  simp only [Bool.false_eq_true, if_false, hquery]
  have hmap : ∀ l : List (Address col × ℕ),
      l.map (fun x => x.1.text) = (l.map Prod.fst).map Address.text := fun l => List.map_map.symm
  rw [orderBy_position, Nat.add_sub_cancel, targets, ← List.map_take, hmap, List.zipIdx_map_fst]

/-! ## Reading all pages -/

theorem targets_getLast {page rest : List String}
    (h : table.targets col instanceId after = page ++ rest) (hne : page ≠ []) :
    table.targets col instanceId (page.getLast hne) = rest := by
  obtain ⟨first, _, habove, rfl, rfl⟩ := List.map_eq_append_iff.mp h
  have hfirst : first ≠ [] := fun heq => hne (heq ▸ rfl)
  rw [List.getLast_map]
  exact congrArg (List.map Address.text) (Paging.above_getLast habove hfirst)

theorem length_le_of_mem {a : String} (h : a ∈ table.targets col instanceId after) :
    a.length ≤ 255 := by
  obtain ⟨⟨t, ht, -, ha⟩, -⟩ := mem_targets.mp h
  exact table.short t ht a ha

/-- Page after page, every target is listed once. -/
theorem traverse_eq (hid : 0 < instanceId) (hlimit : 1 ≤ limit ∧ limit ≤ 32) {pages : ℕ}
    (hafter : after.length ≤ 255) (hpages : (table.targets col instanceId after).length < pages) :
    table.traverse col instanceId limit pages after =
      some (table.targets col instanceId after) := by
  induction pages generalizing after with
  | zero => exact absurd hpages (Nat.not_lt_zero _)
  | succ _ ih =>
    have hsplit := (List.take_append_drop limit.toNat (table.targets col instanceId after)).symm
    rw [traverse, listCancelTargets_eq hid hafter hlimit]
    cases hpage : (table.targets col instanceId after).take limit.toNat with
    | nil =>
      rcases List.take_eq_nil_iff.mp hpage with hzero | hnil
      · omega
      · rw [hnil]
    | cons address page =>
      rw [hpage] at hsplit
      have hrest := targets_getLast hsplit (List.cons_ne_nil address page)
      have hlast : (address :: page).getLast (List.cons_ne_nil address page) ∈
          table.targets col instanceId after := by
        rw [hsplit]
        exact List.mem_append_left _ (List.getLast_mem _)
      have hlength := congrArg List.length hsplit
      rw [List.length_append, List.length_cons] at hlength
      dsimp only
      rw [ih (length_le_of_mem hlast) (by rw [hrest]; omega), hrest, Option.map_some, ← hsplit]

theorem mem_targets_empty {a : String} : a ∈ table.targets col instanceId "" ↔
    (∃ t ∈ table.rows, (t.instanceId : ℤ) = instanceId ∧ t.executorAddress = some a) ∧ a ≠ "" := by
  rw [mem_targets]
  refine and_congr_right fun _ => ⟨fun hlt heq => ?_, col.empty⟩
  rw [heq, col.irrefl] at hlt
  cases hlt

theorem nodup_targets : (table.targets col instanceId after).Nodup := by
  refine pairwise_targets.imp fun hlt heq => ?_
  rw [heq, col.irrefl] at hlt
  cases hlt

/--
`ListCancelTargets` returns the first `limit` distinct addresses after the given one, in increasing
order; reading page after page from the last address enumerates all of them, each once.
-/
theorem list_cancel_targets (col : Collation) (table : TaskTable) (instanceId : ℤ) (after : String)
    (limit : ℤ) (hid : 0 < instanceId) (hafter : after.length ≤ 255)
    (hlimit : 1 ≤ limit ∧ limit ≤ 32) :
    table.listCancelTargets col instanceId after limit =
        .ok ((table.targets col instanceId after).take limit.toNat) ∧
      ((table.targets col instanceId after).Pairwise fun a b => col.lt a b = true) ∧
      (∀ a, a ∈ table.targets col instanceId after ↔
        (∃ t ∈ table.rows, (t.instanceId : ℤ) = instanceId ∧ t.executorAddress = some a) ∧
          col.lt after a = true) ∧
      (∀ pages, (table.targets col instanceId after).length < pages →
        table.traverse col instanceId limit pages after =
          some (table.targets col instanceId after)) ∧
      (table.targets col instanceId after).Nodup ∧
      (∀ a, a ∈ table.targets col instanceId "" ↔
        (∃ t ∈ table.rows, (t.instanceId : ℤ) = instanceId ∧ t.executorAddress = some a) ∧
          a ≠ "") :=
  ⟨listCancelTargets_eq hid hafter hlimit, pairwise_targets, fun _ => mem_targets,
    fun _ => traverse_eq hid hlimit hafter, nodup_targets, fun _ => mem_targets_empty⟩

/-- A task of an instance, with the address it was bound to. -/
def demoTask (id instanceId : ℕ) (executorAddress : Option String) : JobTask :=
  { id, instanceId, taskType := .ordinary, status := .canceled, attemptNo := 1, usedAttempts := 1
    attemptRegisteredAt := none, nextDispatchAt := none, executorInstanceId := none, executorAddress
    resultData := none, resultSummary := none, endReason := none, startedAt := none
    finishedAt := none, createdAt := 0, updatedAt := 0 }

def demoTable : TaskTable where
  rows := [demoTask 1 7 (some "b"), demoTask 2 7 (some "a"), demoTask 3 8 (some "d"), demoTask 4 7 none,
    demoTask 5 7 (some "b"), demoTask 6 7 (some "c")]
  short := by decide +kernel

/-- Two addresses a page: the duplicate, the NULL and the other instance's address are left out. -/
theorem demo_targets :
    demoTable.listCancelTargets .codePoints 7 "" 2 = .ok ["a", "b"] ∧
      demoTable.traverse .codePoints 7 2 4 "" = some ["a", "b", "c"] := by
  have htargets : demoTable.targets .codePoints 7 "" = ["a", "b", "c"] := by decide +kernel
  have h := list_cancel_targets .codePoints demoTable 7 "" 2 (by decide) (by decide) (by decide)
  exact ⟨h.1, h.2.2.2.1 4 (by decide)⟩

end TaskTable

end Dogx.Job
