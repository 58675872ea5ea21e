import Dogx.Machine.Run
import Dogx.Queue.Ring

/-!
# The queue of trigger hints

`jobQueue` of package `scheduler`: a ring buffer of waiting Job IDs, beside a map of the IDs that
wait or are processed. It refines a FIFO in which hints for one ID coalesce.
-/

namespace Dogx.Scheduler.Hints

open Function (update update_of_ne update_self)
open Queue (window window_push window_pop)

/-! ## The code -/

structure PendingJob where
  processing : Bool
  dirty : Bool
  deriving DecidableEq

/-- `jobs` is a map: its keys, and the value of each. -/
structure JobQueue where
  keys : List ℤ
  jobs : ℤ → PendingJob
  buffer : ℕ → ℤ
  capacity : ℕ
  head : ℕ
  size : ℕ
  closed : Bool

def newJobQueue (capacity : ℕ) : JobQueue where
  keys := []
  jobs := fun _ => ⟨false, false⟩
  buffer := fun _ => 0
  capacity := capacity
  head := 0
  size := 0
  closed := false

namespace JobQueue

def lookup (q : JobQueue) (id : ℤ) : Option PendingJob :=
  if id ∈ q.keys then some (q.jobs id) else none

def assign (q : JobQueue) (id : ℤ) (job : PendingJob) : JobQueue :=
  { q with jobs := update q.jobs id job }

def push (q : JobQueue) (id : ℤ) : JobQueue :=
  { q with
    buffer := update q.buffer ((q.head + q.size) % q.capacity) id
    size := q.size + 1 }

def offer (q : JobQueue) (id : ℤ) : JobQueue × Bool :=
  if q.closed then (q, false)
  else match q.lookup id with
    | some existing =>
      (if existing.processing then q.assign id { existing with dirty := true } else q, true)
    | none =>
      if q.keys.length = q.capacity then (q, false)
      else ({ q.assign id ⟨false, false⟩ with keys := id :: q.keys }.push id, true)

/-- `none` while it waits, and where the code would follow a nil pointer. -/
def take (q : JobQueue) : Option (JobQueue × Option ℤ) :=
  if q.closed then some (q, none)
  else if q.size = 0 then none
  else
    let id := q.buffer q.head
    let q := { q with head := (q.head + 1) % q.capacity, size := q.size - 1 }
    (q.lookup id).map fun job => (q.assign id { job with processing := true }, some id)

def complete (q : JobQueue) (id : ℤ) : Option JobQueue :=
  if q.closed then some q
  else (q.lookup id).map fun job =>
    if job.dirty then (q.assign id ⟨false, false⟩).push id else { q with keys := q.keys.erase id }

def close (q : JobQueue) : JobQueue := { q with closed := true, keys := [], size := 0 }

/-- The IDs in the buffer, from the head on. -/
def waiting (q : JobQueue) : List ℤ := window q.buffer q.capacity q.head q.size

end JobQueue

inductive Move where
  | offer (id : ℤ)
  | take
  | complete (id : ℤ)
  | close

/-- The queue and the IDs that workers have taken and not completed. -/
structure System where
  queue : JobQueue
  taken : List ℤ

def System.step (s : System) : Move → Option System
  | .offer id => some { s with queue := (s.queue.offer id).1 }
  | .take => s.queue.take.map fun r => { queue := r.1, taken := r.2.toList ++ s.taken }
  | .complete id =>
    if id ∈ s.taken then
      (s.queue.complete id).map fun queue => { queue, taken := s.taken.erase id }
    else none
  | .close => some { s with queue := s.queue.close }

def machine (capacity : ℕ) : Machine System Move where
  init := { queue := newJobQueue capacity, taken := [] }
  step := System.step

/-! ## What it is for -/

/-- IDs in the order in which they are to be taken, those that are processed, and whether there
was a hint since. -/
structure Fifo where
  waiting : List ℤ
  taken : List ℤ
  dirty : ℤ → Bool
  closed : Bool

namespace Fifo

variable (capacity : ℕ) (f : Fifo) (id : ℤ)

def offer : Fifo × Bool :=
  if f.closed then (f, false)
  else if id ∈ f.waiting then (f, true)
  else if id ∈ f.taken then ({ f with dirty := update f.dirty id true }, true)
  else if f.waiting.length + f.taken.length = capacity then (f, false)
  else ({ f with waiting := f.waiting ++ [id] }, true)

def take : Option (Fifo × Option ℤ) :=
  if f.closed then some (f, none)
  else match f.waiting with
    | [] => none
    | id :: rest => some ({ f with waiting := rest, taken := id :: f.taken }, some id)

def complete : Option Fifo :=
  if id ∉ f.taken then none
  else if f.closed then some { f with taken := f.taken.erase id }
  else if f.dirty id then
    some { f with
      waiting := f.waiting ++ [id]
      taken := f.taken.erase id
      dirty := update f.dirty id false }
  else some { f with taken := f.taken.erase id }

def close : Fifo := { f with closed := true, waiting := [] }

def step : Move → Option Fifo
  | .offer id => some (f.offer capacity id).1
  | .take => f.take.map (·.1)
  | .complete id => f.complete id
  | .close => some f.close

def machine : Machine Fifo Move where
  init := { waiting := [], taken := [], dirty := fun _ => false, closed := false }
  step := step capacity

end Fifo

/-! ## The refinement -/

variable {capacity : ℕ} {q : JobQueue} {f : Fifo} {s s' : System} {id : ℤ} {m : Move}

structure Open (capacity : ℕ) (q : JobQueue) (f : Fifo) : Prop where
  capacity_eq : q.capacity = capacity
  head : q.head < q.capacity
  waiting : q.waiting = f.waiting
  keys : q.keys.Perm (f.waiting ++ f.taken)
  nodup : q.keys.Nodup
  le : q.keys.length ≤ q.capacity
  fresh : ∀ id ∈ f.waiting, q.jobs id = ⟨false, false⟩
  busy : ∀ id ∈ f.taken, q.jobs id = ⟨true, f.dirty id⟩
  clean : ∀ id, id ∉ f.taken → f.dirty id = false

structure Refines (capacity : ℕ) (s : System) (f : Fifo) : Prop where
  closed_eq : f.closed = s.queue.closed
  taken_eq : f.taken = s.taken
  nodup : s.taken.Nodup
  opened : s.queue.closed = false → Open capacity s.queue f

namespace Open

theorem init (h : 0 < capacity) :
    Open capacity (newJobQueue capacity) (Fifo.machine capacity).init := by
  constructor <;> simp [newJobQueue, Fifo.machine, JobQueue.waiting, window, h]

variable (h : Open capacity q f)
include h

theorem mem_keys : id ∈ q.keys ↔ id ∈ f.waiting ∨ id ∈ f.taken := by
  rw [h.keys.mem_iff, List.mem_append]

theorem nodup_append : (f.waiting ++ f.taken).Nodup := h.keys.nodup_iff.mp h.nodup

theorem waiting_nodup : f.waiting.Nodup := (List.nodup_append.mp h.nodup_append).1

theorem taken_nodup : f.taken.Nodup := (List.nodup_append.mp h.nodup_append).2.1

theorem length_eq : q.keys.length = f.waiting.length + f.taken.length := by
  rw [h.keys.length_eq, List.length_append]

theorem size_eq : q.size = f.waiting.length := by
  rw [← h.waiting, JobQueue.waiting, window, List.length_map, List.length_range]

theorem push_waiting (id : ℤ) (hroom : f.waiting.length < q.capacity) :
    (q.push id).waiting = f.waiting ++ [id] := by
  rw [← h.waiting]
  exact window_push (h.size_eq ▸ hroom) id

theorem refines {taken : List ℤ} (ht : f.taken = taken) (hclosed : f.closed = q.closed) :
    Refines capacity ⟨q, taken⟩ f :=
  ⟨hclosed, ht, ht ▸ h.taken_nodup, fun _ => h⟩

theorem offer (hq : q.closed = false) (hf : f.closed = false) (id : ℤ) :
    Refines capacity ⟨(q.offer id).1, f.taken⟩ (f.offer capacity id).1 ∧
      (q.offer id).2 = (f.offer capacity id).2 := by
  have hlen := h.length_eq
  have hclosed := hf.trans hq.symm
  simp only [JobQueue.offer, Fifo.offer, hq, hf, JobQueue.lookup, Bool.false_eq_true, if_false,
    h.mem_keys, hlen, h.capacity_eq]
  by_cases hw : id ∈ f.waiting
  · simp only [hw, true_or, if_true, h.fresh id hw, Bool.false_eq_true, if_false, and_true]
    exact h.refines rfl hclosed
  · by_cases ht : id ∈ f.taken
    · simp only [hw, ht, or_true, if_true, if_false, h.busy id ht, and_true]
      refine refines ?_ rfl hq.symm
      cases h
      constructor <;> simp only [JobQueue.assign, JobQueue.waiting] at * <;> grind
    · simp only [hw, ht, or_self, if_false]
      split
      · exact ⟨h.refines rfl hclosed, rfl⟩
      · have hpush := h.push_waiting id
        refine ⟨refines ?_ rfl hq.symm, rfl⟩
        cases h
        constructor <;> simp only [JobQueue.assign, JobQueue.push, JobQueue.waiting] at * <;> grind

theorem take (hq : q.closed = false) (hf : f.closed = false) :
    (q.take = none ∧ f.take = none) ∨ ∃ q' f' id, q.take = some (q', some id) ∧
      f.take = some (f', some id) ∧ Refines capacity ⟨q', id :: f.taken⟩ f' := by
  have hsize := h.size_eq
  cases hw : f.waiting with
  | nil => exact .inl ⟨by simp [JobQueue.take, hq, hsize, hw], by simp [Fifo.take, hf, hw]⟩
  | cons id rest =>
    have hwin := h.waiting
    rw [hw, List.length_cons] at hsize
    rw [JobQueue.waiting, hsize, window_pop, hw, Nat.mod_eq_of_lt h.head] at hwin
    obtain ⟨rfl, hrest⟩ := List.cons.inj hwin
    have hmem : q.buffer q.head ∈ q.keys := h.mem_keys.mpr (.inl (hw ▸ List.mem_cons_self))
    have hmod := Nat.mod_lt (q.head + 1) (Nat.zero_lt_of_lt h.head)
    refine .inr ⟨{ q with head := (q.head + 1) % q.capacity, size := rest.length }.assign
      (q.buffer q.head) { q.jobs (q.buffer q.head) with processing := true },
      { f with waiting := rest, taken := q.buffer q.head :: f.taken }, q.buffer q.head,
      by simp [JobQueue.take, hq, hsize, JobQueue.lookup, hmem], by simp [Fifo.take, hf, hw],
      refines ?_ rfl (hf.trans hq.symm)⟩
    cases h
    constructor <;> simp only [JobQueue.assign, JobQueue.waiting] at * <;> grind

theorem complete (hq : q.closed = false) (hf : f.closed = false) (ht : id ∈ f.taken) :
    ∃ q' f', q.complete id = some q' ∧ f.complete id = some f' ∧
      Refines capacity ⟨q', f.taken.erase id⟩ f' := by
  have hlen := h.length_eq
  have hpos := List.length_pos_of_mem ht
  have hpush := h.push_waiting id
  simp only [JobQueue.complete, Fifo.complete, hq, hf, JobQueue.lookup, h.mem_keys.mpr (.inr ht),
    h.busy id ht, ht, not_true, Bool.false_eq_true, if_false, if_true, Option.map_some]
  cases hd : f.dirty id with
  | false =>
    refine ⟨_, _, rfl, rfl, refines ?_ rfl rfl⟩
    cases h
    constructor <;> simp only [JobQueue.waiting] at * <;> grind
  | true =>
    refine ⟨_, _, rfl, rfl, refines ?_ rfl hq.symm⟩
    cases h
    constructor <;> simp only [JobQueue.assign, JobQueue.push, JobQueue.waiting] at * <;> grind

end Open

namespace Refines

variable (h : Refines capacity s f)
include h

theorem offer (id : ℤ) :
    Refines capacity { s with queue := (s.queue.offer id).1 } (f.offer capacity id).1 ∧
      (s.queue.offer id).2 = (f.offer capacity id).2 := by
  cases hq : s.queue.closed with
  | true => simpa [JobQueue.offer, Fifo.offer, hq, h.closed_eq] using h
  | false =>
    exact h.taken_eq ▸ (h.opened hq).offer hq (h.closed_eq.trans hq) id

theorem take : (s.queue.take = none ∧ f.take = none) ∨ ∃ q' f' o, s.queue.take = some (q', o) ∧
    f.take = some (f', o) ∧ Refines capacity ⟨q', o.toList ++ s.taken⟩ f' := by
  cases hq : s.queue.closed with
  | true =>
    exact .inr ⟨s.queue, f, none, by simp [JobQueue.take, hq],
      by simp [Fifo.take, h.closed_eq, hq], h⟩
  | false =>
    rcases (h.opened hq).take hq (h.closed_eq.trans hq) with hnone | ⟨q', f', id, hq', hf', h'⟩
    · exact .inl hnone
    · exact .inr ⟨q', f', some id, hq', hf', h.taken_eq ▸ h'⟩

theorem complete (hid : id ∈ s.taken) :
    ∃ q' f', s.queue.complete id = some q' ∧ f.complete id = some f' ∧
      Refines capacity ⟨q', s.taken.erase id⟩ f' := by
  have ht : id ∈ f.taken := h.taken_eq ▸ hid
  cases hq : s.queue.closed with
  | true =>
    refine ⟨s.queue, { f with taken := f.taken.erase id }, by simp [JobQueue.complete, hq],
      by simp [Fifo.complete, ht, h.closed_eq, hq], h.closed_eq, h.taken_eq ▸ rfl,
      h.nodup.erase id, ?_⟩
    simp [hq]
  | false => exact h.taken_eq ▸ (h.opened hq).complete hq (h.closed_eq.trans hq) ht

/-- Each step of the queue is a step of the FIFO. -/
theorem step (hstep : s.step m = some s') :
    ∃ f', f.step capacity m = some f' ∧ Refines capacity s' f' := by
  cases m with
  | offer id =>
    cases hstep
    exact ⟨_, rfl, (h.offer id).1⟩
  | take =>
    obtain ⟨_, hr, rfl⟩ := Option.map_eq_some_iff.mp hstep
    rcases h.take with ⟨hnone, -⟩ | ⟨q', f', o, hq, hf, h'⟩
    · cases hnone.symm.trans hr
    · cases hq.symm.trans hr
      exact ⟨f', by simp [Fifo.step, hf], h'⟩
  | complete id =>
    obtain ⟨hid, hstep⟩ := Option.ite_none_right_eq_some.mp hstep
    obtain ⟨_, hr, rfl⟩ := Option.map_eq_some_iff.mp hstep
    obtain ⟨q', f', hq, hf, h'⟩ := h.complete hid
    cases hq.symm.trans hr
    exact ⟨f', hf, h'⟩
  | close =>
    cases hstep
    exact ⟨_, rfl, rfl, h.taken_eq, h.nodup, nofun⟩

end Refines

/-- In every run: the bounds of the open queue, and the FIFO that makes the same moves, with the
same answers to all that can come next. -/
theorem queue_refines (capacity : ℕ) (hcap : 0 < capacity) (ms : List Move) (s : System)
    (h : (machine capacity).run ms = some s) :
    (s.queue.closed = false →
      let idle := s.queue.keys.filter fun id => !(s.queue.jobs id).processing
      s.queue.size = idle.length ∧ s.queue.keys.length ≤ capacity ∧ s.queue.waiting.Nodup ∧
        s.queue.waiting.Perm idle)
    ∧ s.taken.Nodup
    ∧ ∃ f, (Fifo.machine capacity).run ms = some f ∧ f.closed = s.queue.closed ∧ f.taken = s.taken ∧
      (s.queue.closed = false → f.waiting = s.queue.waiting) ∧
      (∀ id, (s.queue.offer id).2 = (f.offer capacity id).2) ∧
      s.queue.take.map (·.2) = f.take.map (·.2) ∧
      ∀ id ∈ s.taken, (s.queue.complete id).isSome = true := by
  obtain ⟨f, hf, hr⟩ := Machine.simulates (R := Refines capacity) (N := Fifo.machine capacity)
    (fun _ _ _ _ hr => hr.step) ((Open.init hcap).refines rfl rfl) h
  refine ⟨fun hq => ?_, hr.nodup, f, hf, hr.closed_eq, hr.taken_eq,
    fun hq => (hr.opened hq).waiting.symm, fun id => (hr.offer id).2, ?_, fun id hid => ?_⟩
  · have ho := hr.opened hq
    have hidle :
        s.queue.waiting.Perm (s.queue.keys.filter fun id => !(s.queue.jobs id).processing) := by
      have hw : f.waiting.filter (fun id => !(s.queue.jobs id).processing) = f.waiting :=
        List.filter_eq_self.mpr fun id hid => by simp [ho.fresh id hid]
      have ht : f.taken.filter (fun id => !(s.queue.jobs id).processing) = [] :=
        List.filter_eq_nil_iff.mpr fun id hid => by simp [ho.busy id hid]
      have hperm := ho.keys.filter fun id => !(s.queue.jobs id).processing
      rw [List.filter_append, hw, ht, List.append_nil, ← ho.waiting] at hperm
      exact hperm.symm
    refine ⟨?_, ho.capacity_eq ▸ ho.le, ho.waiting ▸ ho.waiting_nodup, hidle⟩
    rw [← hidle.length_eq, ho.waiting, ho.size_eq]
  · rcases hr.take with ⟨hq, hf⟩ | ⟨q', f', o, hq, hf, -⟩ <;> rw [hq, hf] <;> rfl
  · obtain ⟨q', -, hq, -⟩ := hr.complete hid
    rw [hq]
    rfl

theorem queue_refines_requeued :
    ∃ s ∈ (machine 1).run [.offer 7, .take, .offer 7, .offer 7, .complete 7],
      s.queue.waiting = [7] ∧ s.taken.Nodup := by
  obtain ⟨s, hs, hw⟩ : ∃ s ∈ (machine 1).run [.offer 7, .take, .offer 7, .offer 7, .complete 7],
      s.queue.waiting = [7] := by decide +kernel
  exact ⟨s, hs, hw, (queue_refines 1 Nat.one_pos _ s hs).2.1⟩

/-! ## No hint is lost -/

def Fifo.Owes (f : Fifo) (id : ℤ) : Prop :=
  f.closed = false → id ∈ f.waiting ∨ id ∈ f.taken ∧ f.dirty id = true

theorem Fifo.owes_offer (h : (f.offer capacity id).2 = true) : (f.offer capacity id).1.Owes id := by
  unfold Fifo.offer at *
  split_ifs at * <;> grind [Fifo.Owes, Function.update_apply]

/-- An ID that is owed stays owed until it is taken. -/
theorem Fifo.Owes.step {f' : Fifo} (h : f.Owes id) (hstep : f.step capacity m = some f') :
    f'.Owes id ∨ m = .take ∧ f.take = some (f', some id) := by
  cases m with
  | offer =>
    cases hstep
    unfold Fifo.offer
    split_ifs <;> grind [Fifo.Owes, Function.update_apply]
  | take =>
    obtain ⟨⟨_, o⟩, ho, rfl⟩ := Option.map_eq_some_iff.mp hstep
    unfold Fifo.take Fifo.Owes at *
    grind
  | complete =>
    simp only [Fifo.step, Fifo.complete] at hstep
    split_ifs at hstep <;> cases hstep <;> grind [Fifo.Owes, Function.update_apply]
  | close =>
    cases hstep
    exact .inl nofun

/-- The ID of an accepted hint is handed out after it, or waits, or is processed with the mark that
lets it wait again. -/
theorem hint_kept (capacity : ℕ) (hcap : 0 < capacity) (ms : List Move) (s : System)
    (h : (machine capacity).run ms = some s) (id : ℤ) (hoffer : (s.queue.offer id).2 = true)
    (ms' : List Move) (t s' : System) (ht : s.step (.offer id) = some t)
    (h' : (machine capacity).runFrom t ms' = some s') (hopen : s'.queue.closed = false) :
    (id ∈ s'.queue.waiting ∨ id ∈ s'.taken ∧ s'.queue.jobs id = ⟨true, true⟩) ∨
      ∃ u m u', (machine capacity).StepIn t ms' s' u m u' ∧
        m = .take ∧ u.queue.take.map (·.2) = some (some id) := by
  obtain ⟨f, -, hr⟩ := Machine.simulates (R := Refines capacity) (N := Fifo.machine capacity)
    (fun _ _ _ _ hr => hr.step) ((Open.init hcap).refines rfl rfl) h
  cases ht
  obtain ⟨hr, hsame⟩ := hr.offer id
  have howes := Fifo.owes_offer (hsame ▸ hoffer)
  refine ((Machine.Along.of_any h').keeps_or (I := fun _ => True) ⟨trivial, fun _ _ _ _ _ => trivial⟩
    (P := fun u => ∃ f, Refines capacity u f ∧ f.Owes id)
    (D := fun u m _ => m = .take ∧ u.queue.take.map (·.2) = some (some id)) ?_ trivial
    ⟨_, hr, howes⟩).imp_left ?_
  · rintro u m u' - ⟨f, hr, howes⟩ hstep -
    obtain ⟨f', hf', hr'⟩ := hr.step hstep
    refine (howes.step hf').imp (fun howes => ⟨f', hr', howes⟩) fun ⟨hm, htake⟩ => ⟨hm, ?_⟩
    rcases hr.take with ⟨-, hf⟩ | ⟨q, _, o, hq, hf, -⟩ <;> cases htake.symm.trans hf
    rw [hq]
    rfl
  · rintro ⟨f, hr, howes⟩
    have ho := hr.opened hopen
    refine (howes (hr.closed_eq.trans hopen)).imp (ho.waiting ▸ ·) fun ⟨ht, hd⟩ => ?_
    exact ⟨hr.taken_eq ▸ ht, by rw [ho.busy id ht, hd]⟩

theorem hint_kept_again : ∃ s t s', (machine 1).run [.offer 7, .take] = some s ∧
    s.step (.offer 7) = some t ∧ (machine 1).runFrom t [.complete 7] = some s' ∧
    ((7 ∈ s'.queue.waiting ∨ 7 ∈ s'.taken ∧ s'.queue.jobs 7 = ⟨true, true⟩) ∨
      ∃ u m u', (machine 1).StepIn t [.complete 7] s' u m u' ∧
        m = .take ∧ u.queue.take.map (·.2) = some (some 7)) := by
  obtain ⟨s, hs, ho, t, ht, s', hs', hopen⟩ : ∃ s ∈ (machine 1).run [.offer 7, .take],
      (s.queue.offer 7).2 = true ∧ ∃ t ∈ s.step (.offer 7),
        ∃ s' ∈ (machine 1).runFrom t [.complete 7], s'.queue.closed = false := by decide +kernel
  exact ⟨s, t, s', hs, ht, hs', hint_kept 1 Nat.one_pos _ s hs 7 ho _ t s' ht hs' hopen⟩

end Dogx.Scheduler.Hints
