import Dogx.Job.Properties.Budget

/-!
# Closing an attempt

Acknowledgements, BUSY answers, rejections, reports, unknown settlements and stop cancellations may
arrive late, twice or in any order. An attempt is closed once; a write that names another attempt,
or a task that is not running, changes nothing. An executor that has been bound to an attempt stays
bound to it, and the attempt is then its own to close.
-/

namespace Dogx.Job

open Txn (Store)
open JobTaskRepository

variable {env : Env} {w : World} {op : Op} {writes : Db} {id taskId : ℕ} {n : Int} {t t' : JobTask}
  {e : Event} {b : ExecutorBinding}

/-! ## Writes that name an attempt -/

/-- The attempt that an answer, a report or a settlement is about. -/
def Op.names : Op → Option (ℕ × Int)
  | .bindExecutor b _ => some (b.taskId, b.attemptNo)
  | .saveDispatchBusy b _ => some (b.taskId, b.attemptNo)
  | .saveDispatchRejection b _ => some (b.taskId, b.attemptNo)
  | .saveResult b _ => some (b.taskId, b.attemptNo)
  | .settleOrdinaryUnknown b _ => some (b.taskId, b.expectedAttemptNo)
  | _ => none

/-- An answer is about the attempt that is running. -/
theorem TaskUpdate.running_of_names (h : TaskUpdate w op id t t') (hop : op.names = some (taskId, n)) :
    id = taskId ∧ t.attemptNo = n ∧ t.status = .running := by
  cases h with
  | bound unbound =>
    obtain ⟨_, hn, hr, _⟩ := bindWhere_iff.mp unbound
    cases hop
    exact ⟨rfl, hn, hr⟩
  | busy unbound | rejected unbound =>
    obtain ⟨_, hn, _, hr, _⟩ := unboundWhere_iff.mp unbound
    cases hop
    exact ⟨rfl, hn, hr⟩
  | saved current =>
    obtain ⟨_, hn, hr, _⟩ := resultWhere_iff.mp current
    cases hop
    exact ⟨rfl, hn, hr⟩
  | settled unbound =>
    obtain ⟨_, _, hn, hr, _⟩ := settleWhere_iff.mp unbound
    cases hop
    exact ⟨rfl, hn, hr⟩
  | retried | canceled => simp [Op.names] at hop

theorem Effect.noWrites_of_stale (h : Effect env w op writes) (hop : op.names = some (taskId, n))
    (hstale : ∀ t, w.db .task taskId = some t → t.attemptNo = n → t.status ≠ .running) :
    writes = noWrites := by
  cases h with
  | quiet => rfl
  | task row h =>
    obtain ⟨rfl, hn, hr⟩ := h.running_of_names hop
    exact absurd hr (hstale _ row hn)
  | round _ h | job _ h => cases h <;> simp [Op.names] at hop
  | _ => simp [Op.names] at hop

/-! ## Closing commits -/

namespace Event

/-- The commit takes attempt `n` of the task out of `running`. -/
def closes (taskId : ℕ) (n : Int) : Event → Bool
  | .commit _ _ before writes => (before .task taskId).any fun t => (writes .task taskId).any fun t' =>
      t.status = .running && t.attemptNo = n && t'.status ≠ .running
  | _ => false

/-- The commit of a stop batch that writes the task. -/
def cancels (taskId : ℕ) : Event → Bool
  | .commit _ (.processBatch _ _) _ writes => (writes .task taskId).isSome
  | _ => false

theorem closes_inv (h : closes taskId n e = true) :
    ∃ pid op before writes t t', e = .commit pid op before writes ∧ before .task taskId = some t ∧
      writes .task taskId = some t' ∧ t.status = .running ∧ t.attemptNo = n ∧
      t'.status ≠ .running := by
  cases e with
  | commit pid op before writes =>
    simp only [closes, Option.any_eq_true, Bool.and_eq_true, decide_eq_true_eq] at h
    obtain ⟨t, ht, t', ht', ⟨hr, hn⟩, hne⟩ := h
    exact ⟨pid, op, before, writes, t, t', rfl, ht, ht', hr, hn, hne⟩
  | _ => simp [closes] at h

theorem cancels_inv (h : cancels taskId e = true) :
    ∃ pid id r before writes t', e = .commit pid (.processBatch id r) before writes ∧
      writes .task taskId = some t' := by
  unfold cancels at h
  split at h
  · obtain ⟨t', ht'⟩ := Option.isSome_iff_exists.mp h
    exact ⟨_, _, _, _, _, t', rfl, ht'⟩
  · simp at h

end Event

theorem Reached.closed (h : Reached env w) (he : e ∈ w.log) (hk : Event.closes taskId n e = true) :
    ∃ t, w.db .task taskId = some t ∧ n ≤ t.attemptNo ∧ (t.attemptNo = n → t.status ≠ .running) := by
  obtain ⟨_, _, _, _, t, t', rfl, ht, ht', _, rfl, hne⟩ := Event.closes_inv hk
  obtain ⟨_, _, rfl, heff, hf⟩ := h.since he
  obtain ⟨_, ht1, hf1⟩ := heff.follows.task taskId t ht
  cases (Store.apply_of_some ht').symm.trans ht1
  obtain ⟨t2, ht2, hf2⟩ := hf.task taskId t' (Store.apply_of_some ht')
  have h1 := hf1.attempt
  have h2 := hf2.attempt
  exact ⟨t2, ht2, h1.trans h2, fun hn hr => hne (hf2.running hr (by omega)).1⟩

theorem Reached.closed_once (h : Reached env w) (taskId : ℕ) (n : Int) :
    w.log.countP (Event.closes taskId n) ≤ 1 := by
  refine Txn.Evolution.once h fun w e h hhap hk e' he' => ?_
  by_contra hk'
  obtain ⟨t, ht, _, hne⟩ := Reached.closed h he' (by simpa using hk')
  obtain ⟨_, _, _, _, _, _, rfl, ht1, _, hr, hn, _⟩ := Event.closes_inv hk
  cases hhap with
  | commit =>
    cases ht.symm.trans ht1
    exact hne hn hr

/-! ## Cancellation -/

theorem Effect.batch_write {r : Option BatchResult} (h : Effect env w (.processBatch id r) writes)
    (hw : writes .task taskId = some t') :
    ∃ t, w.db .task taskId = some t ∧ t.status.unfinished = true ∧ t'.status = .canceled := by
  cases h.task_write hw with
  | new hop => simp at hop
  | old row h =>
    cases h with
    | canceled _ _ _ unfinished => exact ⟨_, row, (cancelWhere_iff.mp unfinished).2, rfl⟩

/-- A task is canceled at most once. -/
theorem Reached.canceled_once (h : Reached env w) (taskId : ℕ) :
    w.log.countP (Event.cancels taskId) ≤ 1 := by
  refine Txn.Evolution.once h fun w e h hhap hk e' he' => ?_
  by_contra hk'
  obtain ⟨_, _, _, _, _, t', rfl, ht'⟩ := Event.cancels_inv (by simpa using hk')
  obtain ⟨_, _, rfl, heff, hf⟩ := Reached.since h he'
  obtain ⟨_, _, _, hc⟩ := heff.batch_write ht'
  -- the canceled row is final, so the later batch does not find it unfinished
  obtain ⟨_, ht1, hf1⟩ := hf.task taskId t' (Store.apply_of_some ht')
  have heq := hf1.final (hc ▸ rfl)
  subst heq
  obtain ⟨_, _, _, _, _, _, rfl, ht2'⟩ := Event.cancels_inv hk
  cases hhap with
  | commit hw _ ok =>
    subst hw
    obtain ⟨_, ht2, hu, _⟩ := ok.1.batch_write ht2'
    cases ht1.symm.trans ht2
    simp [hc, TaskStatus.unfinished] at hu

/--
**An attempt is closed once.** At most one commit takes it out of `running`. Afterwards, and for
every other attempt number, a write that names the attempt changes nothing at all. A task is
canceled at most once, and only while it is unfinished.
-/
theorem attempt_closed_once {ms : List Move} {s : Sys} (hr : run env ms = some s) (taskId : ℕ)
    (n : Int) :
    s.world.log.countP (Event.closes taskId n) ≤ 1 ∧
    (∀ pid op before writes, .commit pid op before writes ∈ s.world.log →
      op.names = some (taskId, n) →
      (∀ t, before .task taskId = some t → t.attemptNo = n → t.status ≠ .running) →
      before.apply writes = before) ∧
    s.world.log.countP (Event.cancels taskId) ≤ 1 ∧
    ∀ pid id r before writes t', .commit pid (.processBatch id r) before writes ∈ s.world.log →
      writes .task taskId = some t' →
      ∃ t, before .task taskId = some t ∧ t.status.unfinished = true ∧ t'.status = .canceled := by
  have h := run_reached hr
  refine ⟨h.closed_once taskId n, ?_, h.canceled_once taskId, ?_⟩
  · intro pid op before writes he hop hstale
    obtain ⟨w₀, _, rfl, heff, _⟩ := h.since he
    rw [heff.noWrites_of_stale hop hstale]
    rfl
  · intro pid id r before writes t' he hw
    obtain ⟨_, _, rfl, heff, _⟩ := h.since he
    exact heff.batch_write hw

theorem demo_busy_closes_once : ∃ s, run Demo.library (Demo.busy ++ Demo.lateBusy) = some s ∧
    s.world.log.countP (fun e => Event.isCommit e && e.pid = 4) = 1 ∧
    s.world.log.countP (Event.closes 1 1) = 1 := by
  obtain ⟨s, hs, hone, _⟩ : ∃ s ∈ run Demo.library (Demo.busy ++ Demo.lateBusy),
      s.world.log.countP (fun e => Event.isCommit e && e.pid = 4) = 1 ∧
        0 < s.world.log.countP (Event.closes 1 1) := by decide +kernel
  obtain ⟨_, _⟩ := attempt_closed_once hs 1 1
  exact ⟨s, hs, hone, by omega⟩

/-! ## Bindings -/

def Together (t : JobTask) : Prop := t.executorInstanceId = none ↔ t.executorAddress = none

theorem TaskUpdate.together (h : TaskUpdate w op id t t') (ht : Together t) : Together t' := by
  cases h with
  | retried => simp [Together, registerSet]
  | bound => simp [Together, bindSet]
  | _ => exact ht

theorem Reached.together (h : Reached env w) (ht : w.db .task id = some t) : Together t := by
  revert t
  refine h.rows (P := fun db => ∀ {t}, db .task id = some t → Together t) (by simp) ?_
  intro w op writes _ heff ih t' ht'
  rcases Store.apply_eq_some ht' with hw | ⟨_, ht'⟩
  · cases heff.task_write hw with
    | new _ _ ht => rw [ht]; simp [Together, ordinaryTask]
    | old row hu => exact hu.together (ih row)
  · exact ih ht'

theorem Effect.bound_inv (h : Effect env w (.bindExecutor b true) writes) :
    ∃ t now, writes .task b.taskId = some (bindSet b now t) ∧ t.attemptNo = b.attemptNo := by
  cases h with
  | quiet h => simp [Op.quiet] at h
  | @task _ _ t _ row h =>
    cases h with
    | @bound _ _ now unbound => exact ⟨t, now, by simp, (bindWhere_iff.mp unbound).2.1⟩
  | round _ h => cases h
  | job _ h => cases h

theorem Reached.bound (h : Reached env w) {pid : ℕ} {before : Db}
    (he : .commit pid (.bindExecutor b true) before writes ∈ w.log) :
    ∃ t, w.db .task b.taskId = some t ∧ b.attemptNo ≤ t.attemptNo ∧
      (t.attemptNo = b.attemptNo → t.executorInstanceId = some b.executorInstanceId ∧
        t.executorAddress = some b.executorAddress) := by
  obtain ⟨_, _, rfl, heff, hf⟩ := h.since he
  obtain ⟨t, _, hw, hn⟩ := heff.bound_inv
  obtain ⟨t', ht', hf⟩ := hf.task _ _ (Store.apply_of_some hw)
  have hle : t.attemptNo ≤ t'.attemptNo := hf.attempt
  exact ⟨t', ht', by omega, fun hsame => hf.bound (hsame.trans hn.symm) rfl⟩

/-- What may change a task that is bound to an executor. -/
theorem TaskUpdate.of_bound {executor : Uuid} (h : TaskUpdate w op id t t')
    (hb : t.executorInstanceId = some executor) :
    (∃ c a, op = .retryOrdinary c (some a) ∧ t.status = .retryWaiting ∧
      a.attemptNo = t.attemptNo + 1) ∨
    (∃ b, op = .saveResult b true ∧ b.executorInstanceId = executor) ∨
    ∃ id r, op = .processBatch id r := by
  cases h with
  | retried _ _ _ _ _ waiting =>
    obtain ⟨_, _, hs, hn, _⟩ := registerWhere_iff.mp waiting
    exact Or.inl ⟨_, _, rfl, hs, hn ▸ rfl⟩
  | bound unbound => simp [(bindWhere_iff.mp unbound).2.2.2.1] at hb
  | busy unbound | rejected unbound => simp [(unboundWhere_iff.mp unbound).2.2.2.2.2.1] at hb
  | saved current =>
    obtain ⟨_, _, _, he | he⟩ := resultWhere_iff.mp current
    · simp [he] at hb
    · rw [he] at hb
      exact Or.inr (Or.inl ⟨_, rfl, Option.some.inj hb⟩)
  | settled unbound => simp [(settleWhere_iff.mp unbound).2.2.2.2.1] at hb
  | canceled => exact Or.inr (Or.inr ⟨_, _, rfl⟩)

/--
**A bound attempt belongs to its executor.** The row keeps a committed binding until the next
attempt is registered, and whatever writes the row of that attempt is this registration, a result
of the same executor, or a stop.
-/
theorem binding_kept {ms : List Move} {s : Sys} (hr : run env ms = some s) {pid : ℕ}
    {b : ExecutorBinding} {before writes : Db} {later earlier : List Event}
    (hlog : s.world.log = later ++ .commit pid (.bindExecutor b true) before writes :: earlier) :
    (∃ t, s.world.db .task b.taskId = some t ∧ b.attemptNo ≤ t.attemptNo ∧
      (t.attemptNo = b.attemptNo → t.executorInstanceId = some b.executorInstanceId ∧
        t.executorAddress = some b.executorAddress)) ∧
    (∀ q op before' writes' t t', .commit q op before' writes' ∈ later →
      before' .task b.taskId = some t → t.attemptNo = b.attemptNo →
      writes' .task b.taskId = some t' →
      (∃ c a, op = .retryOrdinary c (some a) ∧ t.status = .retryWaiting ∧
        a.attemptNo = b.attemptNo + 1) ∨
      (∃ r, op = .saveResult r true ∧ r.executorInstanceId = b.executorInstanceId) ∨
      ∃ id r, op = .processBatch id r) ∧
    ∀ id t, s.world.db .task id = some t →
      (t.executorInstanceId = none ↔ t.executorAddress = none) := by
  have h := run_reached hr
  have hmem : .commit pid (.bindExecutor b true) before writes ∈ s.world.log := by simp [hlog]
  refine ⟨h.bound hmem, ?_, fun id t ht => h.together ht⟩
  intro q op before' writes' t t' he ht hn hw
  obtain ⟨_, _, rfl⟩ := List.append_of_mem he
  rw [List.append_assoc] at hlog
  obtain ⟨l, hl, hearlier, rfl, rfl, heff, _⟩ := h.committed hlog
  -- at the moment of the write the binding was in the history already
  have hmem₀ : .commit pid (.bindExecutor b true) before writes ∈ l.world.log := by simp [hearlier]
  obtain ⟨_, ht₁, _, hbound⟩ := hl.bound hmem₀
  cases ht.symm.trans ht₁
  cases heff.task_write hw with
  | new _ hs => rw [hs.fresh] at ht; simp at ht
  | old row hu =>
    cases ht.symm.trans row
    rw [← hn]
    exact hu.of_bound (hbound hn).1

theorem demo_binding_outlives_busy : ∃ s t, run Demo.library (Demo.bound ++ Demo.lateBusy) = some s ∧
    s.world.db .task 1 = some t ∧ t.attemptNo = 1 ∧
      t.executorInstanceId = some Demo.executor := by
  obtain ⟨s, hs, ⟨t, ht, hn⟩, hk⟩ : ∃ s ∈ run Demo.library (Demo.bound ++ Demo.lateBusy),
      (∃ t ∈ s.world.db .task 1, t.attemptNo = 1) ∧
      s.world.log.any (Event.commits fun op _ => op = .bindExecutor Demo.binding true) = true := by
    decide +kernel
  obtain ⟨_, op, _, _, he, hop⟩ := any_commits.mp hk
  obtain rfl : op = .bindExecutor Demo.binding true := of_decide_eq_true hop
  obtain ⟨_, _, hlog⟩ := List.append_of_mem he
  obtain ⟨⟨t', ht', _, hb⟩, _⟩ := binding_kept hs hlog
  cases ht.symm.trans ht'
  exact ⟨s, t, hs, ht, hn, (hb hn).1⟩

end Dogx.Job
