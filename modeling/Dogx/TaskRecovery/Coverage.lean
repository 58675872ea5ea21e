import Dogx.TaskRecovery.Runtime
import Dogx.TaskRecovery.Settler

/-!
# No unbound task is passed over

The cursor of a traversal is the position of the last candidate that was processed. A task that stays
eligible is ahead of the cursor until a batch processes it.
-/

namespace Dogx.TaskRecovery

open Job (UnboundCandidate UnboundTarget)
open Job.Settler (maxBatchSize)
open Machine Paging

variable {cfg : Config} {r r' : Runtime} {t : Traversal} {c : UnboundCandidate}
  {page cs done rest : List UnboundCandidate} {full : Bool} {m : Move}

/-- The batch returns, and the candidate is among those it has processed. -/
structure Processes (c : UnboundCandidate) (r : Runtime) (m : Move) : Prop where
  batch : ∃ full left result ok, r.phase = .settling full left ∧ m = .settled result ok ∧
    result.valid ok (left.take maxBatchSize).length = true ∧
    c ∈ (left.take maxBatchSize).take result.processed.toNat

theorem BatchResult.toNat_le (result : BatchResult) {ok : Bool} {n : ℕ} (h : result.valid ok n = true) :
    result.processed.toNat ≤ n := by
  simp only [valid, Bool.not_eq_true', Bool.or_eq_false_iff, decide_eq_false_iff_not] at h
  omega

/-! ## The traversal -/

/-- The rows in hand are a page that has been read, or what is left of it. -/
def Phase.stage (cfg : Config) : Phase → Stage UnboundCandidate
  | .timing _ => .bounding
  | .listing (some page) => .hand page !decide (cfg.pageSize ≤ page.length)
  | .settling full left => .hand left !full
  | _ => .resting

def plan : Plan (ℤ × ℤ) UnboundCandidate (ℕ ×ₗ ℕ) :=
  { position := place, unset := (·.1 = 0), start := none }

def Runtime.view (cfg : Config) (r : Runtime) : Paging.Traversal (ℤ × ℤ) UnboundCandidate (ℕ ×ₗ ℕ) :=
  { bound := (r.traversal.scanNow, r.traversal.cutoff)
    cursor := r.traversal.cursor.map UnboundCursor.place
    stage := r.phase.stage cfg }

def Source.rowsIn (src : Source) (bound : ℤ × ℤ) : List UnboundCandidate :=
  src.eligible bound.1 bound.2

theorem Source.rowsIn_ordered (src : Source) (bound : ℤ × ℤ) : Ordered place (src.rowsIn bound) :=
  List.pairwise_map.mpr (src.ordered.filter _)

theorem Source.page_of_list {src : Source} {limit : ℕ} (h : src.listUnboundCandidates t limit = some page) :
    t.scanNow ≠ 0 ∧ page = Paging.page place (t.cursor.map UnboundCursor.place) limit
      (src.rowsIn (t.scanNow, t.cutoff)) := by
  obtain ⟨hbounds, h⟩ := Option.ite_none_left_eq_some.mp h
  exact ⟨fun hzero => hbounds (.inl hzero), (Option.some.inj h).symm⟩

/-- A step of the discovery: the step of its traversal, with the candidates it is done with, and what it
does to the saved traversal. -/
structure Change (cfg : Config) (r : Runtime) (m : Move) (r' : Runtime) (done : List UnboundCandidate) :
    Prop where
  step : plan.Step r.source.rowsIn (r.view cfg) done (r'.view cfg)
  processes : ∀ c ∈ done, Processes c r m
  fixed : plan.Placed (r.view cfg) → r.traversal.scanNow ≠ 0 → r'.traversal = .zero ∨
    r'.traversal.scanNow = r.traversal.scanNow ∧ r'.traversal.cutoff = r.traversal.cutoff
  last : r.traversal.cursor = r.processed.getLast?.map cursorOf →
    r'.traversal.cursor = r'.processed.getLast?.map cursorOf

theorem Change.quiet (h : plan.Step r.source.rowsIn (r.view cfg) [] (r'.view cfg))
    (htraversal : r'.traversal = r.traversal) (hprocessed : r'.processed = r.processed) :
    Change cfg r m r' [] := by
  refine ⟨h, nofun, fun _ _ => .inr ⟨?_, ?_⟩, fun hlast => ?_⟩
  · rw [htraversal]
  · rw [htraversal]
  · rw [htraversal, hprocessed, hlast]

theorem Change.advanced {phase : Phase} (hstage : r.phase.stage cfg = .hand (done ++ rest) !full)
    (hprocesses : ∀ c ∈ done, Processes c r m)
    (hphase : phase.stage cfg = .resting ∨ phase.stage cfg = .hand rest !full) :
    Change cfg r m { r.advance done with phase } done := by
  refine ⟨?_, hprocesses, fun _ _ => .inr ⟨rfl, rfl⟩, fun hlast => ?_⟩
  · have hstep : plan.Step r.source.rowsIn (r.view cfg) done _ :=
      .hands done rest _ (phase.stage cfg) hstage (hphase.imp_right fun h => ⟨_, h, id⟩)
    simp only [Runtime.view, Runtime.advance, Option.map_or, Option.map_map]
    exact hstep
  · change (done.getLast?.map cursorOf).or r.traversal.cursor = (r.processed ++ done).getLast?.map cursorOf
    rw [hlast, List.getLast?_append, Option.map_or]

theorem Change.next (hstage : r.phase.stage cfg = .hand (done ++ rest) !full)
    (hprocesses : ∀ c ∈ done, Processes c r m) :
    Change cfg r m ((r.advance done).next full rest) done := by
  unfold Runtime.next
  split
  · split
    · exact .advanced hstage hprocesses (.inl rfl)
    · next hfull =>
      rw [List.append_nil] at hstage
      refine ⟨.ends done _ (0, 0) hstage (.inl ?_) rfl, hprocesses, fun _ _ => .inl rfl, fun _ => rfl⟩
      simpa using hfull
  · exact .advanced hstage hprocesses (.inr rfl)

/-- Every step is a step of the traversal. -/
theorem Change.of_step (h : r.step cfg m = some r') : ∃ done, Change cfg r m r' done := by
  cases m with
  | change =>
    cases h
    exact ⟨[], .quiet .stays rfl rfl⟩
  | run =>
    dsimp only [Runtime.step] at h
    split at h <;> cases h
    split
    · exact ⟨[], .quiet (.starts (.inl ‹_›)) rfl rfl⟩
    · exact ⟨[], .quiet .rests rfl rfl⟩
  | sample now =>
    dsimp only [Runtime.step] at h
    split at h <;> cases h
    · next hphase => exact ⟨[], .quiet (.starts (.inr (congrArg (Phase.stage cfg) hphase))) rfl rfl⟩
    · generalize hread : Source.listUnboundCandidates .. = read
      cases read with
      | none => exact ⟨[], .quiet .rests rfl rfl⟩
      | some =>
        obtain ⟨hset, rfl⟩ := Source.page_of_list hread
        refine ⟨[], .quiet (.reads cfg.pageSize cfg.pageSize_pos hset _ fun hshort => ?_) rfl rfl⟩
        exact Nat.not_le.mp (of_decide_eq_false (Bool.not_eq_true' _ ▸ hshort))
  | answer =>
    dsimp only [Runtime.step] at h
    split at h <;> cases h
    · next hphase =>
      have hstage : r.phase.stage cfg = .bounding := congrArg (Phase.stage cfg) hphase
      unfold Runtime.receiveTime
      dsimp only
      split
      · exact ⟨[], .quiet .rests rfl rfl⟩
      · exact ⟨[], .bounds _ hstage, nofun, fun hp hset => absurd (hp.bounding hstage) hset, id⟩
    · next page hphase =>
      unfold Runtime.receivePage
      split
      · exact ⟨[], .quiet .rests rfl rfl⟩
      · have hnext : Change cfg r (.answer true) ((r.advance []).next (cfg.pageSize ≤ page.length) page) [] :=
          .next (congrArg (Phase.stage cfg) hphase) nofun
        simp only [Runtime.advance, List.append_nil] at hnext
        exact ⟨[], hnext⟩
    · exact ⟨[], .quiet .rests rfl rfl⟩
    · exact ⟨[], .quiet .rests rfl rfl⟩
  | expire =>
    dsimp only [Runtime.step] at h
    split at h <;> cases h
    exact ⟨[], .quiet .rests rfl rfl⟩
  | settled result ok =>
    dsimp only [Runtime.step] at h
    split at h <;> cases h
    next full left hphase =>
    unfold Runtime.receiveBatch
    dsimp only
    split
    · exact ⟨[], .quiet .rests rfl rfl⟩
    next hvalid =>
    have hvalid : result.valid ok (left.take maxBatchSize).length = true := by simpa using hvalid
    have hdone : (left.take maxBatchSize).take result.processed.toNat ++ left.drop result.processed.toNat =
        left := by
      rw [List.take_take, Nat.min_eq_left, List.take_append_drop]
      exact Nat.le_trans (result.toNat_le hvalid) (List.length_take_le _ _)
    have hstage : r.phase.stage cfg = .hand ((left.take maxBatchSize).take result.processed.toNat ++
        left.drop result.processed.toNat) !full := by
      rw [hdone, hphase]
      rfl
    have hprocesses : ∀ c ∈ (left.take maxBatchSize).take result.processed.toNat,
        Processes c r (.settled result ok) := fun c hc => ⟨full, left, result, ok, hphase, rfl, hvalid, hc⟩
    split
    · exact ⟨_, .advanced hstage hprocesses (.inl rfl)⟩
    · exact ⟨_, .next hstage hprocesses⟩

theorem traverses (cfg : Config) : Traverses plan (recovery cfg) (Runtime.view cfg)
    (fun r => r.source.rowsIn) fun c r m _ => Processes c r m where
  ordered := fun r => r.source.rowsIn_ordered
  init := ⟨fun _ => rfl, nofun, nofun⟩
  step := fun r m r' hm => by
    obtain ⟨done, hc⟩ := Change.of_step hm
    exact ⟨done, hc.step, hc.processes⟩

structure Placed (cfg : Config) (r : Runtime) : Prop where
  view : plan.Placed (r.view cfg)
  last : r.traversal.cursor = r.processed.getLast?.map cursorOf

theorem placed (cfg : Config) : (recovery cfg).Invariant (Placed cfg) where
  init := ⟨(traverses cfg).init, rfl⟩
  step := fun _ m _ h hm => by
    obtain ⟨_, hc⟩ := Change.of_step (m := m) hm
    exact ⟨(traverses cfg).placed.step h.view hm, hc.last h.last⟩

/-! ## Whole traversals -/

/-- From the step that fixes the scan time on: a candidate that stays eligible is ahead of the cursor, or a
batch has processed it on the way. -/
theorem covers {ms ms' : List Move} {r0 r1 : Runtime} (h : (recovery cfg).run ms = some r)
    (hm : (recovery cfg).step r m = some r0) (hunset : r.traversal.scanNow = 0)
    (hset : r0.traversal.scanNow ≠ 0) (halong : (recovery cfg).Along
      (fun s _ _ => c ∈ s.source.eligible r0.traversal.scanNow r0.traversal.cutoff) r0 ms' r1) :
    (r1.traversal.scanNow = r0.traversal.scanNow ∧ r1.traversal.cutoff = r0.traversal.cutoff ∧
      ∀ cursor, r1.traversal.cursor = some cursor → cursor.place < place c) ∨
    ∃ t m t', (recovery cfg).StepIn r0 ms' r1 t m t' ∧ Processes c t m := by
  refine ((traverses cfg).covers h hm hunset hset nofun halong).imp_left fun hahead => ?_
  obtain ⟨hscan, hcutoff⟩ := Prod.mk.inj hahead.bound
  exact ⟨hscan, hcutoff, fun cursor hcursor => hahead.behind _ (congrArg (Option.map _) hcursor)⟩

/-- A result of `SettleBatch` passes the check of the runtime. -/
theorem Prefix.valid {period : ℕ} {told : List (Txn.Told Job.sig)} {result : Job.SettleResult}
    {err : Option Job.Err} (h : Prefix period cs told result err) :
    (BatchResult.mk result.processed result.applied).valid err.isNone cs.length = true := by
  have happlied := h.applied
  have hprocessed := h.processed
  have hall := h.all
  simp only [BatchResult.valid, Bool.not_eq_true', Bool.or_eq_false_iff, decide_eq_false_iff_not,
    Bool.and_eq_false_iff]
  refine ⟨⟨⟨⟨by omega, by omega⟩, by omega⟩, by omega⟩, ?_⟩
  cases err with
  | none => exact .inr (by have := hall rfl; simp; omega)
  | some => exact .inl rfl

/-- A batch returns a result for a prefix of its candidates, each of them judged and, if eligible,
settled by one attempt. In every run the cursor is the position of the last candidate processed,
and a candidate that stays eligible is ahead of it until a batch processes it. -/
theorem recovery_covers :
    (∀ period cs told result err, 0 < period →
      (Job.Settler.settleBatch period cs).Returns told (result, err) →
      Prefix period cs told result err ∧
        (BatchResult.mk result.processed result.applied).valid err.isNone cs.length = true) ∧
    ∀ (cfg : Config) ms r, (recovery cfg).run ms = some r →
      r.traversal.cursor = r.processed.getLast?.map cursorOf ∧
      (∀ m r', (recovery cfg).step r m = some r' → r.traversal.scanNow ≠ 0 → r'.traversal = .zero ∨
        r'.traversal.scanNow = r.traversal.scanNow ∧ r'.traversal.cutoff = r.traversal.cutoff) ∧
      -- from the step that fixes the scan time on
      ∀ m r₀ ms' r₁ c, (recovery cfg).step r m = some r₀ →
        r.traversal.scanNow = 0 → r₀.traversal.scanNow ≠ 0 →
        (recovery cfg).Along
          (fun s _ _ => c ∈ s.source.eligible r₀.traversal.scanNow r₀.traversal.cutoff) r₀ ms' r₁ →
        (r₁.traversal.scanNow = r₀.traversal.scanNow ∧ r₁.traversal.cutoff = r₀.traversal.cutoff ∧
          ∀ cursor, r₁.traversal.cursor = some cursor → cursor.place < place c) ∨
        ∃ t m t', (recovery cfg).StepIn r₀ ms' r₁ t m t' ∧ Processes c t m := by
  refine ⟨fun period cs told result err hperiod h => ?_, fun cfg ms r h => ?_⟩
  · have hpre := (settleBatch_tells hperiod).returns h
    exact ⟨hpre, hpre.valid⟩
  · have hplaced := (placed cfg).run h
    refine ⟨hplaced.last, fun m r' hm hset => ?_, fun m r₀ ms' r₁ c => covers h⟩
    obtain ⟨_, hc⟩ := Change.of_step hm
    exact hc.fixed hplaced.view hset

/-! ## A traversal with a batch that fails -/

deriving instance DecidableEq for Job.UnboundCandidate

namespace Demo

def target (taskId registeredAt : ℕ) : UnboundTarget where
  taskId := taskId
  instanceId := 1
  attemptNo := 1
  taskType := .ordinary
  status := .running
  executorInstanceId := none
  executorAddress := none
  attemptRegisteredAt := some registeredAt
  instanceStatus := .running
  startedAt := some 5
  deadlineAt := some 1000
  executionConfig :=
    { schemaVersion := 1, processorName := "p", executionMode := .normal, postEnabled := false, params := ""
      maxRetries := 2, retryIntervalSeconds := 1, timeoutSeconds := 60 }

def settings : Config :=
  { pageSize := 2, observationPeriod := 30, pageSize_pos := Nat.two_pos, observationPeriod_pos := by decide }

def source : Source :=
  { rows := [target 7 10, target 3 20, target 5 20], ordered := by unfold Ordered; decide }

def begin : List Move := [.change source, .run, .sample 100]

/-- The first batch fails after one candidate, and the next run goes on behind it. -/
def runs : List Move :=
  [.sample 0, .answer true, .settled ⟨1, 0⟩ false, .run, .sample 0, .answer true, .settled ⟨2, 1⟩ true,
    .sample 0, .answer true]

def last : UnboundCandidate := candidateOf (target 5 20)

/-- The first of two candidates is settled, with an unknown outcome. -/
def batch : List UnboundCandidate := [candidateOf (target 7 10), last]

end Demo

theorem demo_recovered :
    (∃ told, (Job.Settler.settleBatch 30 Demo.batch).Returns told
        ({ processed := 1, applied := 0 }, some Job.expired) ∧ (told.filter Txn.Told.opens).length = 1 ∧
      Prefix 30 Demo.batch told { processed := 1, applied := 0 } (some Job.expired)) ∧
    ∃ r₀ r₁ t m t', r₀.traversal.scanNow = 100 ∧ r₁.traversal.scanNow = 0 ∧
      (recovery Demo.settings).StepIn r₀ Demo.runs r₁ t m t' ∧ Processes Demo.last t m := by
  constructor
  · have answered := @Txn.Proc.After.act Job.sig (Job.SettleResult × Option Job.Err) .expired
    obtain ⟨told, h, hone⟩ : ∃ told, (Job.Settler.settleBatch 30 Demo.batch).Returns told
        ({ processed := 1, applied := 0 }, some Job.expired) ∧
        (told.filter Txn.Told.opens).length = 1 := by
      -- the clock and the targets are read, then the first candidate is settled
      exact ⟨_, answered false (.read (.ok 100) (answered false (.read (.ok [Demo.target 7 10])
        (answered false (answered false (answered false (.transact (.error Job.expired)
        (answered true (.here _))))))))), rfl⟩
    exact ⟨told, h, hone, (recovery_covers.1 30 Demo.batch _ _ _ (by decide) h).1⟩
  · obtain ⟨r, hr, hunset, r₀, hm, hscan, hcutoff, r₁, hcheck, hend⟩ :
        ∃ r ∈ (recovery Demo.settings).run Demo.begin, r.traversal.scanNow = 0 ∧
        ∃ r₀ ∈ (recovery Demo.settings).step r (.answer true),
          r₀.traversal.scanNow = 100 ∧ r₀.traversal.cutoff = 70 ∧
          ∃ r₁ ∈ Along.check (recovery Demo.settings)
            (fun s _ _ => decide (Demo.last ∈ s.source.eligible 100 70)) r₀ Demo.runs,
            r₁.traversal.scanNow = 0 := by decide +kernel
    have hcovers := (recovery_covers.2 Demo.settings Demo.begin r hr).2.2 _ r₀ Demo.runs r₁ Demo.last hm
      hunset (by rw [hscan]; decide)
      (.of_check hcheck fun _ _ _ htest => by rw [hscan, hcutoff]; exact of_decide_eq_true htest)
    rcases hcovers with ⟨hsame, -⟩ | ⟨t, m, t', hstep, hdone⟩
    · rw [hend, hscan] at hsame
      cases hsame
    · exact ⟨r₀, r₁, t, m, t', hscan, hend, hstep, hdone⟩

end Dogx.TaskRecovery
