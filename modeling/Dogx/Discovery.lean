import Dogx.InstanceCheck.Coverage
import Dogx.InstanceStop.Coverage

/-!
# Discovery of unfinished instances

The two traversals of a leader's term, for running and for stopping instances.
-/

namespace Dogx

open Machine Paging

theorem discovery_covers :
    (∀ (cfg : InstanceCheck.RecoveryConfig) ms r, (InstanceCheck.recovery cfg).run ms = some r →
      -- from the step that fixes the bound to a state after the end of the traversal
      (∀ m r₀ ms' r₁ row, (InstanceCheck.recovery cfg).step r m = some r₀ →
        r.position.eligibleBefore = 0 → r₀.position.eligibleBefore ≠ 0 →
        (InstanceCheck.recovery cfg).Along
          (fun s _ _ => row ∈ s.source.eligible r₀.position.eligibleBefore) r₀ ms' r₁ →
        r₁.position.eligibleBefore = 0 →
        ∃ t m t', (InstanceCheck.recovery cfg).StepIn r₀ ms' r₁ t m t' ∧
          InstanceCheck.Accepts row t t') ∧
      r.position.after = r.accepted.getLast? ∧
      (∀ m r', (InstanceCheck.recovery cfg).step r m = some r' → InstanceCheck.Moves r r') ∧
      -- a page read from the position of a candidate that is not accepted
      ∀ c rest (src : InstanceCheck.Source) page, r.phase = .handing (c :: rest) →
        src.listRunningCandidates r.position.eligibleBefore r.position.after cfg.pageSize = some page →
        c ∈ src.eligible r.position.eligibleBefore →
        Toward InstanceCheck.RunningCandidate.place c page ∧ page ≠ []) ∧
    ∀ (cfg : InstanceStop.RecoveryConfig) ms r, (InstanceStop.recovery cfg).run ms = some r →
      (∀ m r₀ ms' r₁ row, (InstanceStop.recovery cfg).step r m = some r₀ →
        r.position.upper = 0 → r₀.position.upper ≠ 0 →
        (InstanceStop.recovery cfg).Along
          (fun s _ _ => row ∈ s.source.eligible r₀.position.upper) r₀ ms' r₁ →
        r₁.position.upper = 0 →
        ∃ t m t', (InstanceStop.recovery cfg).StepIn r₀ ms' r₁ t m t' ∧
          InstanceStop.Accepts row t t') ∧
      r.position.after = r.accepted.getLast?.getD 0 ∧
      (∀ m r', (InstanceStop.recovery cfg).step r m = some r' → InstanceStop.Moves r r') ∧
      ∀ id rest (src : InstanceStop.Source) page, r.phase = .handing (id :: rest) →
        src.listStoppingCandidates r.position.after r.position.upper cfg.pageSize = some page →
        id ∈ src.eligible r.position.upper → Toward InstanceStop.place id page ∧ page ≠ [] := by
  constructor
  · intro cfg ms r h
    have hplaced := (InstanceCheck.placed cfg).run h
    refine ⟨fun m r₀ ms' r₁ row => InstanceCheck.covers h, hplaced.last, fun m r' hm => ?_,
      fun c rest src page => hplaced.resumes⟩
    obtain ⟨_, hc⟩ := InstanceCheck.Change.of_step hm
    exact hc.moves hplaced.traversal
  · intro cfg ms r h
    have hplaced := (InstanceStop.placed cfg).run h
    refine ⟨fun m r₀ ms' r₁ row => InstanceStop.covers h, hplaced.last, fun m r' hm => ?_,
      fun id rest src page => hplaced.resumes⟩
    obtain ⟨_, hc⟩ := InstanceStop.Change.of_step hm
    exact hc.moves hplaced.traversal

/-! ## A traversal with a pass that ends early -/

def demoChecks : InstanceCheck.RecoveryConfig :=
  { queue := { capacity := 8, concurrency := 1, capacity_pos := by decide, concurrency_pos := Nat.one_pos }
    pageSize := 2, minAge := 1, pageSize_pos := Nat.two_pos, minAge_pos := Int.one_pos }

def demoRunning : InstanceCheck.Source :=
  { running := [{ id := 1, startedAt := 5 }, { id := 2, startedAt := 6 }]
    ordered := by unfold Ordered; decide }

def demoBound : List InstanceCheck.Move :=
  [.change demoRunning, .queue .start, .pass, .capacity 0 false, .sample 10]

/-- The budget of the first pass ends after one hint. -/
def demoPasses : List InstanceCheck.Move :=
  [.sample 0, .answer true, .hint 0 false, .hint 0 true, .pass, .capacity 0 false, .sample 0,
    .answer true, .hint 0 false, .capacity 0 false, .sample 0, .answer true]

def demoStops : InstanceStop.RecoveryConfig :=
  { queue := { capacity := 1, concurrency := 1, runTimeout := 1, maxBatches := 1, capacity_pos := Nat.one_pos,
               concurrency_pos := Nat.one_pos, runTimeout_pos := Int.one_pos, maxBatches_pos := Nat.one_pos }
    pageSize := 2, pageSize_pos := Nat.two_pos }

def demoStopping : InstanceStop.Source :=
  { stopping := [1, 2], ordered := by unfold Ordered; decide, positive := by decide }

def demoUpper : List InstanceStop.Move := [.change demoStopping, .queue .start, .pass, .sample]

/-- The queue is full after one hint, until its worker has taken a turn. -/
def demoRefused : List InstanceStop.Move :=
  [.sample, .answer true, .hint false, .hint false, .queue (.take 0 0), .queue (.batch 0 false),
    .queue (.processed 0 0 (some false)), .queue (.complete 0), .pass, .sample, .answer true, .hint false]

theorem demo_passes : (∃ r₀ r₁ t m t', r₀.position.eligibleBefore = 9 ∧
      r₁.position.eligibleBefore = 0 ∧
      (InstanceCheck.recovery demoChecks).StepIn r₀ demoPasses r₁ t m t' ∧
      InstanceCheck.Accepts { id := 2, startedAt := 6 } t t') ∧
    ∃ r₀ r₁ t m t', r₀.position.upper = 2 ∧ r₁.position.upper = 0 ∧
      (InstanceStop.recovery demoStops).StepIn r₀ demoRefused r₁ t m t' ∧
      InstanceStop.Accepts 2 t t' := by
  constructor
  · obtain ⟨r, hr, hunset, r₀, hm, hnine, r₁, hcheck, hend⟩ :
        ∃ r ∈ (InstanceCheck.recovery demoChecks).run demoBound, r.position.eligibleBefore = 0 ∧
        ∃ r₀ ∈ (InstanceCheck.recovery demoChecks).step r (.answer true),
          r₀.position.eligibleBefore = 9 ∧
          ∃ r₁ ∈ Along.check (InstanceCheck.recovery demoChecks) (fun s _ _ =>
            decide ({ id := 2, startedAt := 6 } ∈ s.source.eligible 9)) r₀ demoPasses,
            r₁.position.eligibleBefore = 0 := by decide +kernel
    obtain ⟨t, m, t', hstep, hdone⟩ := (discovery_covers.1 demoChecks demoBound r hr).1 _ r₀ demoPasses
      r₁ { id := 2, startedAt := 6 } hm hunset (by rw [hnine]; decide)
      (.of_check hcheck fun _ _ _ htest => by rw [hnine]; exact of_decide_eq_true htest) hend
    exact ⟨r₀, r₁, t, m, t', hnine, hend, hstep, hdone⟩
  · obtain ⟨r, hr, hunset, r₀, hm, htwo, r₁, hcheck, hend⟩ :
        ∃ r ∈ (InstanceStop.recovery demoStops).run demoUpper, r.position.upper = 0 ∧
        ∃ r₀ ∈ (InstanceStop.recovery demoStops).step r (.answer true), r₀.position.upper = 2 ∧
          ∃ r₁ ∈ Along.check (InstanceStop.recovery demoStops)
            (fun s _ _ => decide (2 ∈ s.source.eligible 2)) r₀ demoRefused,
            r₁.position.upper = 0 := by decide +kernel
    obtain ⟨t, m, t', hstep, hdone⟩ := (discovery_covers.2 demoStops demoUpper r hr).1 _ r₀ demoRefused
      r₁ 2 hm hunset (by rw [htwo]; decide)
      (.of_check hcheck fun _ _ _ htest => by rw [htwo]; exact of_decide_eq_true htest) hend
    exact ⟨r₀, r₁, t, m, t', htwo, hend, hstep, hdone⟩

end Dogx
