import Dogx.LoginProtection.Lock
import Dogx.Machine.Pool

/-!
# The lazy configuration runtime

Calls of `Current` find the snapshot or share a load on demand; calls of `Reload` load under the same
mutex, and a failure clears the snapshot. The flight of on-demand loads stays in the table for some
time after its function has returned, and who comes in that time shares the old result.

A snapshot remembers when its load finished, and a call of `Current` the latest beginning of a `Reload`
that had returned before the call began.
-/

namespace Dogx.LoginProtection

open Machine

structure Snapshot where
  cfg : LoginSecurityConfig
  loaded : ℕ

inductive Flight where
  | queued
  | locked
  | loading
  | done (result : Option Snapshot)

def Flight.isDone : Flight → Bool
  | done _ => true
  | _ => false

inductive Call where
  | idle
  | begun (floor : ℕ)
  | missed (floor : ℕ)
  | joined (floor : ℕ)
  | returned (floor : ℕ) (result : Option Snapshot)

inductive Reload where
  | idle
  | waiting (began : ℕ)
  | loading (began : ℕ)

def Call.deliver (result : Option Snapshot) : Call → Call
  | joined floor => returned floor result
  | call => call

structure Runtime where
  now : ℕ := 0
  value : Option Snapshot := none
  mu : Bool := false
  flight : Option Flight := none
  calls : ℕ → Call := fun _ => .idle
  reloads : ℕ → Reload := fun _ => .idle
  /-- The latest beginning of a `Reload` that has returned. -/
  floor : ℕ := 0

inductive Move where
  | begin (i : ℕ)
  | look (i : ℕ)
  /-- `DoChan`. -/
  | ask (i : ℕ)
  | cancel (i : ℕ)
  | lock
  /-- The function of the flight looks at the snapshot, and at the time of the next attempt. -/
  | check (early : Bool)
  | load (result : Option LoginSecurityConfig)
  /-- The group removes the key and sends the result. -/
  | deliver
  | reload (i : ℕ)
  | reloadLock (i : ℕ)
  | reloaded (i : ℕ) (result : Option LoginSecurityConfig)

namespace Runtime

def setCall (r : Runtime) (i : ℕ) (call : Call) : Runtime :=
  { r with calls := Function.update r.calls i call }

/-- `reloadLocked`, at its end. -/
def store (r : Runtime) (result : Option LoginSecurityConfig) : Runtime :=
  { r with mu := false, value := (result.filter fun cfg => validate cfg).map (⟨·, r.now⟩) }

def step (r : Runtime) : Move → Option Runtime
  | .begin i =>
    match r.calls i with
    | .idle => some (r.setCall i (.begun r.floor))
    | _ => none
  | .look i =>
    match r.calls i with
    | .begun floor =>
      some (r.setCall i (if r.value.isSome then .returned floor r.value else .missed floor))
    | _ => none
  | .ask i =>
    match r.calls i with
    | .missed floor => some { r.setCall i (.joined floor) with flight := r.flight <|> some .queued }
    | _ => none
  | .cancel i =>
    match r.calls i with
    | .begun floor | .joined floor => some (r.setCall i (.returned floor none))
    | _ => none
  | .lock =>
    match r.flight, r.mu with
    | some .queued, false => some { r with mu := true, flight := some .locked }
    | _, _ => none
  | .check early =>
    match r.flight with
    | some .locked =>
      some (if r.value.isSome || early then { r with mu := false, flight := some (.done r.value) }
        else { r with flight := some .loading })
    | _ => none
  | .load result =>
    match r.flight with
    | some .loading =>
      let r := r.store result
      some { r with flight := some (.done r.value) }
    | _ => none
  | .deliver =>
    match r.flight with
    | some (.done result) =>
      some { r with flight := none, calls := fun i => (r.calls i).deliver result }
    | _ => none
  | .reload i =>
    match r.reloads i with
    | .idle => some { r with reloads := Function.update r.reloads i (.waiting r.now) }
    | _ => none
  | .reloadLock i =>
    match r.reloads i, r.mu with
    | .waiting began, false =>
      some { r with mu := true, reloads := Function.update r.reloads i (.loading began) }
    | _, _ => none
  | .reloaded i result =>
    match r.reloads i with
    | .loading began =>
      some { r.store result with
        reloads := Function.update r.reloads i .idle, floor := max r.floor began }
    | _ => none

end Runtime

/-- Every step takes some time. -/
def runtime : Machine Runtime Move where
  init := {}
  step r m := (r.step m).map fun r' => { r' with now := r.now + 1 }

/-- No call joins a flight whose function has returned. -/
def timely (r : Runtime) : Move → Bool
  | .ask _ => !r.flight.any Flight.isDone
  | _ => true

variable {r r' : Runtime} {m : Move} {i floor : ℕ}

/-- What a call returns, or will get from its flight, is not older than it may be. -/
def Call.Fresh (floor : ℕ) (flight : Option Flight) : Call → Prop
  | idle => True
  | begun f | missed f => f ≤ floor
  | joined f => f ≤ floor ∧ ∀ x, flight = some (.done (some x)) → f ≤ x.loaded
  | returned f result => ∀ x, result = some x → f ≤ x.loaded

structure Fresh (r : Runtime) : Prop where
  value : ∀ x, r.value = some x → r.floor ≤ x.loaded
  floor : r.floor ≤ r.now
  waiting : ∀ i began, r.reloads i = .waiting began → began ≤ r.now
  loading : ∀ i began, r.reloads i = .loading began → began ≤ r.now
  calls : ∀ i, (r.calls i).Fresh r.floor r.flight

namespace Fresh

variable (h : Fresh r)
include h

theorem tick : Fresh { r with now := r.now + 1 } :=
  ⟨h.value, Nat.le_succ_of_le h.floor, fun i b hb => Nat.le_succ_of_le (h.waiting i b hb),
    fun i b hb => Nat.le_succ_of_le (h.loading i b hb), h.calls⟩

theorem setCall {call : Call} (hc : call.Fresh r.floor r.flight) : Fresh (r.setCall i call) :=
  ⟨h.value, h.floor, h.waiting, h.loading, (Function.forall_update_iff r.calls
    fun _ c => c.Fresh r.floor r.flight).mpr ⟨hc, fun j _ => h.calls j⟩⟩

theorem setFlight {mu : Bool} {flight : Option Flight}
    (hf : ∀ x, flight = some (.done (some x)) → r.value = some x) : Fresh { r with mu, flight } :=
  ⟨h.value, h.floor, h.waiting, h.loading, fun i => by
    have hi := h.calls i
    cases hc : r.calls i with
    | joined =>
      rw [hc] at hi
      exact ⟨hi.1, fun x hx => Nat.le_trans hi.1 (h.value x (hf x hx))⟩
    | _ =>
      rw [hc] at hi
      exact hi⟩

theorem setReload {mu : Bool} {reload : Reload}
    (hw : ∀ began, reload = .waiting began → began ≤ r.now)
    (hl : ∀ began, reload = .loading began → began ≤ r.now) :
    Fresh { r with mu, reloads := Function.update r.reloads i reload } :=
  ⟨h.value, h.floor, (Function.forall_update_iff r.reloads fun _ reload =>
      ∀ began, reload = .waiting began → began ≤ r.now).mpr ⟨hw, fun j _ => h.waiting j⟩,
    (Function.forall_update_iff r.reloads fun _ reload =>
      ∀ began, reload = .loading began → began ≤ r.now).mpr ⟨hl, fun j _ => h.loading j⟩, h.calls⟩

theorem store {result : Option LoginSecurityConfig} (hle : r.floor ≤ floor) (hnow : floor ≤ r.now) :
    Fresh { r.store result with floor } := by
  refine ⟨fun x hx => ?_, hnow, h.waiting, h.loading, fun i => ?_⟩
  · obtain ⟨_, -, rfl⟩ := Option.map_eq_some_iff.mp hx
    exact hnow
  · have hi := h.calls i
    show (r.calls i).Fresh floor r.flight
    cases hc : r.calls i with
    | begun | missed =>
      rw [hc] at hi
      exact Nat.le_trans hi hle
    | joined =>
      rw [hc] at hi
      exact ⟨Nat.le_trans hi.1 hle, hi.2⟩
    | _ =>
      rw [hc] at hi
      exact hi

/-- One timely step keeps every value fresh. -/
theorem step (hm : r.step m = some r') (ht : timely r m = true) : Fresh r' ∧ r'.now = r.now := by
  cases m with
  | begin =>
    simp only [Runtime.step] at hm
    split at hm <;> cases hm
    exact ⟨h.setCall (Nat.le_refl r.floor), rfl⟩
  | look i =>
    simp only [Runtime.step] at hm
    split at hm <;> cases hm
    next floor hc =>
    have hf := h.calls i
    rw [hc] at hf
    refine ⟨h.setCall ?_, rfl⟩
    split
    · exact fun x hx => Nat.le_trans hf (h.value x hx)
    · exact hf
  | ask i =>
    simp only [Runtime.step] at hm
    split at hm <;> cases hm
    next floor hc =>
    have hf := h.calls i
    rw [hc] at hf
    have ht : ∀ result, r.flight ≠ some (.done result) := by
      intro result hflight
      simp [timely, hflight, Flight.isDone] at ht
    have hjoin : (Call.joined floor).Fresh r.floor r.flight := ⟨hf, fun x hx => absurd hx (ht _)⟩
    refine ⟨(h.setCall hjoin).setFlight fun x hx => ?_, rfl⟩
    cases hflight : r.flight with
    | none => simp [hflight] at hx
    | some => exact absurd (by simpa [hflight] using hx) (ht (some x))
  | cancel =>
    simp only [Runtime.step] at hm
    split at hm <;> cases hm <;> exact ⟨h.setCall nofun, rfl⟩
  | lock =>
    simp only [Runtime.step] at hm
    split at hm <;> cases hm
    exact ⟨h.setFlight nofun, rfl⟩
  | check =>
    simp only [Runtime.step] at hm
    split at hm <;> cases hm
    split
    · exact ⟨h.setFlight fun x hx => by simpa using hx, rfl⟩
    · exact ⟨h.setFlight nofun, rfl⟩
  | load =>
    simp only [Runtime.step] at hm
    split at hm <;> cases hm
    exact ⟨(h.store (Nat.le_refl _) h.floor).setFlight fun x hx => by simpa using hx, rfl⟩
  | deliver =>
    simp only [Runtime.step] at hm
    split at hm <;> cases hm
    next result hflight =>
    refine ⟨⟨h.value, h.floor, h.waiting, h.loading, fun i => ?_⟩, rfl⟩
    have hi := h.calls i
    show ((r.calls i).deliver result).Fresh r.floor none
    cases hc : r.calls i with
    | joined =>
      rw [hc] at hi
      exact fun x hx => hi.2 x (hx ▸ hflight)
    | _ =>
      rw [hc] at hi
      exact hi
  | reload =>
    simp only [Runtime.step] at hm
    split at hm <;> cases hm
    exact ⟨h.setReload (by rintro _ ⟨⟩; exact Nat.le_refl _) nofun, rfl⟩
  | reloadLock i =>
    simp only [Runtime.step] at hm
    split at hm <;> cases hm
    next began hr _ => exact ⟨h.setReload nofun (by rintro _ ⟨⟩; exact h.waiting i _ hr), rfl⟩
  | reloaded i =>
    simp only [Runtime.step] at hm
    split at hm <;> cases hm
    next began hr =>
    exact ⟨(h.store (Nat.le_max_left _ _) (Nat.max_le.mpr ⟨h.floor, h.loading i _ hr⟩)).setReload
      nofun nofun, rfl⟩

end Fresh

/-- Where every call that joins a flight comes before its function returns, no call of `Current`
returns a configuration from a load that finished before the beginning of a `Reload` that had
returned when the call began. -/
theorem current_fresh {ms : List Move} (h : runtime.Along (fun r m _ => timely r m) {} ms r)
    {i floor : ℕ} {x : Snapshot} (hc : r.calls i = .returned floor (some x)) : floor ≤ x.loaded := by
  suffices hfresh : Fresh r by
    have hi := hfresh.calls i
    rw [hc] at hi
    exact hi x rfl
  clear hc
  have hinit : Fresh {} := ⟨nofun, Nat.le_refl 0, nofun, nofun, fun _ => trivial⟩
  generalize ({} : Runtime) = r₀ at h hinit
  induction h with
  | nil => exact hinit
  | cons hm ht _ ih =>
    obtain ⟨_, hr', rfl⟩ := Option.map_eq_some_iff.mp hm
    obtain ⟨hfresh, hnow⟩ := hinit.step hr' ht
    exact ih (hnow ▸ hfresh.tick)

/-! ## A late caller -/

def demoConfig : LoginSecurityConfig := ⟨60, 10, 60, 5, 60⟩

/-- A call loads on demand, and then a `Reload` fails, before the key of the load is removed. -/
def demoStale : List Move :=
  [.begin 0, .look 0, .ask 0, .lock, .check false, .load (some demoConfig), .reload 0, .reloadLock 0,
    .reloaded 0 none, .begin 1, .look 1, .ask 1, .deliver]

theorem late_caller : ∃ r floor x, runtime.run demoStale = some r ∧
    r.calls 1 = .returned floor (some x) ∧ x.loaded < floor :=
  ⟨_, _, _, rfl, rfl, by decide⟩

/-- The same with the key removed in time: the later call loads again. -/
def demoFresh : List Move :=
  [.begin 0, .look 0, .ask 0, .lock, .check false, .load (some demoConfig), .deliver, .reload 0,
    .reloadLock 0, .reloaded 0 none, .begin 1, .look 1, .ask 1, .lock, .check false,
    .load (some demoConfig), .deliver]

theorem current_fresh_again : ∃ (r : Runtime) (floor : ℕ) (x : Snapshot),
    runtime.run demoFresh = some r ∧ r.calls 1 = .returned floor (some x) ∧ floor ≤ x.loaded := by
  have h : runtime.Along (fun r m _ => timely r m) {} demoFresh _ :=
    .of_check (show Along.check runtime (fun r m _ => timely r m) {} demoFresh = some _ from rfl)
      fun _ _ _ ht => ht
  exact ⟨_, _, _, rfl, rfl, current_fresh (i := 1) h rfl⟩

end Dogx.LoginProtection
