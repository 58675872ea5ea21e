import Dogx.Txn.History
import Dogx.Txn.Step
import Dogx.Job.Refine.Result
import Dogx.Job.Refine.Management

/-!
# The service keeps its contract

`service_keeps` puts the calls together: whatever a node calls, at any moment, in any interleaving
with the others, keeps the contract. A run of the statements of the code is therefore a run of
whole effects, and every property of runs is proved over those.
-/

namespace Dogx.Job

variable {env : Env} {pid : ℕ} {ms : List Move} {s : Sys}

theorem ignore_keeps {α : Type} {p : Proc α} {R : World → Prop} {Q : α → World → Prop}
    (h : Triple env pid R p Q) : Triple env pid R (ignore p) fun _ _ => True :=
  .bind h fun _ => .done _

def Unsaid (pid : ℕ) (w : World) : Prop := ∀ kind, Never pid kind w

/-- Every call keeps the contract. -/
theorem code_keeps (c : Call) (order : RowOrder) {w : World} (ha : c.admits w = true)
    (hw : Unsaid pid w) : (c.code env order).wp (contract env) pid (fun _ _ => True) w := by
  cases c with
  | startOrdinary id =>
    exact ignore_keeps (registered_keeps fun R hR => startOrdinary_keeps hR id) w ⟨hw _, hw _⟩
  | retryOrdinary c =>
    exact ignore_keeps (registered_keeps fun R hR => retryOrdinary_keeps hR c) w ⟨hw _, hw _⟩
  | dispatchOrdinary delay id =>
    exact ignore_keeps (Dispatcher.dispatchOrdinary_keeps delay id) w ⟨hw _, hw _⟩
  | dispatchRetry delay c =>
    exact ignore_keeps (Dispatcher.dispatchRetry_keeps delay c) w ⟨hw _, hw _⟩
  | bindExecutor b => exact ignore_keeps (bindExecutor_keeps b) w trivial
  | saveDispatchBusy b => exact ignore_keeps (saveDispatchBusy_keeps b) w trivial
  | saveDispatchRejection b =>
    refine ignore_keeps (saveDispatchRejection_keeps b) w ?_
    simp only [Call.admits, Option.any_eq_true, decide_eq_true_eq] at ha
    exact ha
  | save r => exact ignore_keeps (Saver.save_keeps r) w trivial
  | settleBatch period cs => exact ignore_keeps (Settler.settleBatch_keeps period cs) w trivial
  | check stopping id => exact ignore_keeps (Checker.check_keeps stopping id) w (hw _)
  | stopInstance id => exact ignore_keeps (Management.stopInstance_keeps id) w (hw _)
  | requestTimeout id => exact ignore_keeps (Controller.requestStop_keeps id true) w (hw _)
  | processBatch size id =>
    exact ignore_keeps (Controller.processBatch_keeps order size id) w trivial
  | triggerManual m => exact ignore_keeps (triggerManual_keeps m) w ⟨hw _, hw _⟩
  | triggerAutomatic id => exact ignore_keeps (Creator.triggerAutomatic_keeps id) w ⟨hw _, hw _⟩
  | createExecutorGroup name key =>
    exact ignore_keeps (Management.createExecutorGroup_keeps name key) w trivial
  | deleteExecutorGroup id => exact ignore_keeps (Management.deleteExecutorGroup_keeps id) w trivial
  | createJob c status => exact ignore_keeps (Management.createJob_keeps c status) w trivial
  | updateJob id c => exact ignore_keeps (Management.updateJob_keeps id c) w trivial
  | updateJobStatus id status =>
    exact ignore_keeps (Management.updateJobStatus_keeps id status) w trivial
  | deleteJob id => exact ignore_keeps (Management.deleteJob_keeps id) w trivial

/-- The service keeps the contract, whoever calls. -/
theorem service_keeps (env : Env) : (service env).Keeps (contract env) :=
  fun c _ _ ha hfresh _ _ => code_keeps c .listed ha fun _ => Never.of_fresh hfresh

theorem reordered_keeps (env : Env) : (reordered env).Keeps (contract env) :=
  fun c _ _ ha hfresh _ _ => code_keeps c.1 c.2 ha fun _ => Never.of_fresh hfresh

/-! ## Runs -/

/-- The world has come about by whole effects, from an empty database. -/
def Reached (env : Env) (w : World) : Prop := Txn.Evolution (contract env) Txn.World.init w

namespace Reached

variable {w : World} {later earlier : List Event}

variable (h : Reached env w)
include h

theorem inv : Inv w :=
  Txn.Evolution.preserves (contract_kept env) h Inv.init

theorem wf : (Txn.Loc.start w).WF := Txn.Evolution.wf h Txn.Loc.WF.init

/-- The invariant rule for what the rows and the history say together. -/
theorem keeps {P : Db → List Event → Prop} (hinit : P noWrites [])
    (hcommit : ∀ w pid op writes, Reached env w → Effect env w op writes → P w.db w.log →
      P (w.db.apply writes) (.commit pid op w.db writes :: w.log))
    (hother : ∀ db log e, Event.isCommit e = false → P db log → P db (e :: log)) :
    P w.db w.log := by
  induction h with
  | refl => exact hinit
  | @tail a b h hs ih =>
    cases hs with
    | commit _ ok => exact hcommit _ _ _ _ h ok.1 ih
    | act | lost => exact hother _ _ _ rfl ih
    | tick | bump => exact ih

/-- The invariant rule for what the rows say. -/
theorem rows {P : Db → Prop} (hinit : P noWrites)
    (hcommit : ∀ w op writes, Reached env w → Effect env w op writes → P w.db →
      P (w.db.apply writes)) : P w.db :=
  h.keeps (P := fun db _ => P db) hinit (fun w _ op writes => hcommit w op writes)
    fun _ _ _ _ h => h

/-- Every commit had its effect in the world it was made in. -/
theorem committed {op : Op} {before writes : Db}
    (hlog : w.log = later ++ .commit pid op before writes :: earlier) :
    ∃ l : Loc, Reached env l.world ∧ l.world.log = earlier ∧ l.world.db = before ∧
      l.pend = writes ∧ Effect env l.world op writes ∧ Guarded pid l op ∧
      Txn.Evolution (contract env) (l.commit pid op) w := by
  obtain ⟨_, h0, hearlier, hhap, hon⟩ := Txn.Evolution.happened h hlog List.nil_suffix
  cases hhap with
  | @commit _ _ l hw _ ok =>
    subst hw
    exact ⟨l, h0, hearlier, rfl, rfl, ok.1, ok.2, hon⟩

/-- What a commit has written, later rows follow. -/
theorem since {op : Op} {before writes : Db} (he : .commit pid op before writes ∈ w.log) :
    ∃ w0, Reached env w0 ∧ w0.db = before ∧ Effect env w0 op writes ∧
      Db.Follows (before.apply writes) w.db := by
  obtain ⟨_, _, hlog⟩ := List.append_of_mem he
  obtain ⟨l, hl, _, rfl, rfl, heff, _, hon⟩ := h.committed hlog
  exact ⟨l.world, hl, rfl, heff, evolution_follows hon⟩

/-- Every interaction was permitted in the world it was made in. -/
theorem acted {a : Act} {r : a.Reply} (hlog : w.log = later ++ .act pid a r :: earlier) :
    ∃ w0, Reached env w0 ∧ w0.log = earlier ∧ Permitted pid w0 a ∧
      Txn.Evolution (contract env) (w0.record (.act pid a r)) w := by
  obtain ⟨w0, h0, hearlier, hhap, hon⟩ := Txn.Evolution.happened h hlog List.nil_suffix
  cases hhap with
  | act ok => exact ⟨w0, h0, hearlier, ok, hon⟩

end Reached

theorem runFrom_sound {w : World} (hw : (contract env).Sane w) (hr : runFrom env w ms = some s) :
    Txn.Sound (contract env) s :=
  ((Txn.Sound.atRest hw).run (contract_kept env) (service_keeps env) hr).1

theorem run_sound (hr : run env ms = some s) : Txn.Sound (contract env) s :=
  runFrom_sound (.init Inv.init) hr

/-- A run of the service is a history of whole effects. -/
theorem run_reached (hr : run env ms = some s) : Reached env s.world :=
  Txn.run_evolves Inv.init (contract_kept env) (service_keeps env) hr

/-- What follows in a run follows by whole effects. -/
theorem run_onwards {ms' : List Move} {s' : Sys} (hr : run env ms = some s)
    (hr' : s.run (service env) ms' = some s') : Txn.Evolution (contract env) s.world s'.world :=
  ((run_sound hr).run (contract_kept env) (service_keeps env) hr').2

/-! ## A run -/

/-- The event is the commit of such a transaction, on such a state. -/
def Event.commits (P : Op → Db → Bool) : Event → Bool
  | .commit _ op before _ => P op before
  | _ => false

theorem any_commits {P : Op → Db → Bool} {log : List Event} :
    log.any (Event.commits P) = true ↔
      ∃ pid op before writes, .commit pid op before writes ∈ log ∧ P op before = true := by
  rw [List.any_eq_true]
  refine ⟨?_, fun ⟨pid, op, before, writes, he, hP⟩ => ⟨_, he, hP⟩⟩
  rintro ⟨e, he, hP⟩
  cases e with
  | commit pid op before writes => exact ⟨pid, op, before, writes, he, hP⟩
  | act | lost => simp [Event.commits] at hP

namespace Demo

/-- Library functions that accept everything, and a schedule that is due every 1000 ns. -/
def library : Env where
  cron := fun _ => some fun t => t + 1000
  splitHostPort := fun _ => some ("h", "80")
  parseIP := fun _ => true
  jsonValid := fun _ => true
  jsonbValid := fun _ => true

def tx (sid n : ℕ) : List Move :=
  .begin sid :: List.replicate n (.exec sid) ++ [.commit sid, .confirm sid]

def settings : JobInput where
  name := "job"
  remark := ""
  executorGroupId := 1
  processorName := "p"
  executionMode := none
  postEnabled := none
  params := ""
  cronExpr := "* * * * * *"
  misfirePolicy := none
  blockPolicy := none
  maxRetries := none
  retryIntervalSeconds := none
  timeoutSeconds := 60

def request : ManualTrigger :=
  { jobId := 1, requestId := 7, paramsOverridden := false, params := "", operatorId := 1 }

/-- A job with a group, and a round of it requested by hand. -/
def requested : List Move :=
  [.tick 100, .spawn (.createExecutorGroup "group" "key"), .reply 0 .random (some 1)] ++ tx 0 1 ++
  [.spawn (.createJob settings none), .reply 1 .clock 100] ++ tx 1 2 ++ [.reply 1 .expired true,
    .spawn (.triggerManual request), .reply 2 .expired false, .reply 2 (.acquire false) true,
    .reply 2 .entered ()] ++ tx 2 5 ++ [.reply 2 (.hint 1) (),
    .reply 2 (.returned (.manual request (.ok 1))) ()]

def attempt : RegisteredAttempt :=
  { jobId := 1, instanceId := 1, executorGroupId := 1, taskId := 1, attemptNo := 1
    executionConfig := { schemaVersion := 1, processorName := "p", executionMode := .normal
                         postEnabled := false, params := "", maxRetries := 3
                         retryIntervalSeconds := 10, timeoutSeconds := 60 }
    registeredAt := 100, deadlineAt := 100 + 60 * second }

/-- The round is started and its first attempt sent. -/
def sent : List Move :=
  requested ++ [.spawn (.dispatchOrdinary 5 1), .reply 3 .expired false, .reply 3 .expired false] ++
  tx 3 4 ++ [.reply 3 (.returned (.registered (.ok (some attempt)))) (), .reply 3 .expired false,
    .reply 3 (.send attempt) ()]

def executor : Uuid := 0x00000000000040008000000000000000

def answered (outcome : DispatchOutcome) : Move :=
  .reply 3 .response (.ok { outcome, executorInstanceId := executor, executorAddress := "h:80"
                            summary := "" })

/-- The executor was busy, and the task waits for its next attempt. -/
def busy : List Move :=
  sent ++ [answered .busy, .reply 3 (.jitter 1) 0, .reply 3 .expired false] ++ tx 3 1 ++
    [.reply 3 (.hint 1) ()]

/-- The executor has accepted the attempt and is bound to it. -/
def bound : List Move := sent ++ [answered .accepted, .reply 3 .expired false] ++ tx 3 1

def binding : ExecutorBinding :=
  { taskId := 1, instanceId := 1, attemptNo := 1, executorInstanceId := executor
    executorAddress := "h:80" }

/-- A BUSY answer for the first attempt is saved once more. -/
def lateBusy : List Move :=
  .spawn (.saveDispatchBusy { taskId := 1, instanceId := 1, attemptNo := 1, delay := 4 }) :: tx 4 1

def decision : Decision :=
  { instanceId := 1, executorGroupId := 1, status := .stopping, endReason := some .manualStop
    new := true }

/-- The requested round is stopped by hand before it has started. -/
def stopped : List Move :=
  requested ++ [.spawn (.stopInstance 1), .reply 3 .expired false] ++ tx 3 3 ++
    [.reply 3 (.returned (.decided 1 (.ok decision))) (), .reply 3 (.afterStop decision) ()]

def batch : List Move := [.spawn (.processBatch 10 1), .reply 4 .expired false] ++ tx 4 3

/-- An enabled job whose first occurrence, at 1100, is triggered at 1200. -/
def triggered : List Move :=
  [.tick 100, .spawn (.createExecutorGroup "group" "key"), .reply 0 .random (some 1)] ++ tx 0 1 ++
  [.spawn (.createJob settings (some 1)), .reply 1 .clock 100, .begin 1, .exec 1, .reply 1 .clock 100,
    .exec 1, .commit 1, .confirm 1, .reply 1 .expired true, .tick 1100,
    .spawn (.triggerAutomatic 1), .reply 2 .expired false, .reply 2 (.acquire true) true, .begin 2,
    .exec 2, .reply 2 .clock 1200, .exec 2, .exec 2, .exec 2, .commit 2, .confirm 2]

end Demo

end Dogx.Job
