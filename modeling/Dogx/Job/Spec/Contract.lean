import Dogx.Job.Spec.Effect
import Dogx.Txn.Sound

/-!
# The contract of the service

What every commit and every visible interaction of the service keeps to. A commit has the effect
its name says. A call returns what its own transaction did, and returns once; an attempt is sent
by the call that was given it, and sent once.

The contract names what other calls must be able to count on, and nothing that follows from it:
the invariants of the service are derived from it later.
-/

namespace Dogx.Job

open Txn (Event World)

/-! ## Reading the history -/

def Op.registers : Op → Option RegisteredAttempt
  | .startOrdinary _ registered => registered
  | .retryOrdinary _ registered => registered
  | _ => none

def Op.creates (jobId : ℕ) (request : Uuid) : Op → Bool
  | .triggerManual m _ created => created && m.jobId = jobId && m.requestId = request
  | _ => false

theorem Op.creates_inv {jobId : ℕ} {request : Uuid} {op : Op} (h : op.creates jobId request = true) :
    ∃ m id, op = .triggerManual m id true ∧ m.jobId = jobId ∧ m.requestId = request := by
  cases op with
  | triggerManual m id =>
    simp only [creates, Bool.and_eq_true, decide_eq_true_eq] at h
    obtain ⟨⟨rfl, hj⟩, hr⟩ := h
    exact ⟨m, id, rfl, hj, hr⟩
  | _ => simp [creates] at h

namespace Event

def isCommit : Event → Bool
  | .commit .. => true
  | _ => false

def isReturn : Event → Bool
  | .act _ (.returned _) _ => true
  | _ => false

def isSend : Event → Bool
  | .act _ (.send _) _ => true
  | _ => false

def isEntry : Event → Bool
  | .act _ .entered _ => true
  | _ => false

/-- The commit that created the round of a manual request. -/
def creates (jobId : ℕ) (request : Uuid) : Event → Bool
  | .commit _ op _ _ => op.creates jobId request
  | _ => false

theorem creates_inv {jobId : ℕ} {request : Uuid} {e : Event} (h : creates jobId request e = true) :
    ∃ pid m id before writes, e = .commit pid (.triggerManual m id true) before writes ∧
      m.jobId = jobId ∧ m.requestId = request := by
  cases e with
  | commit pid _ before writes =>
    obtain ⟨m, id, rfl, hm⟩ := Op.creates_inv h
    exact ⟨pid, m, id, before, writes, rfl, hm⟩
  | _ => simp [creates] at h

end Event

def Never (pid : ℕ) (kind : Event → Bool) (w : World) : Prop :=
  ∀ e ∈ w.log, e.pid = pid → kind e = false

def rewind : List Event → Db → Db
  | [], db => db
  | .commit _ _ before _ :: since, _ => rewind since before
  | _ :: since, db => rewind since db

/-! ## Due hints -/

/-- At a moment since process `pid` has its permit there was no such job, or it was deleted. -/
def Unfound (pid jobId : ℕ) (db : Db) (log : List Event) : Prop :=
  ∃ since earlier, log = since ++ earlier ∧ .act pid (.acquire true) true ∈ earlier ∧
    ∀ j, rewind since db .job jobId = some j → j.deletedAt.isSome = true

def DecidedOn (pid jobId decisionAt : ℕ) (reason : String) (w : World) : Prop :=
  if reason = "not_found" then Unfound pid jobId w.db w.log else .act pid .clock decisionAt ∈ w.log

/-! ## Manual requests -/

def JobInstance.For (i : JobInstance) (m : ManualTrigger) : Prop :=
  i.jobId = m.jobId ∧ i.requestId = some m.requestId

def JobInstance.SameOverride (i : JobInstance) (m : ManualTrigger) : Prop :=
  i.paramsOverridden = m.paramsOverridden ∧
    (m.paramsOverridden = true → i.executionConfig.params = Text.trimSpace m.params)

def EnteredBefore (pid : ℕ) (m : ManualTrigger) (w : World) : Prop :=
  ∀ later earlier, w.log = later ++ .act pid .entered () :: earlier →
    ∀ e ∈ earlier, Event.creates m.jobId m.requestId e = false

def Deleted (jobId : ℕ) (db : Db) : Prop := ∃ j, db .job jobId = some j ∧ j.deletedAt.isSome

def ManualAnswer (pid : ℕ) (m : ManualTrigger) (w : World) : Except Err ℕ → Prop
  | .ok id => ∃ i, w.db .instance id = some i ∧ i.For m ∧ i.SameOverride m
  | .error (.fault _) => True
  | .error .requestConflict => ∃ id i, w.db .instance id = some i ∧ i.For m ∧ ¬ i.SameOverride m
  | .error _ => Deleted m.jobId w.db ∨ EnteredBefore pid m w

/-! ## The contract -/

/-- The history of process `pid` bears out what it returns. -/
def Justified (pid : ℕ) (w : World) : Outcome → Prop
  | .registered (.ok (some a)) => ∃ op before writes,
      .commit pid op before writes ∈ w.log ∧ op.registers = some a
  | .registered _ => True
  | .decided id (.ok d) => d.new = true → ∃ timeout before writes,
      .commit pid (.requestStop id timeout d) before writes ∈ w.log
  | .decided _ (.error _) => True
  | .manual m r => ManualAnswer pid m w r
  | .automatic id (.ok r) => ∃ decisionAt before writes,
      .commit pid (.triggerAutomatic id decisionAt r) before writes ∈ w.log
  | .automatic _ (.error _) => w.Lost pid ∨ Never pid Event.isCommit w

abbrev jobRow (id : ℕ) : Txn.Res sig := .row .job id

abbrev instanceRow (id : ℕ) : Txn.Res sig := .row .instance id

abbrev groupRow (id : ℕ) : Txn.Res sig := .row .group id

abbrev taskRow (id : ℕ) : Txn.Res sig := .row .task id

/--
A creation for a request holds the lock of its job; a due hint is decided once. Whoever gives a job
its group holds the lock of that group, and whoever gives it an occurrence has read the clock.
-/
def Guarded (pid : ℕ) (l : Loc) : Op → Prop
  | .triggerManual m _ true => jobRow m.jobId ∈ l.held
  | .triggerAutomatic jobId decisionAt r =>
    (l.world.Lost pid ∨ (Never pid Event.isCommit l.world ∧ Never pid Event.isReturn l.world)) ∧
      DecidedOn pid jobId decisionAt r.reason l.world
  | .createJob _ decisionAt =>
    (∀ id j, l.pend .job id = some j → groupRow j.executorGroupId ∈ l.held) ∧
      ∀ t ∈ decisionAt, .act pid .clock t ∈ l.world.log
  | .updateJob _ => ∀ id j, l.pend .job id = some j → groupRow j.executorGroupId ∈ l.held
  | .enableJob _ decisionAt => ∀ t ∈ decisionAt, .act pid .clock t ∈ l.world.log
  | _ => True

def Permitted (pid : ℕ) (w : World) : Act → Prop
  | .send a => .act pid (.returned (.registered (.ok (some a)))) () ∈ w.log ∧
      Never pid Event.isSend w
  | .returned o => Never pid Event.isReturn w ∧ Justified pid w o
  | .entered => Never pid Event.isEntry w
  | _ => True

/-- What the calls count on in every world. -/
structure Inv (w : World) : Prop where
  taskId : ∀ id t, w.db .task id = some t → t.id = id
  instanceId : ∀ id i, w.db .instance id = some i → i.id = id
  jobId : ∀ id j, w.db .job id = some j → j.id = id
  started : ∀ id i t, w.db .instance id = some i → i.startedAt = some t → t ≤ w.now
  created : ∀ pid m id before writes, .commit pid (.triggerManual m id true) before writes ∈ w.log →
    (∃ i, w.db .instance id = some i ∧ i.For m) ∧ ∃ j, w.db .job m.jobId = some j

abbrev contract (env : Env) : Txn.Contract sig where
  Commits pid op l := Effect env l.world op l.pend ∧ Guarded pid l op
  Acts pid a _ w := Permitted pid w a
  Inv := Inv

end Dogx.Job
