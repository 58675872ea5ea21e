import Dogx.Job.Trigger
import Dogx.Machine.Run

/-!
# Rules of a leader term

A leader term keeps one cron entry for each rule of the last snapshot it has applied. `apply` edits the
old map of rules while it builds the new one, and removes entries in two places. What it reads besides
its arguments is in `Readings`: the term's context, the clock, the IDs that the cron engine gives to new
entries, and the answers of the trigger queue. Of these IDs it is assumed that the engine gives none of
them twice.

`made` and `removed` list the calls of the engine's `Schedule` and `Remove`.
-/

namespace Dogx.Scheduler

open Job (Env Schedule.parse)

/-! ## The cron engine -/

structure Cron where
  /-- The live entries, with the job their callback offers. -/
  entries : List (ℕ × ℤ)
  made : List ℕ
  removed : List ℕ
  deriving DecidableEq

namespace Cron

/-- `Schedule`, which has returned `entry`. -/
def schedule (c : Cron) (entry : ℕ) (id : ℤ) : Cron :=
  { c with entries := c.entries ++ [(entry, id)], made := c.made ++ [entry] }

def remove (c : Cron) (entry : ℕ) : Cron :=
  { c with entries := c.entries.filter fun e => e.1 ≠ entry, removed := c.removed ++ [entry] }

end Cron

/-! ## The term -/

structure Rule where
  id : ℤ
  cronExpr : String
  deriving DecidableEq

structure RegisteredRule where
  expr : String
  entry : ℕ
  deriving DecidableEq

/-- A map from the IDs of jobs. -/
abbrev Rules := AList fun _ : ℤ => RegisteredRule

structure Term where
  cron : Cron
  rules : Rules
  started : Bool

/-- What one call of `apply` reads, in the order of the readings. -/
structure Readings where
  /-- `t.stopped`. -/
  stopped : Bool
  /-- `t.ctx.Err() != nil`: on entry, before each rule, and after the last one. -/
  canceled : ℕ → Bool
  /-- `t.runtime.now()` at each rule. -/
  now : ℕ → ℕ
  /-- What `t.cron.Schedule` returns at each rule, if it is called. -/
  entry : ℕ → ℕ
  /-- The answers of `t.offer`. -/
  offers : ℕ → Bool

namespace Term

def init : Term := { cron := { entries := [], made := [], removed := [] }, rules := ∅, started := false }

/-- The rule's expression has been parsed and has a next occurrence. -/
def valid (env : Env) (now : ℕ) (expr : String) : Bool :=
  match Schedule.parse env expr with
  | .error _ => false
  | .ok schedule => schedule now ≠ 0

/-- The variables of the loop of `apply`. -/
structure Loop where
  cron : Cron
  rules : Rules
  next : Rules
  changed : List ℤ

/-- The old entry of a rule that is no longer as registered is removed. -/
def Loop.drop (l : Loop) (id : ℤ) : Loop :=
  match l.rules.lookup id with
  | some old => { l with cron := l.cron.remove old.entry, rules := l.rules.erase id }
  | none => l

def Loop.rule (env : Env) (now entry : ℕ) (l : Loop) (rule : Rule) : Loop :=
  match (l.rules.lookup rule.id).filter fun old => old.expr = rule.cronExpr with
  | some old => { l with next := l.next.insert rule.id old }
  | none =>
    let valid := valid env now rule.cronExpr
    let l := l.drop rule.id
    if !valid then l
    else { l with
      cron := l.cron.schedule entry rule.id
      next := l.next.insert rule.id { expr := rule.cronExpr, entry }
      changed := l.changed ++ [rule.id] }

/-- The loop over the snapshot, from rule number `i` on; `false` if it returned early. -/
def Loop.run (env : Env) (r : Readings) : ℕ → Loop → List Rule → Loop × Bool
  | _, l, [] => (l, true)
  | i, l, rule :: rest =>
    if r.canceled (i + 1) then (l, false)
    else run env r (i + 1) (l.rule env (r.now i) (r.entry i) rule) rest

/-- The loop over the rules that are left in the old map. -/
def removeAbsent (next : Rules) (cron : Cron) (rules : List (Σ _ : ℤ, RegisteredRule)) : Cron :=
  rules.foldl (fun cron old => if (next.lookup old.1).isNone then cron.remove old.2.entry else cron) cron

/-- The jobs offered: up to the first answer that is no. -/
def offerAll (offers : ℕ → Bool) : ℕ → List ℤ → List ℤ
  | _, [] => []
  | i, id :: ids => if offers i then id :: offerAll offers (i + 1) ids else [id]

/-- What `apply` leaves: the term, whether it came to its end, and the jobs it changed and offered. -/
structure Applied where
  term : Term
  completed : Bool
  changed : List ℤ
  offered : List ℤ

def apply (env : Env) (r : Readings) (t : Term) (rules : List Rule) : Applied :=
  if r.stopped || r.canceled 0 then { term := t, completed := false, changed := [], offered := [] }
  else
    let done := Loop.run env r 0 { cron := t.cron, rules := t.rules, next := ∅, changed := [] } rules
    let l := done.1
    if !done.2 then
      { term := { t with cron := l.cron, rules := l.rules }, completed := false
        changed := l.changed, offered := [] }
    else
      let t := { t with cron := removeAbsent l.next l.cron l.rules.entries, rules := l.next }
      if r.canceled (rules.length + 1) then
        { term := t, completed := false, changed := l.changed, offered := [] }
      else
        { term := { t with started := true }, completed := true
          changed := l.changed, offered := offerAll r.offers 0 l.changed }

end Term

/-- A snapshot to apply, and what is read meanwhile. -/
structure Application where
  rules : List Rule
  readings : Readings

/-- The IDs that the cron engine gives during the application are new. -/
def Application.Fresh (a : Application) (made : List ℕ) : Prop :=
  (made ++ (List.range' 0 a.rules.length).map a.readings.entry).Nodup

instance (a : Application) (made : List ℕ) : Decidable (a.Fresh made) :=
  inferInstanceAs (Decidable (List.Nodup _))

/-- A term that applies snapshots with unique job IDs, each of them to the end. -/
def leaderTerm (env : Env) : Machine Term Application where
  init := .init
  step t a :=
    let applied := t.apply env a.readings a.rules
    if (a.rules.map Rule.id).Nodup ∧ a.Fresh t.cron.made ∧ applied.completed = true then
      some applied.term
    else none

end Dogx.Scheduler
