import Dogx.Txn.Program

/-!
# Interleaving

Any number of processes run at once, each suspended between two statements. One `Move` lets one
of them take one step, so a run is a list of moves and every interleaving is a run.

The store follows READ COMMITTED:

* a statement sees the rows committed when it runs and its own transaction's writes
* a lock on a row belongs to one transaction until that transaction ends
* a conditional update looks at the current row once it has the lock, and needs no lock to find
  that the committed row does not satisfy its condition
* an index entry taken by an insert is locked like a row until the insert's transaction ends

A commit can take effect before its process learns of it, and the process can be told of a
failure at any time. In that last case the transaction stays behind `doubt`: it keeps its locks
and later takes effect or is undone, while its process goes on.
-/

namespace Txn

open Function (update)

variable {S : Sig}

inductive Phase (S : Sig) : Type 1 where
  | idle (p : Proc S Unit)
  /-- Inside a transaction, before it is asked to commit. -/
  | running {α : Type} (label : α → S.Op) (body : Tx S α) (k : Except S.Err α → Proc S Unit)
  /-- The commit took effect, its confirmation is on the way. -/
  | confirming {α : Type} (op : S.Op) (a : α) (k : Except S.Err α → Proc S Unit)
  /-- A transaction left behind by its process, with the outcome of its commit open. -/
  | doubt (op : S.Op)

/-- `pid` is the process the session works for; a session in doubt no longer is that process. -/
structure Session (S : Sig) : Type 1 where
  pid : Nat
  phase : Phase S

/-- The whole system. Locks and pending writes are kept by session. -/
structure Sys (S : Sig) : Type 1 where
  world : World S
  locks : Res S → Option Nat
  pend : Nat → Store S
  sessions : Nat → Option (Session S)
  next : Nat

/-- What a service offers: its calls, their code, and when a call may be made. -/
structure Service (S : Sig) where
  Call : Type
  code : Call → Proc S Unit
  admits : Call → World S → Bool

inductive Move (S : Sig) (C : Type) where
  | tick (d : Nat)
  | spawn (c : C)
  | begin (sid : Nat)
  | exec (sid : Nat)
  | reply (sid : Nat) (a : S.Act) (r : S.Reply a)
  /-- A technical failure: what is open is undone and the process is told. -/
  | fail (sid : Nat) (f : S.Fault)
  | commit (sid : Nat)
  | confirm (sid : Nat)
  /-- The process is told of a failure while the outcome of its commit is open, or after it. -/
  | lose (sid : Nat) (f : S.Fault)

namespace Sys

/-- Nobody has called yet. -/
def atRest (w : World S) : Sys S :=
  { world := w, locks := fun _ => none, pend := fun _ => Store.empty
    sessions := fun _ => none, next := 0 }

def init : Sys S := atRest World.init

def loc (s : Sys S) (sid : Nat) : Loc S :=
  { world := s.world, pend := s.pend sid, held := {r | s.locks r = some sid} }

def view (s : Sys S) (sid : Nat) : View S := (s.loc sid).view

def available (s : Sys S) (sid : Nat) (r : Res S) : Bool :=
  s.locks r = none || s.locks r = some sid

def put (s : Sys S) (sid : Nat) (σ : Session S) : Sys S :=
  { s with sessions := update s.sessions sid (some σ) }

def drop (s : Sys S) (sid : Nat) : Sys S :=
  { s with sessions := update s.sessions sid none }

def grab (s : Sys S) (sid : Nat) (r : Res S) : Sys S :=
  { s with locks := update s.locks r (some sid) }

def grabAll (s : Sys S) (sid : Nat) (t : S.Table) (ks : List S.Key) : Sys S :=
  { s with locks := fun r => if ∃ k ∈ ks, r = Res.key t k then some sid else s.locks r }

def write (s : Sys S) (sid : Nat) (t : S.Table) (id : Nat) (v : S.Row t) : Sys S :=
  { s.grab sid (Res.row t id) with
    pend := update s.pend sid ((s.pend sid).set t id v) }

/-- The transaction of `sid` is over: its locks are free, its pending writes gone. -/
def release (s : Sys S) (sid : Nat) : Sys S :=
  { s with
    locks := fun r => if s.locks r = some sid then none else s.locks r
    pend := update s.pend sid Store.empty }

def apply (s : Sys S) (sid pid : Nat) (op : S.Op) : Sys S :=
  { s with world := (s.loc sid).commit pid op }.release sid

/-- The transaction of `sid` goes on as a session of its own, in doubt. -/
def detach (s : Sys S) (sid pid : Nat) (op : S.Op) : Sys S :=
  { world := s.world.record (.lost pid op)
    locks := fun r => if s.locks r = some sid then some s.next else s.locks r
    pend := update (update s.pend s.next (s.pend sid)) sid Store.empty
    sessions := update s.sessions s.next (some { pid := pid, phase := .doubt op })
    next := s.next + 1 }

def conflicts (s : Sys S) (sid : Nat) (t : S.Table) (v : S.Row t) : Bool :=
  (S.keys t v).any fun k => (List.range (s.world.seq t + 1)).any fun id =>
    match (s.view sid).rows t id with
    | none => false
    | some v' => decide (k ∈ S.keys t v')

/-- One statement of the transaction of session `sid`. `none`: it has to wait, or cannot go on. -/
def execTx (s : Sys S) (sid pid : Nat) {α : Type} (label : α → S.Op)
    (k : Except S.Err α → Proc S Unit) : Tx S α → Option (Sys S)
  | .ret _ => none
  | .ask _ _ => none
  | .throw e => some ((s.release sid).put sid { pid := pid, phase := .idle (k (.error e)) })
  | .select q k' => some (s.put sid { pid := pid, phase := .running label (k' (q (s.view sid))) k })
  | .lock t id nowait k' =>
    match (s.view sid).rows t id with
    | none => some (s.put sid { pid := pid, phase := .running label (k' (.row none)) k })
    | some v =>
      if s.available sid (.row t id) then
        some ((s.grab sid (.row t id)).put sid
          { pid := pid, phase := .running label (k' (.row (some v))) k })
      else if nowait then some (s.put sid { pid := pid, phase := .running label (k' .busy) k })
      else none
  | .update t id f k' =>
    match (s.view sid).rows t id with
    | none => some (s.put sid { pid := pid, phase := .running label (k' none) k })
    | some v =>
      match f (s.view sid) v with
      | .skip => some (s.put sid { pid := pid, phase := .running label (k' none) k })
      | .raise => none
      | .set v' =>
        if s.available sid (.row t id) then
          some ((s.write sid t id v').put sid
            { pid := pid, phase := .running label (k' (some v')) k })
        else none
  | .insert t row k' =>
    let id := s.world.seq t + 1
    let s₁ := { s with world := s.world.bump t }
    if (S.keys t (row id)).all fun k => s.available sid (.key t k) then
      if s.conflicts sid t (row id) then
        some (s₁.put sid { pid := pid, phase := .running label (k' none) k })
      else
        some (((s₁.grabAll sid t (S.keys t (row id))).write sid t id (row id)).put sid
          { pid := pid, phase := .running label (k' (some id)) k })
    else none

def exec (s : Sys S) (sid : Nat) : Option (Sys S) :=
  match s.sessions sid with
  | some ⟨pid, .running label body k⟩ => s.execTx sid pid label k body
  | some ⟨pid, .idle (.read q k)⟩ =>
    some (s.put sid { pid := pid, phase := .idle (k (.ok (q s.world.view))) })
  | _ => none

def reply (s : Sys S) (sid : Nat) (a : S.Act) (r : S.Reply a) : Option (Sys S) :=
  match s.sessions sid with
  | some ⟨pid, .idle (.act a' k)⟩ =>
    if h : a = a' then
      some ({ s with world := s.world.record (.act pid a r) }.put sid
        { pid := pid, phase := .idle (k (h ▸ r)) })
    else none
  | some ⟨pid, .running label (.ask a' k') k⟩ =>
    if h : a = a' then
      some ({ s with world := s.world.record (.act pid a r) }.put sid
        { pid := pid, phase := .running label (k' (h ▸ r)) k })
    else none
  | _ => none

def fail (s : Sys S) (sid : Nat) (f : S.Fault) : Option (Sys S) :=
  match s.sessions sid with
  | some ⟨pid, .idle (.read _ k)⟩ => some (s.put sid { pid := pid, phase := .idle (k (.error (S.fault f))) })
  | some ⟨pid, .running _ _ k⟩ =>
    some ((s.release sid).put sid { pid := pid, phase := .idle (k (.error (S.fault f))) })
  | some ⟨_, .doubt _⟩ => some ((s.release sid).drop sid)
  | _ => none

def commit (s : Sys S) (sid : Nat) : Option (Sys S) :=
  match s.sessions sid with
  | some ⟨pid, .running label (.ret a) k⟩ =>
    some ((s.apply sid pid (label a)).put sid
      { pid := pid, phase := .confirming (label a) a k })
  | some ⟨pid, .doubt op⟩ => some ((s.apply sid pid op).drop sid)
  | _ => none

def lose (s : Sys S) (sid : Nat) (f : S.Fault) : Option (Sys S) :=
  match s.sessions sid with
  | some ⟨pid, .running label (.ret a) k⟩ =>
    some ((s.detach sid pid (label a)).put sid { pid := pid, phase := .idle (k (.error (S.fault f))) })
  | some ⟨pid, .confirming op _ k⟩ =>
    some ({ s with world := s.world.record (.lost pid op) }.put sid
      { pid := pid, phase := .idle (k (.error (S.fault f))) })
  | _ => none

/-- One move; `none` when it is not possible in this state. -/
def step (P : Service S) (s : Sys S) : Move S P.Call → Option (Sys S)
  | .tick d => some { s with world := s.world.tick d }
  | .spawn c =>
    if P.admits c s.world then
      some ({ s with next := s.next + 1 }.put s.next { pid := s.next, phase := .idle (P.code c) })
    else none
  | .begin sid =>
    match s.sessions sid with
    | some ⟨pid, .idle (.transact label body k)⟩ =>
      some (s.put sid { pid := pid, phase := .running label body k })
    | _ => none
  | .exec sid => s.exec sid
  | .reply sid a r => s.reply sid a r
  | .fail sid f => s.fail sid f
  | .commit sid => s.commit sid
  | .confirm sid =>
    match s.sessions sid with
    | some ⟨pid, .confirming _ a k⟩ => some (s.put sid { pid := pid, phase := .idle (k (.ok a)) })
    | _ => none
  | .lose sid f => s.lose sid f

def run (P : Service S) (s : Sys S) : List (Move S P.Call) → Option (Sys S)
  | [] => some s
  | m :: ms => (s.step P m).bind fun s' => s'.run P ms

variable {P : Service S} {s s' : Sys S} {ms ms' : List (Move S P.Call)} {m : Move S P.Call}

theorem run_append :
    s.run P (ms ++ ms') = some s' ↔ ∃ t, s.run P ms = some t ∧ t.run P ms' = some s' := by
  rw [← Option.bind_eq_some_iff]
  induction ms generalizing s with
  | nil => rfl
  | cons m _ ih =>
    simp only [List.cons_append, run]
    cases s.step P m with
    | none => rfl
    | some => exact ih

theorem run_snoc : s.run P (ms ++ [m]) = some s' ↔ ∃ t, s.run P ms = some t ∧ t.step P m = some s' := by
  simp [run_append, run]

end Sys

end Txn
