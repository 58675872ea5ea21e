import Mathlib

/-!
# Rows, unique indexes and worlds

The committed state of a relational store, seen from the transactions that use it.

A sequence is not transactional: an id that was handed out is never handed out again,
whether or not the insert that took it commits.
-/

namespace Txn

/--
The vocabulary of one service.

`keys` are the entries a row takes in the unique indexes of its table. A `Fault` is what can go wrong
outside the service. `Op` names committed transactions in the history, `Act` the interactions with
anything that is not the database. An act that `reads` only asks for a value, such as the clock.
-/
structure Sig where
  Table : Type
  Row : Table → Type
  Key : Type
  keys : (t : Table) → Row t → List Key
  Err : Type
  Fault : Type
  fault : Fault → Err
  Op : Type
  Act : Type
  Reply : Act → Type
  reads : Act → Bool
  decTable : DecidableEq Table
  decKey : DecidableEq Key
  decAct : DecidableEq Act

attribute [instance] Sig.decTable Sig.decKey Sig.decAct

variable {S : Sig} {t t' : S.Table} {id id' : Nat} {v : S.Row t}

/-! ## Rows -/

/-- The rows of every table, by primary key. It also serves for a set of pending writes. -/
abbrev Store (S : Sig) : Type := (t : S.Table) → Nat → Option (S.Row t)

namespace Store

def empty : Store S := fun _ _ => none

/-- The rows of `db` with the writes `w` over them. -/
def apply (db w : Store S) : Store S := fun t id => (w t id).or (db t id)

def set (db : Store S) (t : S.Table) (id : Nat) (v : S.Row t) : Store S :=
  fun t' id' => if h : t' = t then if id' = id then some (h ▸ v) else db t' id' else db t' id'

@[simp] theorem empty_apply (t : S.Table) (id : Nat) : (empty : Store S) t id = none := rfl

@[simp] theorem apply_empty (db : Store S) : db.apply empty = db := rfl

@[simp] theorem set_same (db : Store S) (t : S.Table) (id id' : Nat) (v : S.Row t) :
    db.set t id v t id' = if id' = id then some v else db t id' := by
  simp [set]

@[simp] theorem set_table_ne (db : Store S) (v : S.Row t) (h : t' ≠ t) :
    db.set t id v t' id' = db t' id' := by
  simp [set, h]

variable {db w : Store S}

theorem set_eq_some {v' : S.Row t'} (h : db.set t id v t' id' = some v') :
    (∃ e : t = t', id' = id ∧ v' = e ▸ v) ∨ db t' id' = some v' := by
  unfold set at h
  split at h
  · next ht =>
    subst ht
    split at h
    · next hid => exact Or.inl ⟨rfl, hid, (Option.some.inj h).symm⟩
    · exact Or.inr h
  · exact Or.inr h

theorem apply_of_none (h : w t id = none) : db.apply w t id = db t id := by
  simp [apply, h]

theorem apply_of_some (h : w t id = some v) : db.apply w t id = some v := by
  simp [apply, h]

theorem apply_eq_some (h : db.apply w t id = some v) :
    w t id = some v ∨ (w t id = none ∧ db t id = some v) := by
  cases hw : w t id with
  | none => exact Or.inr ⟨rfl, by rw [apply_of_none hw] at h; exact h⟩
  | some => exact Or.inl (by rw [← h, apply_of_some hw])

def Occupied (db : Store S) (t : S.Table) (k : S.Key) : Prop :=
  ∃ id v, db t id = some v ∧ k ∈ S.keys t v

end Store

/-! ## Worlds -/

/-- What an outside observer of the service can tell apart. -/
inductive Event (S : Sig) where
  /-- A transaction of process `pid` took effect, over the rows `before`. -/
  | commit (pid : Nat) (op : S.Op) (before writes : Store S)
  /-- Process `pid` interacted with its surroundings. -/
  | act (pid : Nat) (a : S.Act) (r : S.Reply a)
  /-- Process `pid` was told of a failure after it had asked for a commit. -/
  | lost (pid : Nat) (op : S.Op)

def Event.pid : Event S → Nat
  | .commit pid _ _ _ => pid
  | .act pid _ _ => pid
  | .lost pid _ => pid

/-- The state every transaction shares. `log` is the history, newest event first. -/
structure World (S : Sig) where
  db : Store S
  seq : S.Table → Nat
  now : Nat
  log : List (Event S)

/-- What one statement can read. -/
structure View (S : Sig) where
  rows : Store S
  seq : S.Table → Nat
  now : Nat

def View.all (v : View S) (t : S.Table) : List (S.Row t) :=
  (List.range (v.seq t + 1)).filterMap (v.rows t)

theorem View.mem_all {v : View S} {r : S.Row t} :
    r ∈ v.all t ↔ ∃ id, id ≤ v.seq t ∧ v.rows t id = some r := by
  simp [all]

namespace World

def init : World S := { db := Store.empty, seq := fun _ => 0, now := 0, log := [] }

def record (w : World S) (e : Event S) : World S := { w with log := e :: w.log }

def bump (w : World S) (t : S.Table) : World S :=
  { w with seq := Function.update w.seq t (w.seq t + 1) }

def tick (w : World S) (d : Nat) : World S := { w with now := w.now + d }

/-- A commit of process `pid` went unconfirmed. -/
def Lost (w : World S) (pid : Nat) : Prop := ∃ op, Event.lost pid op ∈ w.log

def Fresh (w : World S) (pid : Nat) : Prop := ∀ e ∈ w.log, e.pid ≠ pid

def view (w : World S) : View S := { rows := w.db, seq := w.seq, now := w.now }

variable (w : World S)

@[simp] theorem view_rows : w.view.rows = w.db := rfl
@[simp] theorem view_now : w.view.now = w.now := rfl

@[simp] theorem record_db (e : Event S) : (w.record e).db = w.db := rfl
@[simp] theorem record_now (e : Event S) : (w.record e).now = w.now := rfl
@[simp] theorem record_log (e : Event S) : (w.record e).log = e :: w.log := rfl
@[simp] theorem bump_now (t : S.Table) : (w.bump t).now = w.now := rfl
@[simp] theorem bump_log (t : S.Table) : (w.bump t).log = w.log := rfl
@[simp] theorem tick_now (d : Nat) : (w.tick d).now = w.now + d := rfl
@[simp] theorem tick_log (d : Nat) : (w.tick d).log = w.log := rfl

theorem le_bump_seq (t t' : S.Table) : w.seq t' ≤ (w.bump t).seq t' := by
  by_cases h : t' = t
  · subst h; simp [bump]
  · simp [bump, h]

@[simp] theorem bump_seq_self (t : S.Table) : (w.bump t).seq t = w.seq t + 1 := by
  simp [bump]

end World

/-! ## What one transaction sees -/

/-- What can be locked: a row, or an entry of a unique index. -/
inductive Res (S : Sig) where
  | row (t : S.Table) (id : Nat)
  | key (t : S.Table) (k : S.Key)
  deriving DecidableEq

/-- A world together with the pending writes and the locks of one open transaction. -/
structure Loc (S : Sig) where
  world : World S
  pend : Store S
  held : Set (Res S)

namespace Loc

def start (w : World S) : Loc S := { world := w, pend := Store.empty, held := ∅ }

def view (l : Loc S) : View S :=
  { rows := l.world.db.apply l.pend, seq := l.world.seq, now := l.world.now }

def hold (l : Loc S) (r : Res S) : Loc S := { l with held := insert r l.held }

def write (l : Loc S) (t : S.Table) (id : Nat) (v : S.Row t) : Loc S :=
  { l with pend := l.pend.set t id v, held := insert (Res.row t id) l.held }

def bump (l : Loc S) (t : S.Table) : Loc S := { l with world := l.world.bump t }

def add (l : Loc S) (t : S.Table) (id : Nat) (v : S.Row t) : Loc S :=
  { l with
    pend := l.pend.set t id v
    held := insert (Res.row t id) (l.held ∪ {r | ∃ k ∈ S.keys t v, r = Res.key t k}) }

def commit (l : Loc S) (pid : Nat) (op : S.Op) : World S :=
  { l.world with
    db := l.world.db.apply l.pend
    log := Event.commit pid op l.world.db l.pend :: l.world.log }

variable (l : Loc S)

@[simp] theorem view_rows : l.view.rows = l.world.db.apply l.pend := rfl
@[simp] theorem view_now : l.view.now = l.world.now := rfl
@[simp] theorem write_world (t : S.Table) (id : Nat) (v : S.Row t) :
    (l.write t id v).world = l.world := rfl
@[simp] theorem bump_world (t : S.Table) : (l.bump t).world = l.world.bump t := rfl
@[simp] theorem add_world (t : S.Table) (id : Nat) (v : S.Row t) :
    (l.add t id v).world = l.world := rfl
@[simp] theorem commit_db (pid : Nat) (op : S.Op) :
    (l.commit pid op).db = l.world.db.apply l.pend := rfl
@[simp] theorem commit_seq (pid : Nat) (op : S.Op) : (l.commit pid op).seq = l.world.seq := rfl
@[simp] theorem commit_now (pid : Nat) (op : S.Op) : (l.commit pid op).now = l.world.now := rfl
@[simp] theorem commit_log (pid : Nat) (op : S.Op) :
    (l.commit pid op).log = Event.commit pid op l.world.db l.pend :: l.world.log := rfl

/--
The discipline that every open transaction keeps: ids come from the sequences, committed rows respect
the unique indexes, and what is pending is on locked rows and takes index entries that are its own.
-/
structure WF (l : Loc S) : Prop where
  bounded : ∀ t id v, l.world.db t id = some v → 0 < id ∧ id ≤ l.world.seq t
  unique : ∀ t i j v v' k, l.world.db t i = some v → l.world.db t j = some v' →
    k ∈ S.keys t v → k ∈ S.keys t v' → i = j
  pend_bounded : ∀ t id v, l.pend t id = some v → 0 < id ∧ id ≤ l.world.seq t
  pend_held : ∀ t id v, l.pend t id = some v → Res.row t id ∈ l.held
  held_bounded : ∀ t id, Res.row t id ∈ l.held → id ≤ l.world.seq t
  pend_kept : ∀ t id v v', l.pend t id = some v → l.world.db t id = some v' →
    S.keys t v = S.keys t v'
  pend_fresh : ∀ t id v, l.pend t id = some v → l.world.db t id = none → ∀ k ∈ S.keys t v,
    Res.key t k ∈ l.held ∧ ¬ l.world.db.Occupied t k
  pend_unique : ∀ t i j v v' k, l.pend t i = some v → l.pend t j = some v' →
    l.world.db t i = none → l.world.db t j = none → k ∈ S.keys t v → k ∈ S.keys t v' → i = j

end Loc

end Txn
