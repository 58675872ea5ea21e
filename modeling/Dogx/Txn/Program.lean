import Dogx.Txn.Store

/-!
# Programs over the store

Two layers of program trees, both built with `do`.

A tree holds the rest of the program as a function of what the statement returned, so that a
process can be suspended between any two statements. A technical failure of a statement is not
a branch of the tree: the system may cut a transaction off at any point, which is what returning
the error of every statement amounts to. What the code itself rejects is a `throw`.
-/

namespace Txn

variable {S : Sig} {α β γ : Type}

/-! ## Statements -/

/-- What a locking read returns. Without a row there is nothing to lock. -/
inductive Locked (ρ : Type) where
  | busy
  | row (r : Option ρ)

inductive Verdict (ρ : Type) where
  /-- The row does not satisfy the condition. -/
  | skip
  /-- An expression of the statement fails, and the statement with it. -/
  | raise
  | set (new : ρ)

/--
The body of a transaction.

* `select` — a plain query over one statement snapshot
* `lock` — a locking read by primary key; with `nowait` a taken lock is reported, not waited for
* `update` — a conditional update by primary key; the condition sees the current row
* `insert` — a new row with the next id; `none` when a unique index already has one of its keys
* `ask` — a value of the surroundings, kept in the history
-/
inductive Tx (S : Sig) (α : Type) : Type 1 where
  | ret (a : α)
  | throw (e : S.Err)
  | select {β : Type} (q : View S → β) (k : β → Tx S α)
  | lock (t : S.Table) (id : Nat) (nowait : Bool) (k : Locked (S.Row t) → Tx S α)
  | update (t : S.Table) (id : Nat) (f : View S → S.Row t → Verdict (S.Row t))
      (k : Option (S.Row t) → Tx S α)
  | insert (t : S.Table) (row : Nat → S.Row t) (k : Option Nat → Tx S α)
  | ask (a : S.Act) (k : S.Reply a → Tx S α)

namespace Tx

def bind : Tx S α → (α → Tx S β) → Tx S β
  | ret a, f => f a
  | throw e, _ => throw e
  | select q k, f => select q fun x => (k x).bind f
  | lock t id nowait k, f => lock t id nowait fun x => (k x).bind f
  | update t id g k, f => update t id g fun x => (k x).bind f
  | insert t row k, f => insert t row fun x => (k x).bind f
  | ask a k, f => ask a fun x => (k x).bind f

instance : Monad (Tx S) where
  pure := ret
  bind := bind

def query (q : View S → β) : Tx S β := select q ret

def lockRow (t : S.Table) (id : Nat) (nowait : Bool) : Tx S (Locked (S.Row t)) :=
  lock t id nowait ret

def updateRow (t : S.Table) (id : Nat) (f : View S → S.Row t → Verdict (S.Row t)) :
    Tx S (Option (S.Row t)) :=
  update t id f ret

def insertRow (t : S.Table) (row : Nat → S.Row t) : Tx S (Option Nat) := insert t row ret

def input (a : S.Act) : Tx S (S.Reply a) := ask a ret

@[simp] theorem pure_eq (a : α) : (pure a : Tx S α) = ret a := rfl
@[simp] theorem ret_bind (a : α) (f : α → Tx S β) : (ret a).bind f = f a := rfl

end Tx

/-! ## Processes -/

/--
A process around its transactions.

* `act` — an interaction with the outside, kept in the history
* `read` — a query on its own, outside any transaction
* `transact` — a transaction: either its confirmed result or an error, which says nothing about
  whether it took effect. `label` names it in the history once it has.
-/
inductive Proc (S : Sig) (β : Type) : Type 1 where
  | ret (b : β)
  | act (a : S.Act) (k : S.Reply a → Proc S β)
  | read {γ : Type} (q : View S → γ) (k : Except S.Err γ → Proc S β)
  | transact {α : Type} (label : α → S.Op) (body : Tx S α) (k : Except S.Err α → Proc S β)

namespace Proc

def bind : Proc S β → (β → Proc S γ) → Proc S γ
  | ret b, f => f b
  | act a k, f => act a fun x => (k x).bind f
  | read q k, f => read q fun x => (k x).bind f
  | transact label body k, f => transact label body fun x => (k x).bind f

instance : Monad (Proc S) where
  pure := ret
  bind := bind

def perform (a : S.Act) : Proc S (S.Reply a) := act a ret

def query (q : View S → γ) : Proc S (Except S.Err γ) := read q ret

def run (label : α → S.Op) (body : Tx S α) : Proc S (Except S.Err α) := transact label body ret

@[simp] theorem pure_eq (b : β) : (pure b : Proc S β) = ret b := rfl
@[simp] theorem ret_bind (b : β) (f : β → Proc S γ) : (ret b).bind f = f b := rfl

end Proc

end Txn
