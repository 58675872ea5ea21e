import Dogx.Txn.System

/-!
# What a move does

`Sys.Own` lists what a session can make of the state by a move of its own, and from where. Every
argument about moves is a case split over it.
-/

namespace Txn

variable {S : Sig} {P : Service S} {s s' : Sys S} {i : Nat} {m : Move S P.Call}

def Move.sid {K : Type} : Move S K → Option Nat
  | .tick _ | .spawn _ => none
  | .begin i | .exec i | .reply i _ _ | .fail i _ | .commit i | .confirm i | .lose i _ => some i

inductive Sys.Own (s : Sys S) (i : Nat) : Session S → Sys S → Prop where
  | begin {α : Type} (pid : Nat) (label : α → S.Op) (body : Tx S α) (k : Except S.Err α → Proc S Unit) :
      Own s i ⟨pid, .idle (.transact label body k)⟩ (s.put i ⟨pid, .running label body k⟩)
  | exec {α : Type} {pid : Nat} {label : α → S.Op} {body : Tx S α} {k : Except S.Err α → Proc S Unit}
      {s' : Sys S} (he : s.execTx i pid label k body = some s') :
      Own s i ⟨pid, .running label body k⟩ s'
  | read {α : Type} (pid : Nat) (q : View S → α) (k : Except S.Err α → Proc S Unit) :
      Own s i ⟨pid, .idle (.read q k)⟩ (s.put i ⟨pid, .idle (k (.ok (q s.world.view)))⟩)
  | unread {α : Type} (pid : Nat) (q : View S → α) (k : Except S.Err α → Proc S Unit) (f : S.Fault) :
      Own s i ⟨pid, .idle (.read q k)⟩ (s.put i ⟨pid, .idle (k (.error (S.fault f)))⟩)
  | act (pid : Nat) (a : S.Act) (k : S.Reply a → Proc S Unit) (r : S.Reply a) :
      Own s i ⟨pid, .idle (.act a k)⟩
        (Sys.put { s with world := s.world.record (.act pid a r) } i ⟨pid, .idle (k r)⟩)
  | ask {α : Type} (pid : Nat) (label : α → S.Op) (a : S.Act) (k' : S.Reply a → Tx S α)
      (k : Except S.Err α → Proc S Unit) (r : S.Reply a) :
      Own s i ⟨pid, .running label (.ask a k') k⟩
        (Sys.put { s with world := s.world.record (.act pid a r) } i ⟨pid, .running label (k' r) k⟩)
  | undo {α : Type} (pid : Nat) (label : α → S.Op) (body : Tx S α) (k : Except S.Err α → Proc S Unit)
      (f : S.Fault) : Own s i ⟨pid, .running label body k⟩
        ((s.release i).put i ⟨pid, .idle (k (.error (S.fault f)))⟩)
  | abandon (pid : Nat) (op : S.Op) : Own s i ⟨pid, .doubt op⟩ ((s.release i).drop i)
  | commit {α : Type} (pid : Nat) (label : α → S.Op) (a : α) (k : Except S.Err α → Proc S Unit) :
      Own s i ⟨pid, .running label (.ret a) k⟩
        ((s.apply i pid (label a)).put i ⟨pid, .confirming (label a) a k⟩)
  | settle (pid : Nat) (op : S.Op) : Own s i ⟨pid, .doubt op⟩ ((s.apply i pid op).drop i)
  | confirm {α : Type} (pid : Nat) (op : S.Op) (a : α) (k : Except S.Err α → Proc S Unit) :
      Own s i ⟨pid, .confirming op a k⟩ (s.put i ⟨pid, .idle (k (.ok a))⟩)
  | detach {α : Type} (pid : Nat) (label : α → S.Op) (a : α) (k : Except S.Err α → Proc S Unit)
      (f : S.Fault) : Own s i ⟨pid, .running label (.ret a) k⟩
        ((s.detach i pid (label a)).put i ⟨pid, .idle (k (.error (S.fault f)))⟩)
  | lose {α : Type} (pid : Nat) (op : S.Op) (a : α) (k : Except S.Err α → Proc S Unit) (f : S.Fault) :
      Own s i ⟨pid, .confirming op a k⟩
        (Sys.put { s with world := s.world.record (.lost pid op) } i ⟨pid, .idle (k (.error (S.fault f)))⟩)

/-- Every move of a session is one of the cases. -/
theorem Sys.Own.of_step (hm : s.step P m = some s') (hsid : m.sid = some i) :
    ∃ σ, s.sessions i = some σ ∧ s.Own i σ s' := by
  cases m with
  | tick | spawn => cases hsid
  | begin =>
    cases hsid
    simp only [Sys.step] at hm
    split at hm <;> cases hm
    exact ⟨_, ‹_›, .begin ..⟩
  | exec =>
    cases hsid
    simp only [Sys.step, Sys.exec] at hm
    split at hm
    · exact ⟨_, ‹_›, .exec hm⟩
    · cases hm
      exact ⟨_, ‹_›, .read ..⟩
    · cases hm
  | reply =>
    cases hsid
    simp only [Sys.step, Sys.reply] at hm
    split at hm
    · obtain ⟨rfl, hm⟩ := Option.dite_none_right_eq_some.mp hm
      cases hm
      exact ⟨_, ‹_›, .act ..⟩
    · obtain ⟨rfl, hm⟩ := Option.dite_none_right_eq_some.mp hm
      cases hm
      exact ⟨_, ‹_›, .ask ..⟩
    · cases hm
  | fail =>
    cases hsid
    simp only [Sys.step, Sys.fail] at hm
    split at hm <;> cases hm
    · exact ⟨_, ‹_›, .unread ..⟩
    · exact ⟨_, ‹_›, .undo ..⟩
    · exact ⟨_, ‹_›, .abandon ..⟩
  | commit =>
    cases hsid
    simp only [Sys.step, Sys.commit] at hm
    split at hm <;> cases hm
    · exact ⟨_, ‹_›, .commit ..⟩
    · exact ⟨_, ‹_›, .settle ..⟩
  | confirm =>
    cases hsid
    simp only [Sys.step] at hm
    split at hm <;> cases hm
    exact ⟨_, ‹_›, .confirm ..⟩
  | lose =>
    cases hsid
    simp only [Sys.step, Sys.lose] at hm
    split at hm <;> cases hm
    · exact ⟨_, ‹_›, .detach ..⟩
    · exact ⟨_, ‹_›, .lose ..⟩

theorem Sys.step_select {α β : Type} {pid : Nat} {label : α → S.Op} {q : View S → β}
    {k' : β → Tx S α} {k : Except S.Err α → Proc S Unit} (hm : s.step P m = some s')
    (hsid : m.sid = some i) (hi : s.sessions i = some ⟨pid, .running label (.select q k') k⟩) :
    (m = .exec i ∧ s' = s.put i ⟨pid, .running label (k' (q (s.view i))) k⟩) ∨
      ∃ f, s' = (s.release i).put i ⟨pid, .idle (k (.error (S.fault f)))⟩ := by
  cases m with
  | tick | spawn => cases hsid
  | exec =>
    cases hsid
    simp only [Sys.step, Sys.exec, hi, Sys.execTx, Option.some.injEq] at hm
    exact .inl ⟨rfl, hm.symm⟩
  | fail j f =>
    cases hsid
    simp only [Sys.step, Sys.fail, hi, Option.some.injEq] at hm
    exact .inr ⟨f, hm.symm⟩
  | begin j | confirm j | commit j | reply j | lose j =>
    cases hsid
    simp [Sys.step, Sys.commit, Sys.reply, Sys.lose, hi] at hm

end Txn
