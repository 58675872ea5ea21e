import Dogx.Txn.Each
import Dogx.Txn.Trace

/-!
# The account of a process

In every run a process stands where its code stands after what it has been told, and what it has been
told is so: each answer was given in a state that the run has passed, in this order.
-/

namespace Txn

variable {S : Sig} {P : Service S} {C : Contract S} {ms : List (Move S P.Call)} {s s' : Sys S}
  {i : Nat} {told told' : List (Told S)} {p p' q : Proc S Unit} {op : S.Op} {t : Told S}
  {phase : Phase S}

/-! ## Answers -/

def Told.Holds (pid : Nat) (s : Sys S) : Told S → Prop
  | .act a r => .act pid a r ∈ s.world.log
  | .read q (.ok x) => x = q s.world.view
  | .transact label _ (.ok a) => ∃ before writes, .commit pid (label a) before writes ∈ s.world.log
  | .read _ (.error _) | .transact _ _ (.error _) => True

inductive Answered (P : Service S) (pid : Nat) : List (Move S P.Call) → List (Told S) → Prop where
  | nil (ms : List (Move S P.Call)) : Answered P pid ms []
  | snoc {before after : List (Move S P.Call)} {told : List (Told S)} {t : Told S} {s : Sys S}
      (h : Answered P pid before told) (hr : Sys.init.run P before = some s) (ht : t.Holds pid s) :
      Answered P pid (before ++ after) (told ++ [t])

theorem Answered.later (h : Answered P i ms told) (ms' : List (Move S P.Call)) :
    Answered P i (ms ++ ms') told := by
  cases h with
  | nil => exact .nil _
  | snoc h hr ht =>
    rw [List.append_assoc]
    exact .snoc h hr ht

theorem Answered.now (h : Answered P i ms told) (hr : Sys.init.run P ms = some s) (ht : t.Holds i s) :
    Answered P i ms (told ++ [t]) := by
  have hsnoc : Answered P i (ms ++ []) (told ++ [t]) := h.snoc hr ht
  rwa [List.append_nil] at hsnoc

theorem Answered.moment (h : Answered P i ms told) (ht : t ∈ told) :
    ∃ before after s, ms = before ++ after ∧ Sys.init.run P before = some s ∧ t.Holds i s := by
  induction h with
  | nil => cases ht
  | @snoc before after told t' s h hr hholds ih =>
    rcases List.mem_append.mp ht with hmem | hmem
    · obtain ⟨before', after', s', rfl, hr', hholds'⟩ := ih hmem
      exact ⟨before', after' ++ after, s', List.append_assoc .., hr', hholds'⟩
    · cases List.mem_singleton.mp hmem
      exact ⟨before, after, s, rfl, hr, hholds⟩

/-! ## Accounts -/

/-- The transaction is one that the process has opened, or is about to. -/
def Opens (op : S.Op) (told : List (Told S)) (p : Proc S Unit) : Prop :=
  ∃ (α : Type) (label : α → S.Op) (body : Tx S α) (a : α), op = label a ∧
    ((∃ x, .transact label body x ∈ told) ∨ ∃ k, p = .transact label body k)

inductive Stands (pid : Nat) (log : List (Event S)) : Proc S Unit → Phase S → Prop where
  | idle (p : Proc S Unit) : Stands pid log p (.idle p)
  | running {α : Type} (label : α → S.Op) (body body' : Tx S α) (k : Except S.Err α → Proc S Unit) :
      Stands pid log (.transact label body k) (.running label body' k)
  | confirming {α : Type} (label : α → S.Op) (body : Tx S α) (a : α)
      (k : Except S.Err α → Proc S Unit) {before writes : Store S}
      (h : .commit pid (label a) before writes ∈ log) :
      Stands pid log (.transact label body k) (.confirming (label a) a k)

/-- After the run `ms` to the state `s`, process `pid` of the call `c` has been told this, and goes on
as `p`. Its transactions are among those it has opened. -/
structure Account (P : Service S) (ms : List (Move S P.Call)) (s : Sys S) (pid : Nat) (c : P.Call)
    (told : List (Told S)) (p : Proc S Unit) : Prop where
  after : (P.code c).After told p
  answered : Answered P pid ms told
  stands : ∃ phase, s.sessions pid = some ⟨pid, phase⟩ ∧ Stands pid s.world.log p phase
  committed : ∀ op before writes, .commit pid op before writes ∈ s.world.log → Opens op told p
  doubted : ∀ j op, s.sessions j = some ⟨pid, .doubt op⟩ → Opens op told p

/-- The run has made the call `c`, as process `pid`. -/
def Spawned (P : Service S) (ms : List (Move S P.Call)) (pid : Nat) (c : P.Call) : Prop :=
  ∃ before after s, ms = before ++ .spawn c :: after ∧ Sys.init.run P before = some s ∧ s.next = pid

theorem Opens.mono (h : Opens op told p) (htold : ∀ t ∈ told, t ∈ told')
    (hp : ∀ (α : Type) (label : α → S.Op) (body : Tx S α) k, p = .transact label body k →
      (∃ x, .transact label body x ∈ told') ∨ ∃ k, p' = .transact label body k) :
    Opens op told' p' := by
  obtain ⟨α, label, body, a, rfl, ⟨x, hx⟩ | ⟨k, hk⟩⟩ := h
  · exact ⟨α, label, body, a, rfl, .inl ⟨x, htold _ hx⟩⟩
  · exact ⟨α, label, body, a, rfl, hp α label body k hk⟩

theorem Opens.answered (h : Opens op told p) (hq : p.After [t] q) : Opens op (told ++ [t]) q := by
  refine h.mono (fun t ht => List.mem_append_left _ ht) fun α label body k hp => .inl ?_
  subst hp
  cases hq with
  | transact x => exact ⟨x, List.mem_append_right _ List.mem_cons_self⟩

theorem Stands.mono {pid : Nat} {log log' : List (Event S)} (h : Stands pid log p phase)
    (hlog : ∀ e ∈ log, e ∈ log') : Stands pid log' p phase := by
  cases h with
  | idle => exact .idle _
  | running label body body' k => exact .running label body body' k
  | confirming label body a k h => exact .confirming label body a k (hlog _ h)

/-! ## One step -/

section Step

variable {c : P.Call} {m : Move S P.Call}

theorem Account.opens_running {α : Type} {label : α → S.Op} {body : Tx S α}
    {k : Except S.Err α → Proc S Unit} (h : Account P ms s i c told p)
    (hi : s.sessions i = some ⟨i, .running label body k⟩) (a : α) : Opens (label a) told p := by
  obtain ⟨_, hphase, hst⟩ := h.stands
  cases hi.symm.trans hphase
  cases hst with
  | running _ body0 => exact ⟨α, label, body0, a, rfl, .inr ⟨k, rfl⟩⟩

theorem Account.opens_doubt (h : Account P ms s i c told p) (hs : Sound C s)
    (hm : s.step P m = some s') {j : Nat} (hj : s'.sessions j = some ⟨i, .doubt op⟩) :
    Opens op told p := by
  cases hold : s.sessions j with
  | none =>
    rcases hs.newcomer hm hold hj with ⟨c', -, heq⟩ | ⟨j', pid, α, label, a, k, hsid, hj', heq, -, -⟩
    · cases heq
    · cases heq
      have hname := (hs.named j' _ hj').2.2 rfl
      subst hname
      exact h.opens_running hj' a
  | some =>
    by_cases hsid : m.sid = some j
    · -- its own moves do not put a session in doubt
      obtain ⟨ρ, hρ, ho⟩ := Sys.Own.of_step hm hsid
      have put : ∀ {s1 : Sys S} {phase : Phase S} {pid : Nat}, s' = s1.put j ⟨pid, phase⟩ →
          (∀ op, phase ≠ .doubt op) → False := by
        rintro s1 _ _ rfl hne
        cases Sys.put_inj hj
        exact hne _ rfl
      cases ho with
      | exec he =>
        rcases Sys.execTx_cases hs.wf hs.inv (hs.ok j _ hρ).1 he with
          ⟨e, -, rfl⟩ | ⟨body', s1, -, -, rfl⟩
        · exact (put rfl nofun).elim
        · exact (put rfl nofun).elim
      | abandon | settle =>
        cases Sys.drop_self.symm.trans hj
      | _ =>
        exact (put rfl nofun).elim
    · have haside := (hs.aside hm hold hsid).session
      cases haside.symm.trans hj
      exact h.doubted j op hold

/-- A process commits only what it has opened. -/
theorem Account.opens_commit (h : Account P ms s i c told p) (hs : Sound C s)
    (hm : s.step P m = some s') {before writes : Store S}
    (hcommit : .commit i op before writes ∈ s'.world.log) : Opens op told p := by
  cases hs.news hm with
  | silent hlog => exact h.committed op before writes (hlog ▸ hcommit)
  | event hlog other =>
    rw [hlog] at hcommit
    rcases List.mem_cons.mp hcommit with heq | hmem
    · exact absurd heq.symm (other _ _ _ _)
    · exact h.committed op before writes hmem
  | @commit j σ _ hj _ hphase hlog =>
    rw [hlog] at hcommit
    rcases List.mem_cons.mp hcommit with heq | hmem
    · cases heq
      obtain ⟨_, _⟩ := σ
      rcases hphase with hphase | ⟨_, _, a, _, hphase, rfl⟩
      · cases hphase
        exact h.doubted j _ hj
      · cases hphase
        have hname := (hs.named j _ hj).2.2 rfl
        subst hname
        exact h.opens_running hj a
    · exact h.committed op before writes hmem

theorem Account.spawned (hs : Sound C s) (hm : s.step P (.spawn c) = some s') :
    Account P (ms ++ [.spawn c]) s' s.next c [] (P.code c) := by
  obtain ⟨-, hm⟩ := Option.ite_none_right_eq_some.mp hm
  cases hm
  refine ⟨.here _, .nil _, ⟨_, Sys.put_self _, .idle _⟩, fun op before writes hcommit => ?_,
    fun j op hj => ?_⟩
  · exact absurd (hs.logged _ hcommit) (Nat.lt_irrefl _)
  · by_cases hne : j = s.next
    · subst hne
      cases Sys.put_inj hj
    · rw [Sys.put_ne _ hne] at hj
      exact absurd (hs.named j _ hj).1 (Nat.lt_irrefl _)

variable (h : Account P ms s i c told p)
include h

theorem Account.stay (hs : Sound C s) (hm : s.step P m = some s')
    (hi : s'.sessions i = some ⟨i, phase⟩) (hst : Stands i s'.world.log p phase) :
    Account P (ms ++ [m]) s' i c told p where
  after := h.after
  answered := h.answered.later [m]
  stands := ⟨phase, hi, hst⟩
  committed _ _ _ hcommit := h.opens_commit hs hm hcommit
  doubted _ _ hj := h.opens_doubt hs hm hj

theorem Account.told_next (hs : Sound C s) (hm : s.step P m = some s') (hq : p.After [t] q)
    (hans : Answered P i (ms ++ [m]) (told ++ [t])) (hi : s'.sessions i = some ⟨i, .idle q⟩) :
    Account P (ms ++ [m]) s' i c (told ++ [t]) q where
  after := h.after.trans hq
  answered := hans
  stands := ⟨_, hi, .idle q⟩
  committed _ _ _ hcommit := (h.opens_commit hs hm hcommit).answered hq
  doubted _ _ hj := (h.opens_doubt hs hm hj).answered hq

/-- One move leads from account to account. -/
theorem Account.step (hr : Sys.init.run P ms = some s) (hs : Sound C s)
    (hlog : ∀ e ∈ s.world.log, e ∈ s'.world.log) (hm : s.step P m = some s') :
    ∃ told' p', Account P (ms ++ [m]) s' i c told' p' := by
  have hr' : Sys.init.run P (ms ++ [m]) = some s' := Sys.run_snoc.mpr ⟨s, hr, hm⟩
  obtain ⟨_, hi, hst⟩ := h.stands
  by_cases hsid : m.sid = some i
  · obtain ⟨ρ, hρ, ho⟩ := Sys.Own.of_step hm hsid
    cases hi.symm.trans hρ
    -- an error is an answer of which nothing is to be shown
    have failed : ∀ {t : Told S} {q : Proc S Unit}, p.After [t] q → t.Holds i s →
        s'.sessions i = some ⟨i, .idle q⟩ → ∃ told' p', Account P (ms ++ [m]) s' i c told' p' :=
      fun hq ht hi' => ⟨_, _, h.told_next hs hm hq (h.answered.snoc hr ht) hi'⟩
    cases ho with
    | begin _ label body k =>
      cases hst
      exact ⟨told, _, h.stay hs hm (Sys.put_self _) (.running label body body k)⟩
    | @exec _ _ label body' k _ he =>
      cases hst with
      | running _ body =>
        rcases Sys.execTx_cases hs.wf hs.inv (hs.ok i _ hi).1 he with
          ⟨e, -, rfl⟩ | ⟨body'', s1, -, -, rfl⟩
        · exact failed (.transact (.error e) (.here _)) trivial (Sys.put_self _)
        · exact ⟨told, _, h.stay hs hm (Sys.put_self _) (.running label body body'' k)⟩
    | read _ q =>
      cases hst
      exact failed (.read (.ok (q s.world.view)) (.here _)) rfl (Sys.put_self _)
    | unread _ q k f =>
      cases hst
      exact failed (.read (.error (S.fault f)) (.here _)) trivial (Sys.put_self _)
    | act _ a k r =>
      cases hst
      refine ⟨_, _, h.told_next hs hm (.act r (.here _))
        ((h.answered.later [m]).now hr' ?_) (Sys.put_self _)⟩
      exact List.mem_cons_self
    | ask _ label a k' k r =>
      cases hst with
      | running _ body =>
        exact ⟨told, _, h.stay hs hm (Sys.put_self _) (.running label body (k' r) k)⟩
    | undo _ _ _ k f | detach _ _ a k f | lose _ _ a k f =>
      cases hst
      exact failed (.transact (.error (S.fault f)) (.here _)) trivial (Sys.put_self _)
    | commit _ label a k =>
      cases hst with
      | running _ body =>
        exact ⟨told, _, h.stay hs hm (Sys.put_self _)
          (.confirming label body a k List.mem_cons_self)⟩
    | confirm _ _ a =>
      cases hst with
      | confirming _ _ _ _ hcommit =>
        exact failed (.transact (.ok a) (.here _)) ⟨_, _, hcommit⟩ (Sys.put_self _)
    | abandon | settle => cases hst
  · have haside := (hs.aside hm hi hsid).session
    exact ⟨told, p, h.stay hs hm haside (hst.mono hlog)⟩

end Step

/-! ## Runs -/

/-- **What a process of a run was told is so.** -/
theorem account_of_run (hinit : C.Inv World.init) (hK : C.Kept) (hP : P.Keeps C) {c : P.Call}
    (hr : Sys.init.run P ms = some s) (hc : Spawned P ms i c) :
    ∃ told p, Account P ms s i c told p := by
  obtain ⟨_, after, _, rfl, hr0, rfl⟩ := hc
  have hs0 := ((Sound.init hinit).run hK hP hr0).1
  induction after using List.reverseRecOn generalizing s with
  | nil =>
    obtain ⟨_, hr, hm⟩ := Sys.run_snoc.mp hr
    cases hr0.symm.trans hr
    exact ⟨[], P.code c, .spawned hs0 hm⟩
  | append_singleton _ m ih =>
    rw [← List.cons_append, ← List.append_assoc] at hr
    obtain ⟨_, hr1, hm⟩ := Sys.run_snoc.mp hr
    have hs1 := ((Sound.init hinit).run hK hP hr1).1
    obtain ⟨_, p, h⟩ := ih hr1
    rw [← List.cons_append, ← List.append_assoc]
    exact h.step hr1 hs1 (fun e he => (hs1.step hK hP hm).2.mem_log he) hm

end Txn
