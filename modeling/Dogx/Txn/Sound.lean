import Dogx.Txn.System
import Dogx.Txn.Discipline

/-!
# States within the contract

`Evolves` is the abstract system: the world changes by whole commits, interactions, the clock and
the sequences, and each of them is as the contract says. There are no open transactions in it and
no locks.

`Sound` says of a state of the interleaved system that every session keeps the contract from
there on. The rest of this file reduces a move to what it does to the one session that makes it.
-/

namespace Txn

variable {S : Sig} {C : Contract S} {s s' : Sys S} {σ τ : Session S} {i j : Nat}

/-! ## The abstract system -/

inductive Evolves (C : Contract S) : World S → World S → Prop where
  | commit {pid : Nat} {op : S.Op} {l : Loc S} (wf : l.WF) (ok : C.Commits pid op l) :
      Evolves C l.world (l.commit pid op)
  | act {w : World S} {pid : Nat} {a : S.Act} {r : S.Reply a} (ok : C.Acts pid a r w) :
      Evolves C w (w.record (.act pid a r))
  | lost (w : World S) (pid : Nat) (op : S.Op) : Evolves C w (w.record (.lost pid op))
  | tick (w : World S) (d : Nat) : Evolves C w (w.tick d)
  | bump (w : World S) (t : S.Table) : Evolves C w (w.bump t)

def Contract.Kept (C : Contract S) : Prop := ∀ w w', Evolves C w w' → C.Inv w → C.Inv w'

def Evolution (C : Contract S) : World S → World S → Prop := Relation.ReflTransGen (Evolves C)

namespace Evolution

variable {w w' w'' : World S}

theorem refl : Evolution C w w := Relation.ReflTransGen.refl

theorem single (h : Evolves C w w') : Evolution C w w' := Relation.ReflTransGen.single h

theorem trans (h : Evolution C w w') (h' : Evolution C w' w'') : Evolution C w w'' :=
  Relation.ReflTransGen.trans h h'

/-- The invariant rule. -/
theorem preserves {P : World S → Prop} (hstep : ∀ w w', Evolves C w w' → P w → P w')
    (h : Evolution C w w') (hP : P w) : P w' := by
  induction h with
  | refl => exact hP
  | tail _ hs ih => exact hstep _ _ hs ih

/-- The invariant rule, for a property of how the world has changed since the start. -/
theorem relates {R : World S → World S → Prop} (hrefl : ∀ w, R w w)
    (htrans : ∀ {a b c}, R a b → R b c → R a c) (hstep : ∀ w w', Evolves C w w' → R w w')
    (h : Evolution C w w') : R w w' := by
  induction h with
  | refl => exact hrefl _
  | tail _ hs ih => exact htrans ih (hstep _ _ hs)

theorem mem_log {e : Event S} (h : Evolution C w w') (he : e ∈ w.log) : e ∈ w'.log := by
  refine h.preserves (P := fun w => e ∈ w.log) ?_ he
  intro a b hs hmem
  cases hs <;> simp [hmem]

end Evolution

/-! ## Sessions within the contract -/

namespace Session

def away (σ : Session S) : Bool :=
  match σ.phase with
  | .doubt _ => true
  | _ => false

def InTx (σ : Session S) : Prop :=
  match σ.phase with
  | .running _ _ _ => True
  | .doubt _ => True
  | _ => False

def OK (C : Contract S) (σ : Session S) (l : Loc S) : Prop :=
  match σ.phase with
  | .idle p => p.wp C σ.pid (fun _ _ => True) l.world
  | .running label body k =>
    body.wp C σ.pid (fun a l => Ready C σ.pid (label a) ((k (.ok a)).wp C σ.pid fun _ _ => True)
        (fun w => ∀ f, (k (.error (S.fault f))).wp C σ.pid (fun _ _ => True) w) l)
      (fun e w => (k (.error e)).wp C σ.pid (fun _ _ => True) w) l ∧
    (∀ w, Rely C σ.pid false ∅ l.world w → ∀ f,
      (k (.error (S.fault f))).wp C σ.pid (fun _ _ => True) w) ∧
    ∀ w, Rely C σ.pid false ∅ l.world w → ∀ f a,
      (k (.error (S.fault f))).wp C σ.pid (fun _ _ => True) (w.record (.lost σ.pid (label a)))
  | .confirming op a k =>
    (k (.ok a)).wp C σ.pid (fun _ _ => True) l.world ∧
    ∀ w, Rely C σ.pid false ∅ l.world w → ∀ f,
      (k (.error (S.fault f))).wp C σ.pid (fun _ _ => True) (w.record (.lost σ.pid op))
  | .doubt op => Settled C σ.pid op l

theorem OK.rely {l : Loc S} {w : World S} (h : σ.OK C l) (hw : Rely C σ.pid σ.away l.held l.world w) :
    σ.OK C (l.on w) := by
  obtain ⟨_, phase⟩ := σ
  cases phase with
  | idle => exact Proc.wp_rely h hw.nothing
  | running =>
    obtain ⟨h1, h2, h3⟩ := h
    exact ⟨Tx.wp_rely h1 hw, fun w' hw' => h2 w' (hw.nothing.trans hw'),
      fun w' hw' => h3 w' (hw.nothing.trans hw')⟩
  | confirming =>
    obtain ⟨h1, h2⟩ := h
    exact ⟨Proc.wp_rely h1 hw.nothing, fun w' hw' => h2 w' (hw.nothing.trans hw')⟩
  | doubt => exact fun w' hw' hwf hinv => h w' (hw.trans hw') hwf hinv

end Session

/-- A committed state that a service can be started on. -/
structure Contract.Sane (C : Contract S) (w : World S) : Prop where
  wf : (Loc.start w).WF
  inv : C.Inv w
  unlogged : w.log = []

theorem Contract.Sane.init (hinit : C.Inv World.init) : C.Sane World.init :=
  ⟨Loc.WF.init, hinit, rfl⟩

structure Sound (C : Contract S) (s : Sys S) : Prop where
  inv : C.Inv s.world
  wf : ∀ i, (s.loc i).WF
  fresh : ∀ i, s.next ≤ i → s.sessions i = none
  quiet : ∀ i, (∀ σ, s.sessions i = some σ → ¬ σ.InTx) →
    s.pend i = Store.empty ∧ ∀ r, s.locks r ≠ some i
  named : ∀ i σ, s.sessions i = some σ → σ.pid < s.next ∧
    (σ.away = true → s.world.Lost σ.pid) ∧ (σ.away = false → σ.pid = i)
  logged : ∀ e ∈ s.world.log, e.pid < s.next
  ok : ∀ i σ, s.sessions i = some σ → σ.OK C (s.loc i)

namespace Sound

theorem atRest {w : World S} (h : C.Sane w) : Sound C (Sys.atRest w) where
  inv := h.inv
  wf := fun _ => by
    constructor
    · exact h.wf.bounded
    · exact h.wf.unique
    all_goals simp [Sys.atRest, Sys.loc]
  fresh := fun _ _ => rfl
  quiet := fun _ _ => ⟨rfl, fun _ => by simp [Sys.atRest]⟩
  named := fun i σ h => by simp [Sys.atRest] at h
  logged := fun e he => by simp [Sys.atRest, h.unlogged] at he
  ok := fun i σ h => by simp [Sys.atRest] at h

theorem init (hinit : C.Inv World.init) : Sound C (Sys.init : Sys S) := .atRest (.init hinit)

theorem lt_next (h : Sound C s) (hi : s.sessions i = some σ) : i < s.next := by
  by_contra hn
  rw [h.fresh i (by omega)] at hi
  simp at hi

/-- Two sessions of one process: one of them was left behind, after an unconfirmed commit. -/
theorem lost_of_same_pid (h : Sound C s) (hne : i ≠ j) (hi : s.sessions i = some σ)
    (hj : s.sessions j = some τ) (hp : σ.pid = τ.pid) : s.world.Lost τ.pid := by
  cases ha : σ.away with
  | true => rw [← hp]; exact (h.named i σ hi).2.1 ha
  | false =>
    cases hb : τ.away with
    | true => exact (h.named j τ hj).2.1 hb
    | false =>
      have h1 := (h.named i σ hi).2.2 ha
      have h2 := (h.named j τ hj).2.2 hb
      exact absurd (by rw [← h1, ← h2, hp]) hne

/-- Whoever interacts is the process itself; to any other session it is somebody else. -/
theorem stranger (h : Sound C s) (hne : i ≠ j) (hi : s.sessions i = some σ) (ha : σ.away = false)
    (hj : s.sessions j = some τ) : σ.pid ≠ τ.pid ∨ (τ.away = true ∧ s.world.Lost τ.pid) := by
  by_cases hp : σ.pid = τ.pid
  · cases hb : τ.away with
    | true => exact Or.inr ⟨rfl, (h.named j τ hj).2.1 hb⟩
    | false =>
      have h1 := (h.named i σ hi).2.2 ha
      have h2 := (h.named j τ hj).2.2 hb
      exact absurd (by rw [← h1, ← h2, hp]) hne
  · exact Or.inl hp

theorem held_disjoint (hne : i ≠ j) : Disjoint (s.loc i).held (s.loc j).held := by
  rw [Set.disjoint_left]
  intro r h1 h2
  have e1 : s.locks r = some i := h1
  have e2 : s.locks r = some j := h2
  rw [e1] at e2
  exact hne (Option.some.inj e2)

/-! ## One session at a time -/

def Bearable (C : Contract S) (s : Sys S) (i : Nat) (w : World S) : Prop :=
  ∀ j, j ≠ i → ((s.loc j).on w).WF ∧
    ∀ τ, s.sessions j = some τ → Rely C τ.pid τ.away (s.loc j).held s.world w

variable (h : Sound C s)
include h

theorem bearable_refl (i : Nat) : Bearable C s i s.world :=
  fun j _ => ⟨h.wf j, fun _ _ => .refl⟩

theorem bearable_bump (i : Nat) (t : S.Table) : Bearable C s i (s.world.bump t) :=
  fun j _ => ⟨(h.wf j).bump t, fun _ _ => .single (.bump _ t)⟩

variable (hi : s.sessions i = some σ)
include hi

theorem bearable_act (ha : σ.away = false) {a : S.Act} {r : S.Reply a}
    (hok : C.Acts σ.pid a r s.world) : Bearable C s i (s.world.record (.act σ.pid a r)) :=
  fun j hj => ⟨(h.wf j).record _, fun _ hτ =>
    .single (.act hok (h.stranger (Ne.symm hj) hi ha hτ))⟩

theorem bearable_lost (ha : σ.away = false) (op : S.Op) :
    Bearable C s i (s.world.record (.lost σ.pid op)) :=
  fun j hj => ⟨(h.wf j).record _, fun _ hτ =>
    .single (.lost ((h.stranger (Ne.symm hj) hi ha hτ).imp_right And.left))⟩

theorem bearable_commit {op : S.Op} (hok : C.Commits σ.pid op (s.loc i)) :
    Bearable C s i ((s.loc i).commit σ.pid op) := by
  intro j hj
  have hdisj : Disjoint (s.loc i).held (s.loc j).held := held_disjoint (Ne.symm hj)
  refine ⟨(h.wf j).commit_other (h.wf i) rfl hdisj σ.pid op, fun τ hτ => ?_⟩
  have hwho : σ.pid ≠ τ.pid ∨ (s.loc i).world.Lost τ.pid := by
    by_cases hp : σ.pid = τ.pid
    · exact Or.inr (h.lost_of_same_pid (Ne.symm hj) hi hτ hp)
    · exact Or.inl hp
  exact .single (.commit (h.wf i) h.inv hok hdisj hwho)

/-- A move of session `i` keeps the system sound, if the others can bear it. -/
theorem change (hinv : C.Inv s'.world) (hnext : s'.next = s.next)
    (hsess : ∀ j, j ≠ i → s'.sessions j = s.sessions j)
    (hloc : ∀ j, j ≠ i → s'.loc j = (s.loc j).on s'.world) (hworld : Bearable C s i s'.world)
    (hlog : ∀ e ∈ s'.world.log, e ∈ s.world.log ∨ e.pid = σ.pid)
    (hkeep : ∀ e ∈ s.world.log, e ∈ s'.world.log) (hwf : (s'.loc i).WF)
    (hquiet : (∀ τ, s'.sessions i = some τ → ¬ τ.InTx) →
      s'.pend i = Store.empty ∧ ∀ r, s'.locks r ≠ some i)
    (hself : ∀ τ, s'.sessions i = some τ → τ.pid = σ.pid ∧ τ.away = σ.away ∧ τ.OK C (s'.loc i)) :
    Sound C s' where
  inv := hinv
  wf := fun j => by
    by_cases hj : j = i
    · rw [hj]; exact hwf
    · rw [hloc j hj]; exact (hworld j hj).1
  fresh := fun j hj => by
    have hne : j ≠ i := by
      have := h.lt_next hi
      omega
    rw [hsess j hne]
    exact h.fresh j (by omega)
  quiet := fun j hj => by
    by_cases hne : j = i
    · rw [hne]; exact hquiet (hne.symm ▸ hj)
    · obtain ⟨h1, h2⟩ := h.quiet j (by rw [← hsess j hne]; exact hj)
      have hl := hloc j hne
      refine ⟨?_, fun r hr => ?_⟩
      · have hp : (s'.loc j).pend = (s.loc j).pend := hl ▸ rfl
        exact hp.trans h1
      · have hh : (s'.loc j).held = (s.loc j).held := hl ▸ rfl
        have hm : r ∈ (s'.loc j).held := hr
        rw [hh] at hm
        exact h2 r hm
  named := fun j τ hτ => by
    have hlost : ∀ p, s.world.Lost p → s'.world.Lost p := fun p ⟨op, hop⟩ => ⟨op, hkeep _ hop⟩
    by_cases hj : j = i
    · subst hj
      obtain ⟨h1, h2, h3⟩ := h.named j σ hi
      obtain ⟨e1, e2, _⟩ := hself τ hτ
      rw [e1, e2, hnext]
      exact ⟨h1, fun ha => hlost _ (h2 ha), h3⟩
    · rw [hsess j hj] at hτ
      obtain ⟨h1, h2, h3⟩ := h.named j τ hτ
      rw [hnext]
      exact ⟨h1, fun ha => hlost _ (h2 ha), h3⟩
  logged := fun e he => by
    rw [hnext]
    rcases hlog e he with hmem | hp
    · exact h.logged e hmem
    · rw [hp]; exact (h.named i σ hi).1
  ok := fun j τ hτ => by
    by_cases hj : j = i
    · subst hj; exact (hself τ hτ).2.2
    · rw [hloc j hj]
      rw [hsess j hj] at hτ
      exact (h.ok j τ hτ).rely ((hworld j hj).2 τ hτ)

end Sound

end Txn
