import Dogx.Txn.Follow

/-!
# Every transaction of a process

`Proc.Each P`: whatever a process is told, each transaction that it opens is as `P` says, of its
label and its body. What holds of each transaction of each call holds of each transaction of a run:
`Sound.everybody` is the invariant rule for what is said of every session.
-/

namespace Txn

variable {S : Sig} {β γ α : Type} {T T' : (α : Type) → (α → S.Op) → Tx S α → Prop} {p : Proc S β}
  {label : α → S.Op} {body : Tx S α} {σ σ' : Session S}

namespace Proc

def Each (T : (α : Type) → (α → S.Op) → Tx S α → Prop) : Proc S β → Prop
  | .ret _ => True
  | .act _ k => ∀ r, (k r).Each T
  | .read _ k => ∀ x, (k x).Each T
  | .transact label body k => T _ label body ∧ ∀ x, (k x).Each T

theorem Each.bind {f : β → Proc S γ} (hp : p.Each T) (hf : ∀ b, (f b).Each T) :
    (p >>= f).Each T := by
  induction p with
  | ret b => exact hf b
  | act a k ih => exact fun r => ih r (hp r)
  | read q k ih => exact fun x => ih x (hp x)
  | transact _ _ k ih => exact ⟨hp.1, fun x => ih x (hp.2 x)⟩

theorem Each.mono (hT : ∀ α label body, T α label body → T' α label body) (h : p.Each T) :
    p.Each T' := by
  induction p with
  | ret => trivial
  | act a k ih => exact fun r => ih r (h r)
  | read q k ih => exact fun x => ih x (h x)
  | transact _ _ k ih => exact ⟨hT _ _ _ h.1, fun x => ih x (h.2 x)⟩

theorem Each.pure (b : β) : (pure b : Proc S β).Each T := trivial

theorem Each.perform (a : S.Act) : (perform a : Proc S (S.Reply a)).Each T := fun _ => trivial

theorem Each.query (q : View S → γ) : (query q : Proc S (Except S.Err γ)).Each T := fun _ => trivial

theorem Each.run (h : T α label body) : (run label body).Each T :=
  ⟨h, fun _ => trivial⟩

end Proc

def Session.Each (T : (α : Type) → (α → S.Op) → Tx S α → Prop) (σ : Session S) : Prop :=
  match σ.phase with
  | .idle p => p.Each T
  | .running _ _ k => ∀ x, (k x).Each T
  | .confirming _ _ k => ∀ x, (k x).Each T
  | .doubt _ => True

theorem Session.Each.mono (hT : ∀ α label body, T α label body → T' α label body) (h : σ.Each T) :
    σ.Each T' := by
  obtain ⟨_, phase⟩ := σ
  cases phase with
  | idle => exact Proc.Each.mono hT h
  | running | confirming => exact fun x => Proc.Each.mono hT (h x)
  | doubt => trivial

variable {C : Contract S} {P : Service S} {s s' : Sys S} {i : Nat} {m : Move S P.Call}

/-- A move of the session opens only transactions with `T`. -/
theorem Session.Each.own (h : Sound C s) (hσ : s.sessions i = some σ) (hT : σ.Each T)
    (hm : s.step P m = some s') (hsid : m.sid = some i) (hσ' : s'.sessions i = some σ') :
    σ'.Each T := by
  have put : ∀ {s1 : Sys S} {τ : Session S}, (s1.put i τ).sessions i = some σ' → τ.Each T → σ'.Each T := by
    intro s1 τ hτ hT
    cases Sys.put_inj hτ
    exact hT
  obtain ⟨ρ, hρ, ho⟩ := Sys.Own.of_step hm hsid
  cases hσ.symm.trans hρ
  cases ho with
  | begin => exact put hσ' hT.2
  | exec he =>
    rcases Sys.execTx_cases h.wf h.inv (h.ok i _ hσ).1 he with ⟨e, -, rfl⟩ | ⟨body', s1, -, -, rfl⟩
    · exact put hσ' (hT _)
    · exact put hσ' hT
  | ask | commit => exact put hσ' hT
  | abandon | settle =>
    cases Sys.drop_self.symm.trans hσ'
  | _ => exact put hσ' (hT _)

/-! ## Newcomers -/

theorem Sys.execTx_sessions {sid pid : Nat} {k : Except S.Err α → Proc S Unit}
    (he : s.execTx sid pid label k body = some s') (hi : i ≠ sid) :
    s'.sessions i = s.sessions i := by
  cases body with
  | ret | ask => cases he
  | throw | select =>
    cases he
    exact Sys.put_ne _ hi
  | _ =>
    simp only [Sys.execTx] at he
    repeat' split at he
    all_goals cases he
    all_goals exact Sys.put_ne _ hi

/-- A session that was not there before is a call that has just been made, or the transaction of a
session that has just left it behind. -/
theorem Sound.newcomer (h : Sound C s) (hm : s.step P m = some s') (hi : s.sessions i = none)
    (hσ' : s'.sessions i = some σ') :
    (∃ c, m = .spawn c ∧ σ' = ⟨i, .idle (P.code c)⟩) ∨
    ∃ (j pid : Nat) (α : Type) (label : α → S.Op) (a : α) (k : Except S.Err α → Proc S Unit),
      m.sid = some j ∧ s.sessions j = some ⟨pid, .running label (.ret a) k⟩ ∧
      σ' = ⟨pid, .doubt (label a)⟩ ∧ s'.loc i = (s.loc j).on s'.world ∧
      s'.world = s.world.record (.lost pid (label a)) := by
  have gone : ∀ {j : Nat} {τ : Session S}, s.sessions j = some τ → i ≠ j := by
    rintro j τ hj rfl
    cases hi.symm.trans hj
  have same : s'.sessions i = s.sessions i → False := by
    intro heq
    rw [heq, hi] at hσ'
    cases hσ'
  cases hsid : m.sid with
  | none =>
    cases m with
    | tick =>
      cases hm
      exact (same rfl).elim
    | spawn c =>
      obtain ⟨-, hm⟩ := Option.ite_none_right_eq_some.mp hm
      cases hm
      by_cases hn : i = s.next
      · subst hn
        cases Sys.put_inj hσ'
        exact .inl ⟨c, rfl, rfl⟩
      · exact (same (Sys.put_ne _ hn)).elim
    | _ => cases hsid
  | some j =>
    obtain ⟨ρ, hρ, ho⟩ := Sys.Own.of_step hm hsid
    have hj := gone hρ
    cases ho with
    | exec he => exact (same (Sys.execTx_sessions he hj)).elim
    | abandon | settle => exact (same (Sys.drop_ne hj)).elim
    | detach pid label a k =>
      by_cases hn : i = s.next
      · subst hn
        rw [Sys.put_ne _ hj] at hσ'
        simp only [Sys.detach, Function.update_self, Option.some.injEq] at hσ'
        refine .inr ⟨j, pid, _, label, a, k, rfl, hρ, hσ'.symm, ?_, rfl⟩
        exact Sys.detach_loc_next (h.lt_next hρ)
          (h.quiet s.next fun τ hτ => by rw [h.fresh _ (Nat.le_refl _)] at hτ; cases hτ).2
      · exact (same (by rw [Sys.put_ne _ hj]; simp [Sys.detach, hn])).elim
    | _ =>
      exact (same (Sys.put_ne _ hj)).elim

/-- The invariant rule for a property of every session, of where it stands and what it has open. -/
theorem Sound.everybody (h : Sound C s) {R : Session S → Loc S → Prop}
    (hR : ∀ i σ, s.sessions i = some σ → R σ (s.loc i)) (hm : s.step P m = some s')
    (hcall : ∀ c i l, R ⟨i, .idle (P.code c)⟩ l) (hdoubt : ∀ pid op l, R ⟨pid, .doubt op⟩ l)
    (hrely : ∀ σ l w, R σ l → Rely C σ.pid σ.away l.held l.world w → R σ (l.on w))
    (hown : ∀ i σ σ', s.sessions i = some σ → R σ (s.loc i) → m.sid = some i →
      s'.sessions i = some σ' → R σ' (s'.loc i)) :
    ∀ i σ', s'.sessions i = some σ' → R σ' (s'.loc i) := by
  intro i σ' hσ'
  cases hi : s.sessions i with
  | none =>
    rcases h.newcomer hm hi hσ' with ⟨c, -, rfl⟩ | ⟨j, pid, α, label, a, k, -, -, rfl, -, -⟩
    · exact hcall c i _
    · exact hdoubt pid _ _
  | some σ =>
    by_cases hsid : m.sid = some i
    · exact hown i σ σ' hi (hR i σ hi) hsid hσ'
    · have haside := h.aside hm hi hsid
      cases haside.session.symm.trans hσ'
      rw [haside.loc]
      exact hrely σ' _ _ (hR i σ' hi) haside.rely

end Txn
