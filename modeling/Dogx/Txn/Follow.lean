import Dogx.Txn.Step

/-!
# One session among the others

What a move means for a session that does not make it: interference within the contract
(`Sound.aside`).
-/

namespace Txn

variable {S : Sig} {C : Contract S} {P : Service S} {s s' : Sys S} {i j : Nat} {σ ρ : Session S}

def Sys.holder (s : Sys S) (r : Res S) : Option Nat :=
  (s.locks r).bind fun i => (s.sessions i).map Session.pid

theorem Sys.holder_eq {r : Res S} (hi : s.sessions i = some σ) (hr : s.locks r = some i) :
    s.holder r = some σ.pid := by simp [holder, hr, hi]

structure Aside (C : Contract S) (s s' : Sys S) (i : Nat) (σ : Session S) : Prop where
  session : s'.sessions i = some σ
  loc : s'.loc i = (s.loc i).on s'.world
  rely : Rely C σ.pid σ.away (s.loc i).held s.world s'.world

namespace Aside

theorem put (hi : s.sessions i = some σ) (hj : i ≠ j) (τ : Session S) : Aside C s (s.put j τ) i σ :=
  ⟨by rw [Sys.put_ne _ hj, hi], rfl, .refl⟩

theorem release (hi : s.sessions i = some σ) (hj : i ≠ j) (τ : Session S) :
    Aside C s ((s.release j).put j τ) i σ :=
  ⟨by rw [Sys.put_ne _ hj]; exact hi, by rw [Sys.put_loc, Sys.release_loc_ne hj]; rfl, .refl⟩

theorem event {w : World S} (hi : s.sessions i = some σ) (hj : i ≠ j) (τ : Session S)
    (hw : Sound.Bearable C s j w) : Aside C s (Sys.put { s with world := w } j τ) i σ :=
  ⟨by rw [Sys.put_ne _ hj]; exact hi, rfl, (hw i hj).2 σ hi⟩

theorem commit (h : Sound C s) {op : S.Op} (hi : s.sessions i = some σ) (hj : i ≠ j)
    (hρ : s.sessions j = some ρ) (hok : C.Commits ρ.pid op (s.loc j)) (next : Option (Session S)) :
    Aside C s { s.apply j ρ.pid op with sessions := Function.update s.sessions j next } i σ := by
  refine ⟨by simp [hj, hi], ?_, (h.bearable_commit hρ hok i hj).2 σ hi⟩
  exact (Sys.release_loc_ne (s := { s with world := (s.loc j).commit ρ.pid op }) hj).trans rfl

end Aside

namespace Sound

/-- What a move of one session does to another. -/
theorem aside_own (h : Sound C s) (hρ : s.sessions j = some ρ) (ho : s.Own j ρ s')
    (hi : s.sessions i = some σ) (hj : i ≠ j) : Aside C s s' i σ := by
  cases ho with
  | undo => exact .release hi hj _
  | abandon =>
    exact ⟨by rw [Sys.drop_ne hj]; exact hi, by rw [Sys.drop_loc, Sys.release_loc_ne hj]; rfl, .refl⟩
  | exec he =>
    rcases Sys.execTx_cases h.wf h.inv (h.ok j _ hρ).1 he with ⟨e, -, rfl⟩ | ⟨body', s1, hran, -, rfl⟩
    · exact .release hi hj _
    · refine ⟨by rw [Sys.put_ne _ hj, hran.sessions, hi], hran.other i hj, ?_⟩
      rw [Sys.put_world]
      rcases hran.world with heq | ⟨t, heq⟩
      · rw [heq]
        exact .refl
      · rw [heq]
        exact .single (.bump _ t)
  | act pid a k r =>
    have hact := ((h.ok j _ hρ : (Proc.act a k).wp C pid _ s.world) _ .refl h.inv r).1
    exact .event hi hj _ (h.bearable_act hρ rfl hact)
  | ask pid _ a _ k r =>
    have hact := (((h.ok j _ hρ).1 _ .refl (h.wf j) h.inv).2 r).1
    exact .event hi hj _ (h.bearable_act hρ rfl hact)
  | commit =>
    have hc := ((h.ok j _ hρ).1 _ .refl (h.wf j) h.inv).1 _ .refl (h.wf j) h.inv
    exact .commit h hi hj hρ hc _
  | settle => exact .commit h hi hj hρ (h.ok j _ hρ _ .refl (h.wf j) h.inv) none
  | detach =>
    have hnext : i ≠ s.next := Nat.ne_of_lt (h.lt_next hi)
    refine ⟨?_, Sys.detach_loc_ne hj hnext, (h.bearable_lost hρ rfl _ i hj).2 σ hi⟩
    rw [Sys.put_ne _ hj, ← hi]
    simp [Sys.detach, hnext]
  | lose => exact .event hi hj _ (h.bearable_lost hρ rfl _)
  | _ => exact .put hi hj _

/-- **What others do is interference within the contract.** -/
theorem aside (h : Sound C s) {m : Move S P.Call} (hm : s.step P m = some s')
    (hi : s.sessions i = some σ) (hother : m.sid ≠ some i) : Aside C s s' i σ := by
  cases hsid : m.sid with
  | some =>
    obtain ⟨ρ, hρ, ho⟩ := Sys.Own.of_step hm hsid
    exact h.aside_own hρ ho hi fun hij => hother (hij ▸ hsid)
  | none =>
    cases m with
    | tick d =>
      cases hm
      exact ⟨hi, rfl, .single (.tick _ d)⟩
    | spawn =>
      obtain ⟨-, hm⟩ := Option.ite_none_right_eq_some.mp hm
      cases hm
      exact ⟨by rw [Sys.put_ne _ (Nat.ne_of_lt (h.lt_next hi))]; exact hi, rfl, .refl⟩
    | _ => cases hsid

end Sound

end Txn
