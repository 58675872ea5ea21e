import Dogx.Txn.Each
import Dogx.Txn.Rules

/-!
# More about the commits of a contract

A service that keeps a contract keeps a stronger one as soon as each of its transactions grants what
the stronger one adds about commits. Only the transactions that are concerned have to be looked at
again: the rest of the processes has kept to the contract already.
-/

namespace Txn

variable {S : Sig} {α β : Type} {C : Contract S} {X : S.Op → Loc S → Prop} {pid : Nat} {away : Bool}
  {held : Set (Res S)} {w w' : World S} {l : Loc S} {P Q : Loc S → Prop}

def Contract.also (C : Contract S) (X : S.Op → Loc S → Prop) : Contract S :=
  { C with Commits := fun pid op l => C.Commits pid op l ∧ X op l }

theorem Interferes.of_also (h : Interferes (C.also X) pid away held w w') :
    Interferes C pid away held w w' := by
  cases h with
  | commit wf inv ok disj who => exact .commit wf inv ok.1 disj who
  | act ok who => exact .act ok who
  | asked reads => exact .asked reads
  | lost who => exact .lost who
  | tick _ d => exact .tick _ d
  | bump _ t => exact .bump _ t

theorem Rely.of_also (h : Rely (C.also X) pid away held w w') : Rely C pid away held w w' :=
  Relation.ReflTransGen.mono (fun _ _ hs => Interferes.of_also hs) _ _ h

theorem Contract.Covers.also : C.Covers pid (C.also X) := ⟨Rely.of_also, id, id⟩

theorem Later.and (h : Later C pid l P) (h' : Later C pid l Q) : Later C pid l fun l => P l ∧ Q l :=
  fun w hw hwf hinv => ⟨h w hw hwf hinv, h' w hw hwf hinv⟩

namespace Tx

variable {Q Q' : α → Loc S → Prop} {E : S.Err → World S → Prop}

theorem wp_also {p : Tx S α} (h : p.wp C pid Q E l) : p.wp (C.also X) pid Q E l := by
  rw [← bind_ret p]
  exact wp_transfer .also .anything (fun _ _ _ h w hw hwf hinv => h w hw.of_also hwf hinv)
    (fun _ _ _ h => h) trivial h

/-- Two postconditions hold together. -/
theorem wp_and {p : Tx S α} (h : p.wp C pid Q E l)
    (h' : p.wp C pid Q' (fun _ _ => True) l) : p.wp C pid (fun a l => Q a l ∧ Q' a l) E l := by
  induction p generalizing l with
  | ret => exact .and h h'
  | throw => exact h
  | select q k ih => exact .mono (.and h h') fun l hl => ih _ hl.1 hl.2
  | lock t _ _ k ih =>
    refine .mono (.and h h') fun l hl => ?_
    obtain ⟨⟨h1, h2, h3⟩, h1', h2', h3'⟩ := hl
    exact ⟨fun hn => ih _ (h1 hn) (h1' hn), fun hr => ih _ (h2 hr) (h2' hr),
      fun v hr => ih _ (h3 v hr) (h3' v hr)⟩
  | update t _ f k ih =>
    refine .mono (.and h h') fun l hl => ?_
    obtain ⟨⟨h1, h2⟩, h1', h2'⟩ := hl
    exact ⟨fun hs => ih _ (h1 hs) (h1' hs), fun v v' hr hf =>
      ⟨(h2 v v' hr hf).1, ih _ (h2 v v' hr hf).2 (h2' v v' hr hf).2⟩⟩
  | insert t _ k ih =>
    refine .mono (.and h h') fun l hl => ?_
    obtain ⟨⟨h1, h2⟩, h1', h2'⟩ := hl
    exact ⟨ih _ h1 h1', fun ho => ih _ (h2 ho) (h2' ho)⟩
  | ask a k ih =>
    exact .mono (.and h h') fun l hl =>
      ⟨hl.1.1, fun r => ⟨(hl.1.2 r).1, ih r (hl.1.2 r).2 (hl.2.2 r).2⟩⟩

def Lasts (C : Contract S) (X : S.Op → Loc S → Prop) (pid : Nat) (op : S.Op) (l : Loc S) : Prop :=
  ∀ w, Rely C pid true l.held l.world w → (l.on w).WF → C.Inv w → X op (l.on w)

def Grants (C : Contract S) (X : S.Op → Loc S → Prop) (α : Type) (label : α → S.Op)
    (body : Tx S α) : Prop :=
  (∀ a l, X (label a) l) ∨ ∀ pid w, (Loc.start w).WF → C.Inv w →
    body.wp C pid (fun a l => Lasts C X pid (label a) l) (fun _ _ => True) (Loc.start w)

end Tx

theorem Stable.lasts {op : S.Op} (hs : Stable C pid P) (hP : P l) (h : ∀ l, P l → X op l) :
    Tx.Lasts C X pid op l :=
  fun w hw _ _ => h _ (hs l w hP hw)

namespace Proc

theorem wp_also {p : Proc S β} {Q : β → World S → Prop} (h : p.wp C pid Q w)
    (hX : p.Each (Tx.Grants C X)) : p.wp (C.also X) pid Q w := by
  induction p generalizing w with
  | ret => exact fun w1 hw1 => h w1 hw1.of_also
  | act a k ih =>
    exact fun w1 hw1 hinv r =>
      ⟨(h w1 hw1.of_also hinv r).1, ih r (h w1 hw1.of_also hinv r).2 (hX r)⟩
  | read q k ih =>
    exact fun w1 hw1 hwf hinv => ⟨ih _ (h w1 hw1.of_also hwf hinv).1 (hX _),
      fun f => ih _ ((h w1 hw1.of_also hwf hinv).2 f) (hX _)⟩
  | transact label body k ih =>
    intro w1 hw1 hwf hinv
    obtain ⟨hbody, herr, hlost⟩ := h w1 hw1.of_also hwf hinv
    obtain ⟨hgrants, hrest⟩ := hX
    refine ⟨?_, fun w2 hw2 f => ih _ (herr w2 hw2.of_also f) (hrest _),
      fun w2 hw2 f a => ih _ (hlost w2 hw2.of_also f a) (hrest _)⟩
    have hlasts : body.wp C pid (fun a l => Tx.Lasts C X pid (label a) l) (fun _ _ => True)
        (Loc.start w1) := by
      rcases hgrants with hall | hwp
      · exact Tx.wp_mono (fun a l _ w _ _ _ => hall a (l.on w)) (fun _ _ _ => trivial) hbody
      · exact hwp pid w1 hwf hinv
    refine Tx.wp_mono ?_ (fun e w he => ih _ he (hrest _)) (Tx.wp_also (Tx.wp_and hbody hlasts))
    rintro a l ⟨⟨hset, hok, hafter⟩, hlasts⟩
    refine ⟨fun w hw hwf hinv => ⟨hset w hw.of_also hwf hinv, hlasts w hw.of_also hwf hinv⟩,
      ih _ hok (hrest _), fun w2 hw2 f => ih _ (hafter w2 hw2.of_also f) (hrest _)⟩

end Proc

theorem Evolves.of_also (h : Evolves (C.also X) w w') : Evolves C w w' := by
  cases h with
  | commit wf ok => exact .commit wf ok.1
  | act ok => exact .act ok
  | lost _ pid op => exact .lost _ pid op
  | tick _ d => exact .tick _ d
  | bump _ t => exact .bump _ t

theorem Evolution.of_also (h : Evolution (C.also X) w w') : Evolution C w w' :=
  Relation.ReflTransGen.mono (fun _ _ hs => Evolves.of_also hs) _ _ h

theorem Contract.Kept.also (h : C.Kept) : (C.also X).Kept :=
  fun w w' hs hinv => h w w' hs.of_also hinv

theorem Service.Keeps.also {P : Service S} (h : P.Keeps C)
    (hX : ∀ c, (P.code c).Each (Tx.Grants C X)) : P.Keeps (C.also X) :=
  fun c w pid ha hfresh hwf hinv => Proc.wp_also (h c w pid ha hfresh hwf hinv) (hX c)

/-! ## The moment of a commit -/

/-- A commit is made by a session of its own process, and as the contract has it. -/
theorem Sound.commits {P : Service S} {s s' : Sys S} (h : Sound C s) {m : Move S P.Call}
    (hm : s.step P m = some s') {op : S.Op} {before writes : Store S}
    (hlog : s'.world.log = .commit pid op before writes :: s.world.log) :
    ∃ i σ, s.sessions i = some σ ∧ σ.pid = pid ∧ C.Commits pid op (s.loc i) := by
  cases h.news hm with
  | silent hsame =>
    rw [hsame] at hlog
    exact absurd hlog.symm (List.cons_ne_self _ _)
  | event hevent other =>
    exact absurd (List.cons.inj (hevent.symm.trans hlog)).1 (other _ _ _ _)
  | @commit i σ _ hi _ hphase hcommit =>
    obtain ⟨hevent, -⟩ := List.cons.inj (hcommit.symm.trans hlog)
    cases hevent
    have hok := h.ok i _ hi
    refine ⟨i, _, hi, rfl, ?_⟩
    obtain ⟨_, _⟩ := σ
    rcases hphase with hphase | ⟨_, _, _, _, hphase, rfl⟩
    · cases hphase
      exact hok _ .refl (h.wf i) h.inv
    · cases hphase
      exact (hok.1 _ .refl (h.wf i) h.inv).1 _ .refl (h.wf i) h.inv

end Txn
