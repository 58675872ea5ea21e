import Dogx.Txn.Program

/-!
# Rely and guarantee for transactions

A `Contract` says what the transactions of a service do when they commit and what its processes
may say to the outside. The contract is what every party guarantees, and therefore what every
party can rely on the others for.

Both are closed under interference, so a proof about a program names at each statement what is
still known there. A fact is still known when it is `Stable`: rows the transaction has locked do
not change, the clock does not go back, the history only grows.
-/

namespace Txn

variable {S : Sig} {α β γ : Type}

/--
What holds of every commit and of every interaction, at the moment it happens. `Inv` is what the
contract keeps true of the world, so that everybody may count on it.
-/
structure Contract (S : Sig) where
  Commits : Nat → S.Op → Loc S → Prop
  Acts : Nat → (a : S.Act) → S.Reply a → World S → Prop
  Inv : World S → Prop

inductive Interferes (C : Contract S) (pid : Nat) (away : Bool) (held : Set (Res S)) :
    World S → World S → Prop where
  | commit {q : Nat} {op : S.Op} {l : Loc S} (wf : l.WF) (inv : C.Inv l.world)
      (ok : C.Commits q op l) (disj : Disjoint l.held held) (who : q ≠ pid ∨ l.world.Lost pid) :
      Interferes C pid away held l.world (l.commit q op)
  | act {w : World S} {q : Nat} {a : S.Act} {r : S.Reply a} (ok : C.Acts q a r w)
      (who : q ≠ pid ∨ (away = true ∧ w.Lost pid)) :
      Interferes C pid away held w (w.record (.act q a r))
  | asked {w : World S} {q : Nat} {a : S.Act} {r : S.Reply a} (reads : S.reads a = true) :
      Interferes C pid away held w (w.record (.act q a r))
  | lost {w : World S} {q : Nat} {op : S.Op} (who : q ≠ pid ∨ away = true) :
      Interferes C pid away held w (w.record (.lost q op))
  | tick (w : World S) (d : Nat) : Interferes C pid away held w (w.tick d)
  | bump (w : World S) (t : S.Table) : Interferes C pid away held w (w.bump t)

def Rely (C : Contract S) (pid : Nat) (away : Bool) (held : Set (Res S)) :
    World S → World S → Prop :=
  Relation.ReflTransGen (Interferes C pid away held)

variable {C C' : Contract S} {pid : Nat} {away : Bool} {held held' : Set (Res S)} {w w' : World S}
  {l : Loc S} {P Q : Loc S → Prop}

theorem Interferes.mono (hsub : held' ⊆ held) (h : Interferes C pid away held w w') :
    Interferes C pid away held' w w' := by
  cases h with
  | commit wf inv ok disj who => exact .commit wf inv ok (disj.mono_right hsub) who
  | act ok who => exact .act ok who
  | asked reads => exact .asked reads
  | lost who => exact .lost who
  | tick _ d => exact .tick _ d
  | bump _ t => exact .bump _ t

theorem Interferes.leave (h : Interferes C pid false held w w') :
    Interferes C pid true held w w' := by
  cases h with
  | commit wf inv ok disj who => exact .commit wf inv ok disj who
  | act ok who => exact .act ok (who.imp_right fun h => absurd h.1 (by simp))
  | asked reads => exact .asked reads
  | lost who => exact .lost (who.imp_right fun h => absurd h (by simp))
  | tick _ d => exact .tick _ d
  | bump _ t => exact .bump _ t

theorem Rely.refl : Rely C pid away held w w := Relation.ReflTransGen.refl

theorem Rely.trans {w'' : World S} (h : Rely C pid away held w w')
    (h' : Rely C pid away held w' w'') : Rely C pid away held w w'' :=
  Relation.ReflTransGen.trans h h'

theorem Rely.single (h : Interferes C pid away held w w') : Rely C pid away held w w' :=
  Relation.ReflTransGen.single h

theorem Rely.mono (hsub : held' ⊆ held) (h : Rely C pid away held w w') :
    Rely C pid away held' w w' :=
  Relation.ReflTransGen.mono (fun _ _ hs => Interferes.mono hsub hs) _ _ h

theorem Rely.leave (h : Rely C pid false held w w') : Rely C pid true held w w' :=
  Relation.ReflTransGen.mono (fun _ _ hs => Interferes.leave hs) _ _ h

theorem Rely.nothing (h : Rely C pid away held w w') : Rely C pid away ∅ w w' :=
  h.mono (Set.empty_subset held)

theorem Rely.preserves {P : World S → Prop}
    (hstep : ∀ w w', Interferes C pid away held w w' → P w → P w')
    (h : Rely C pid away held w w') (hP : P w) : P w' := by
  induction h with
  | refl => exact hP
  | tail _ hs ih => exact hstep _ _ hs ih

theorem Rely.now_le (h : Rely C pid away held w w') : w.now ≤ w'.now := by
  refine h.preserves (P := fun w' => w.now ≤ w'.now) ?_ (Nat.le_refl _)
  intro a b hs hle
  cases hs <;> simp <;> omega

theorem Rely.mem_log {e : Event S} (h : Rely C pid away held w w') (he : e ∈ w.log) :
    e ∈ w'.log := by
  refine h.preserves (P := fun w' => e ∈ w'.log) ?_ he
  intro a b hs hmem
  cases hs <;> simp [hmem]

theorem Rely.row {t : S.Table} {id : Nat} (h : Rely C pid away held w w')
    (hh : Res.row t id ∈ held) : w'.db t id = w.db t id := by
  refine h.preserves (P := fun w' => w'.db t id = w.db t id) ?_ rfl
  intro a b hs heq
  cases hs with
  | @commit q op l wf _ ok disj who =>
    have hp : l.pend t id = none := by
      cases hp : l.pend t id with
      | none => rfl
      | some => exact absurd hh (Set.disjoint_left.mp disj (wf.pend_held _ _ _ hp))
    rw [Loc.commit_db, Store.apply_of_none hp]
    exact heq
  | _ => exact heq

/-! ## Facts about an open transaction -/

namespace Loc

def on (l : Loc S) (w : World S) : Loc S := { l with world := w }

end Loc

def Later (C : Contract S) (pid : Nat) (l : Loc S) (P : Loc S → Prop) : Prop :=
  ∀ w, Rely C pid false l.held l.world w → (l.on w).WF → C.Inv w → P (l.on w)

theorem Later.mono (h : Later C pid l P) (hpq : ∀ l, P l → Q l) :
    Later C pid l Q := fun w hw hwf hinv => hpq _ (h w hw hwf hinv)

theorem Later.on (h : Later C pid l P) (hw : Rely C pid false l.held l.world w) :
    Later C pid (l.on w) P :=
  fun w' hw' hwf hinv => h w' (hw.trans hw') hwf hinv

def Stable (C : Contract S) (pid : Nat) (P : Loc S → Prop) : Prop :=
  ∀ l w, P l → Rely C pid true l.held l.world w → P (l.on w)

theorem Stable.later (hs : Stable C pid P) (hP : P l) (h : ∀ l, P l → l.WF → C.Inv l.world → Q l) :
    Later C pid l Q :=
  fun w hw hwf hinv => h _ (hs l w hP hw.leave) hwf hinv

theorem Stable.and (hp : Stable C pid P) (hq : Stable C pid Q) : Stable C pid fun l => P l ∧ Q l :=
  fun l w h hw => ⟨hp l w h.1 hw, hq l w h.2 hw⟩

theorem Stable.own (P : Store S → Set (Res S) → Prop) :
    Stable C pid fun l => P l.pend l.held := fun _ _ h _ => h

theorem Stable.const (P : Prop) : Stable C pid fun _ => P := fun _ _ h _ => h

theorem Stable.row (t : S.Table) (id : Nat) (P : Option (S.Row t) → Prop) :
    Stable C pid fun l => Res.row t id ∈ l.held ∧ P (l.world.db t id) := by
  intro l w h hw
  refine ⟨h.1, ?_⟩
  show P (w.db t id)
  rw [hw.row h.1]
  exact h.2

theorem Stable.now (d : Nat) : Stable C pid fun l => d ≤ l.world.now :=
  fun _ _ h hw => Nat.le_trans h hw.now_le

def Steady (C : Contract S) (pid : Nat) (R : World S → Prop) : Prop :=
  ∀ w w', Rely C pid false ∅ w w' → R w → R w'

theorem Steady.anything : Steady C pid fun _ => True := fun _ _ _ _ => trivial

/-- What `pid` may rely on under `C'` it may rely on under `C`, and what it may say it may say. -/
structure Contract.Covers (C : Contract S) (pid : Nat) (C' : Contract S) : Prop where
  rely : ∀ {held w w'}, Rely C' pid false held w w' → Rely C pid false held w w'
  inv : ∀ {w}, C'.Inv w → C.Inv w
  acts : ∀ {a r w}, C.Acts pid a r w → C'.Acts pid a r w

theorem Contract.Covers.refl : C.Covers pid C := ⟨id, id, id⟩

/-! ## Transactions -/

namespace Tx

def wp (C : Contract S) (pid : Nat) :
    Tx S α → (α → Loc S → Prop) → (S.Err → World S → Prop) → Loc S → Prop
  | .ret a, Q, _, l => Later C pid l (Q a)
  | .throw e, _, E, l => Later C pid l fun l => E e l.world
  | .select q k, Q, E, l => Later C pid l fun l => (k (q l.view)).wp C pid Q E l
  | .lock t id nowait k, Q, E, l => Later C pid l fun l =>
      (nowait = true → (k .busy).wp C pid Q E l) ∧
      (l.view.rows t id = none → (k (.row none)).wp C pid Q E l) ∧
      ∀ v, l.view.rows t id = some v → (k (.row (some v))).wp C pid Q E (l.hold (.row t id))
  | .update t id f k, Q, E, l => Later C pid l fun l =>
      ((∀ v, l.view.rows t id = some v → f l.view v = .skip) → (k none).wp C pid Q E l) ∧
      ∀ v v', l.view.rows t id = some v → f l.view v = .set v' →
        S.keys t v' = S.keys t v ∧ (k (some v')).wp C pid Q E (l.write t id v')
  | .insert t row k, Q, E, l => Later C pid l fun l =>
      (k none).wp C pid Q E (l.bump t) ∧
      ((∀ key ∈ S.keys t (row (l.world.seq t + 1)), ¬ l.view.rows.Occupied t key) →
        (k (some (l.world.seq t + 1))).wp C pid Q E
          ((l.bump t).add t (l.world.seq t + 1) (row (l.world.seq t + 1))))
  | .ask a k, Q, E, l => Later C pid l fun l => S.reads a = true ∧ ∀ r, C.Acts pid a r l.world ∧
      (k r).wp C pid Q E (l.on (l.world.record (.act pid a r)))

variable {Q Q' : α → Loc S → Prop} {E E' : S.Err → World S → Prop} {l : Loc S} {p : Tx S α}

theorem wp_rely (h : p.wp C pid Q E l) (hw : Rely C pid false l.held l.world w) :
    p.wp C pid Q E (l.on w) := by
  cases p with
  | _ => exact .on h hw

theorem wp_later (h : Later C pid l fun l => p.wp C pid Q E l) : p.wp C pid Q E l := by
  cases p with
  | _ =>
    exact fun w hw hwf hinv => h w hw hwf hinv w .refl hwf hinv

theorem bind_ret (p : Tx S α) : p.bind .ret = p := by
  induction p with
  | ret | throw => rfl
  | select _ _ ih | lock _ _ _ _ ih | update _ _ _ _ ih | insert _ _ _ ih | ask _ _ ih =>
    exact congrArg _ (funext ih)

/-- One induction for all the rules that change a program's end, its contract or what is known beside it:
the statements themselves do the same under both contracts. -/
theorem wp_transfer {f : α → Tx S β} {R : World S → Prop} {Q' : β → Loc S → Prop}
    (hC : C.Covers pid C') (hR : Steady C' pid R)
    (hret : ∀ a l, R l.world → Later C pid l (Q a) → (f a).wp C' pid Q' E' l)
    (hthrow : ∀ e w, R w → E e w → E' e w) (hl : R l.world) (h : p.wp C pid Q E l) :
    (p.bind f).wp C' pid Q' E' l := by
  have next : ∀ {l : Loc S} {P P' : Loc S → Prop}, R l.world → Later C pid l P →
      (∀ l, R l.world → P l → P' l) → Later C' pid l P' := fun hl h hP w hw hwf hinv =>
    hP _ (hR _ w hw.nothing hl) (h w (hC.rely hw) hwf (hC.inv hinv))
  induction p generalizing l with
  | ret a => exact hret a l hl h
  | throw e => exact next hl h fun l hl he => hthrow e l.world hl he
  | select q k ih => exact next hl h fun l hl h => ih _ hl h
  | lock t _ _ k ih =>
    exact next hl h fun l hl ⟨h1, h2, h3⟩ =>
      ⟨fun hn => ih _ hl (h1 hn), fun hr => ih _ hl (h2 hr), fun v hr => ih _ hl (h3 v hr)⟩
  | update t _ g k ih =>
    exact next hl h fun l hl ⟨h1, h2⟩ => ⟨fun hs => ih _ hl (h1 hs), fun v v' hr hf =>
      ⟨(h2 v v' hr hf).1, ih _ hl (h2 v v' hr hf).2⟩⟩
  | insert t _ k ih =>
    refine next hl h fun l hl ⟨h1, h2⟩ => ?_
    have hbump : R (l.world.bump t) := hR _ _ (.single (.bump _ t)) hl
    exact ⟨ih _ hbump h1, fun ho => ih _ hbump (h2 ho)⟩
  | ask a k ih =>
    refine next hl h fun l hl ⟨ha, hrest⟩ => ⟨ha, fun r => ⟨hC.acts (hrest r).1, ih r ?_ (hrest r).2⟩⟩
    exact hR _ _ (.single (.asked ha)) hl

theorem wp_mono (hq : ∀ a l, Q a l → Q' a l) (he : ∀ e w, E e w → E' e w) (h : p.wp C pid Q E l) :
    p.wp C pid Q' E' l := by
  rw [← bind_ret p]
  exact wp_transfer .refl .anything (fun a _ _ h => h.mono (hq a)) (fun e w _ => he e w) trivial h

theorem wp_bind {f : α → Tx S β} {Q : β → Loc S → Prop}
    (h : p.wp C pid (fun a l => (f a).wp C pid Q E l) E l) : (p.bind f).wp C pid Q E l :=
  wp_transfer .refl .anything (fun _ _ _ h => wp_later h) (fun _ _ _ h => h) trivial h

end Tx

/-! ## Processes -/

def Settled (C : Contract S) (pid : Nat) (op : S.Op) (l : Loc S) : Prop :=
  ∀ w, Rely C pid true l.held l.world w → (l.on w).WF → C.Inv w → C.Commits pid op (l.on w)

def Ready (C : Contract S) (pid : Nat) (op : S.Op) (ok err : World S → Prop) (l : Loc S) : Prop :=
  Settled C pid op l ∧ ok (l.commit pid op) ∧
  ∀ w, Rely C pid false ∅ (l.commit pid op) w → err (w.record (.lost pid op))

namespace Proc

def wp (C : Contract S) (pid : Nat) : Proc S β → (β → World S → Prop) → World S → Prop
  | .ret b, Q, w => ∀ w₁, Rely C pid false ∅ w w₁ → Q b w₁
  | .act a k, Q, w => ∀ w₁, Rely C pid false ∅ w w₁ → C.Inv w₁ → ∀ r,
      C.Acts pid a r w₁ ∧ (k r).wp C pid Q (w₁.record (.act pid a r))
  | .read q k, Q, w => ∀ w₁, Rely C pid false ∅ w w₁ → (Loc.start w₁).WF → C.Inv w₁ →
      (k (.ok (q w₁.view))).wp C pid Q w₁ ∧ ∀ f, (k (.error (S.fault f))).wp C pid Q w₁
  | .transact label body k, Q, w => ∀ w₁, Rely C pid false ∅ w w₁ → (Loc.start w₁).WF → C.Inv w₁ →
      body.wp C pid (fun a l => Ready C pid (label a) ((k (.ok a)).wp C pid Q)
        (fun w => ∀ f, (k (.error (S.fault f))).wp C pid Q w) l)
        (fun e w => (k (.error e)).wp C pid Q w) (Loc.start w₁) ∧
      (∀ w₂, Rely C pid false ∅ w₁ w₂ → ∀ f, (k (.error (S.fault f))).wp C pid Q w₂) ∧
      ∀ w₂, Rely C pid false ∅ w₁ w₂ → ∀ f a,
        (k (.error (S.fault f))).wp C pid Q (w₂.record (.lost pid (label a)))

variable {Q Q' : β → World S → Prop} {p : Proc S β}

theorem wp_rely (h : p.wp C pid Q w) (hw : Rely C pid false ∅ w w') : p.wp C pid Q w' := by
  cases p with
  | _ => exact fun w1 hw1 => h w1 (hw.trans hw1)

theorem wp_bind {f : β → Proc S γ} {Q : γ → World S → Prop}
    (h : p.wp C pid (fun b w => (f b).wp C pid Q w) w) : (p.bind f).wp C pid Q w := by
  induction p generalizing w with
  | ret => exact h w .refl
  | act a k ih => exact fun w1 hw1 hinv r => ⟨(h w1 hw1 hinv r).1, ih r (h w1 hw1 hinv r).2⟩
  | read q k ih =>
    exact fun w1 hw1 hwf hinv =>
      ⟨ih _ (h w1 hw1 hwf hinv).1, fun e => ih _ ((h w1 hw1 hwf hinv).2 e)⟩
  | transact _ _ k ih =>
    intro w1 hw1 hwf hinv
    obtain ⟨hbody, herr, hlost⟩ := h w1 hw1 hwf hinv
    refine ⟨Tx.wp_mono ?_ (fun e w he => ih _ he) hbody, fun w2 hw2 e => ih _ (herr w2 hw2 e),
      fun w2 hw2 e a => ih _ (hlost w2 hw2 e a)⟩
    rintro a l ⟨hc, hok, hafter⟩
    exact ⟨hc, ih _ hok, fun w2 hw2 e => ih _ (hafter w2 hw2 e)⟩

end Proc

end Txn
