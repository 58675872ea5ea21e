import Dogx.Txn.Discipline

/-!
# Proof rules for processes

`Tx.wp` and `Proc.wp` say what is to be shown of a program; the rules here say how it is shown.
What a process knows between its steps is a `Steady` fact, what a transaction has established when
it asks for its commit is `Settled`.
-/

namespace Txn

variable {S : Sig} {α β γ : Type} {C : Contract S} {pid id : Nat} {w : World S}
  {R R' : World S → Prop}

/-- It is enough to look at the single steps of the others. -/
theorem Steady.of_step (h : ∀ w w', Interferes C pid false ∅ w w' → R w → R w') : Steady C pid R :=
  fun _ _ hw hR => hw.preserves h hR

theorem Stable.steady (h : Stable C pid fun l => R l.world) : Steady C pid R :=
  fun w w' hw hR => h (Loc.start w) w' hR hw.leave

theorem Steady.and (h : Steady C pid R) (h' : Steady C pid R') : Steady C pid fun w => R w ∧ R' w :=
  fun w w' hw hR => ⟨h w w' hw hR.1, h' w w' hw hR.2⟩

theorem Steady.mem_log (e : Event S) : Steady C pid fun w => e ∈ w.log :=
  fun _ _ hw h => hw.mem_log h

/-- What is stable and suffices for the commit settles it. -/
theorem Stable.settled {P : Loc S → Prop} {op : S.Op} {l : Loc S} (hs : Stable C pid P) (hP : P l)
    (h : ∀ l, P l → l.WF → C.Inv l.world → C.Commits pid op l) : Settled C pid op l :=
  fun w hw hwf hinv => h _ (hs l w hP hw) hwf hinv

namespace Tx

variable {Q : α → Loc S → Prop} {E : S.Err → World S → Prop} {l : Loc S} {R : World S → Prop}
  {P : Loc S → Prop} {f : β → Tx S α} {t : S.Table}

theorem wp_pure {a : α} (hs : Stable C pid P) (hP : P l)
    (h : ∀ l, P l → l.WF → C.Inv l.world → Q a l) : (pure a : Tx S α).wp C pid Q E l :=
  hs.later hP h

theorem wp_throw {e : S.Err} (hs : Stable C pid P) (hP : P l)
    (h : ∀ l, P l → l.WF → C.Inv l.world → E e l.world) :
    (throw e : Tx S α).wp C pid Q E l :=
  hs.later hP h

theorem wp_pure_bind {a : β} (h : (f a).wp C pid Q E l) :
    (pure a : Tx S β).wp C pid (fun a l => (f a).wp C pid Q E l) E l :=
  fun _ hw _ _ => wp_rely h hw

section

variable (hs : Stable C pid P)
include hs

theorem wp_query {q : View S → β} (hP : P l)
    (h : ∀ l, P l → l.WF → C.Inv l.world → (f (q l.view)).wp C pid Q E l) :
    (query q >>= f).wp C pid Q E l :=
  hs.later hP h

/-- What was read is in the history from then on. -/
theorem wp_input {a : S.Act} {f : S.Reply a → Tx S α} (hP : P l) (ha : S.reads a = true)
    (hacts : ∀ r w, C.Acts pid a r w)
    (h : ∀ r l, P l → .act pid a r ∈ l.world.log → (f r).wp C pid Q E l) :
    (input a >>= f).wp C pid Q E l :=
  hs.later hP fun l hl _ _ => ⟨ha, fun r => ⟨hacts r l.world,
    h r _ (hs l _ hl (.single (.asked ha))) List.mem_cons_self⟩⟩

/-- A locking read: taken, without a row, or with the row locked. -/
theorem wp_lockRow {nowait : Bool} {f : Locked (S.Row t) → Tx S α} (hP : P l)
    (hbusy : nowait = true → ∀ l, P l → (f .busy).wp C pid Q E l)
    (hnone : ∀ l, P l → l.WF → C.Inv l.world → l.view.rows t id = none →
      (f (.row none)).wp C pid Q E l)
    (hrow : ∀ l v, P l → l.WF → C.Inv l.world → l.view.rows t id = some v →
      (f (.row (some v))).wp C pid Q E (l.hold (.row t id))) :
    (lockRow t id nowait >>= f).wp C pid Q E l :=
  hs.later hP fun l hl hwf hinv =>
    ⟨fun hn => hbusy hn l hl, hnone l hl hwf hinv, fun v hv => hrow l v hl hwf hinv hv⟩

/-- A conditional update: skipped, or the row is locked and written. -/
theorem wp_updateRow {g : View S → S.Row t → Verdict (S.Row t)} {f : Option (S.Row t) → Tx S α}
    (hP : P l) (hskip : ∀ l, P l → l.WF → C.Inv l.world →
      (∀ v, l.view.rows t id = some v → g l.view v = .skip) → (f none).wp C pid Q E l)
    (hset : ∀ l v v', P l → l.WF → C.Inv l.world → l.view.rows t id = some v →
      g l.view v = .set v' →
      S.keys t v' = S.keys t v ∧ (f (some v')).wp C pid Q E (l.write t id v')) :
    (updateRow t id g >>= f).wp C pid Q E l :=
  hs.later hP fun l hl hwf hinv =>
    ⟨hskip l hl hwf hinv, fun v v' hv hg => hset l v v' hl hwf hinv hv hg⟩

/-- The key of a new row comes from the sequence, so no row has it. -/
theorem wp_insertRow {row : Nat → S.Row t} {f : Option Nat → Tx S α} (hP : P l)
    (hnone : ∀ l, P l → (f none).wp C pid Q E l)
    (hsome : ∀ l id, P l → l.world.db t id = none → l.pend t id = none →
      (f (some id)).wp C pid Q E (l.add t id (row id))) :
    (insertRow t row >>= f).wp C pid Q E l := by
  refine hs.later hP fun l hl hwf _ => ?_
  have hb : P (l.bump t) := hs l _ hl (.single (.bump _ t))
  have hfresh := hwf.fresh_id (Nat.lt_succ_self (l.world.seq t))
  exact ⟨hnone _ hb, fun _ => hsome (l.bump t) _ hb hfresh.1 hfresh.2⟩

end

theorem wp_frame {p : Tx S α} (hR : Steady C pid R) (hl : R l.world) (h : p.wp C pid Q E l) :
    p.wp C pid (fun a l => Q a l ∧ R l.world ∧ l.WF ∧ C.Inv l.world) (fun e w => E e w ∧ R w) l := by
  rw [← bind_ret p]
  refine wp_transfer .refl hR (fun a l hl h w hw hwf hinv => ?_) (fun e w hw he => ⟨he, hw⟩) hl h
  exact ⟨h w hw hwf hinv, hR _ w hw.nothing hl, hwf, hinv⟩

end Tx

namespace Proc

variable {Q Q' : β → World S → Prop} {R R' : World S → Prop} {p : Proc S β}

theorem wp_mono (hq : ∀ b w, Q b w → Q' b w) (h : p.wp C pid Q w) : p.wp C pid Q' w := by
  induction p generalizing w with
  | ret b => exact fun w1 hw1 => hq b w1 (h w1 hw1)
  | act a k ih => exact fun w1 hw1 hinv r => ⟨(h w1 hw1 hinv r).1, ih r (h w1 hw1 hinv r).2⟩
  | read q k ih =>
    exact fun w1 hw1 hwf hinv =>
      ⟨ih _ (h w1 hw1 hwf hinv).1, fun e => ih _ ((h w1 hw1 hwf hinv).2 e)⟩
  | transact _ _ k ih =>
    intro w1 hw1 hwf hinv
    obtain ⟨hbody, herr, hlost⟩ := h w1 hw1 hwf hinv
    refine ⟨Tx.wp_mono ?_ (fun e w he => ih _ he) hbody, fun w2 hw2 e => ih _ (herr w2 hw2 e),
      fun w2 hw2 e a => ih _ (hlost w2 hw2 e a)⟩
    rintro a l ⟨hc, hok, hafter⟩
    exact ⟨hc, ih _ hok, fun w2 hw2 e => ih _ (hafter w2 hw2 e)⟩

section

variable (hR : Steady C pid R)
include hR

theorem wp_ret {b : β} (hw : R w) (h : ∀ w, R w → Q b w) : (Proc.ret b : Proc S β).wp C pid Q w :=
  fun w1 hw1 => h w1 (hR w w1 hw1 hw)

theorem wp_act {a : S.Act} {k : S.Reply a → Proc S β} (hw : R w)
    (h : ∀ w, R w → C.Inv w → ∀ r, C.Acts pid a r w ∧ (k r).wp C pid Q (w.record (.act pid a r))) :
    (Proc.act a k).wp C pid Q w :=
  fun w1 hw1 hinv r => h w1 (hR w w1 hw1 hw) hinv r

theorem wp_read {q : View S → γ} {k : Except S.Err γ → Proc S β} (hw : R w)
    (hok : ∀ w, R w → (Loc.start w).WF → C.Inv w → (k (.ok (q w.view))).wp C pid Q w)
    (hfail : ∀ f w, R w → (k (.error (S.fault f))).wp C pid Q w) : (Proc.read q k).wp C pid Q w :=
  fun w1 hw1 hwf hinv =>
    ⟨hok w1 (hR w w1 hw1 hw) hwf hinv, fun f => hfail f w1 (hR w w1 hw1 hw)⟩

/--
One transaction. `R` is what the process knows before it and while nothing has been committed,
`R'` what it knows after a commit or after a failure that leaves the commit in doubt. The body
leaves behind what `F` says when it commits and what `G` says when it gives up.
-/
theorem wp_transact {label : α → S.Op} {body : Tx S α} {k : Except S.Err α → Proc S β}
    {F : α → Loc S → Prop} {G : S.Err → World S → Prop} (hR' : Steady C pid R') (hw : R w)
    (hcommit : ∀ (l : Loc S) a, R l.world → C.Commits pid (label a) l → R' (l.commit pid (label a)))
    (hlost : ∀ w a, R w ∨ R' w → R' (w.record (.lost pid (label a))))
    (hbody : ∀ w, R w → (Loc.start w).WF → C.Inv w → body.wp C pid
      (fun a l => Settled C pid (label a) l ∧ F a l) G (Loc.start w))
    (hok : ∀ a l, R l.world → C.Commits pid (label a) l → F a l →
      (k (.ok a)).wp C pid Q (l.commit pid (label a)))
    (hgive : ∀ e w, R w → G e w → (k (.error e)).wp C pid Q w)
    (hfail : ∀ f w, R w → (k (.error (S.fault f))).wp C pid Q w)
    (hdoubt : ∀ f w, R' w → w.Lost pid → (k (.error (S.fault f))).wp C pid Q w) :
    (Proc.transact label body k).wp C pid Q w := by
  intro w1 hw1 hwf hinv
  have hRw := hR w w1 hw1 hw
  have told : ∀ (w : World S) a, World.Lost (w.record (.lost pid (label a))) pid :=
    fun w a => ⟨label a, by simp⟩
  refine ⟨Tx.wp_mono ?_ ?_ (Tx.wp_frame hR hRw (hbody w1 hRw hwf hinv)), ?_, ?_⟩
  · rintro a l ⟨⟨hset, hF⟩, hRl, hwfl, hinvl⟩
    have hc : C.Commits pid (label a) l := hset l.world .refl hwfl hinvl
    refine ⟨hset, hok a l hRl hc hF, fun w2 hw2 f => ?_⟩
    have hR2 := hR' _ w2 hw2 (hcommit l a hRl hc)
    exact hdoubt f _ (hlost w2 a (Or.inr hR2)) (told w2 a)
  · rintro e w ⟨hG, hRe⟩
    exact hgive e w hRe hG
  · exact fun w2 hw2 f => hfail f w2 (hR w1 w2 hw2 hRw)
  · exact fun w2 hw2 f a => hdoubt f _ (hlost w2 a (Or.inl (hR w1 w2 hw2 hRw))) (told w2 a)

/-! ## Triples -/

def Triple (C : Contract S) (pid : Nat) (R : World S → Prop) (p : Proc S β)
    (Q : β → World S → Prop) : Prop :=
  ∀ w, R w → p.wp C pid Q w

theorem Triple.pure {b : β} (h : ∀ w, R w → Q b w) : Triple C pid R (pure b) Q :=
  fun _ hw => wp_ret hR hw h

end

/-- Calls one after the other. -/
theorem Triple.bind {f : β → Proc S γ} {Q' : γ → World S → Prop} (hp : Triple C pid R p Q)
    (hf : ∀ b, Triple C pid (Q b) (f b) Q') : Triple C pid R (p >>= f) Q' :=
  fun w hw => wp_bind (wp_mono hf (hp w hw))

theorem Triple.mono (h : Triple C pid R p Q) (hR : ∀ w, R' w → R w) (hQ : ∀ b w, Q b w → Q' b w) :
    Triple C pid R' p Q' :=
  fun w hw => wp_mono hQ (h w (hR w hw))

theorem Triple.forget (h : Triple C pid (fun _ => True) p Q) : Triple C pid R p Q :=
  h.mono (fun _ _ => trivial) fun _ _ h => h

theorem Triple.done (b : β) : Triple C pid R (Pure.pure b) fun _ _ => True :=
  Triple.forget (Triple.pure .anything fun _ h => h)

end Proc

end Txn
