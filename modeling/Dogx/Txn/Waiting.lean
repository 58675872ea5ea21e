import Dogx.Txn.Each

/-!
# Waiting for row locks

A session waits for another one when its next statement needs a row that the other one has locked.
Nobody waits in a circle if every transaction takes its rows in ascending rank. There is one way to
take several rows of the same rank, the highest: under the lock of the row that they all belong to,
and as the last thing the transaction waits for.
-/

namespace Txn

variable {S : Sig} {α β : Type}

/-! ## The waits-for graph -/

namespace Sys

def wantsTx (s : Sys S) (sid : Nat) : Tx S α → Option (Res S)
  | .lock t id nowait _ =>
    match (s.view sid).rows t id with
    | none => none
    | some _ => if nowait || s.available sid (.row t id) then none else some (.row t id)
  | .update t id f _ =>
    match (s.view sid).rows t id with
    | none => none
    | some v =>
      match f (s.view sid) v with
      | .set _ => if s.available sid (.row t id) then none else some (.row t id)
      | _ => none
  | _ => none

def wants (s : Sys S) (sid : Nat) : Option (Res S) :=
  match s.sessions sid with
  | some ⟨_, .running _ body _⟩ => s.wantsTx sid body
  | _ => none

/-- Session `i` waits for a row that session `j` has locked. -/
def Waits (s : Sys S) (i j : Nat) : Prop := ∃ r, s.wants i = some r ∧ s.locks r = some j

def homeOf (home : (t : S.Table) → S.Row t → Option (Res S)) (s : Sys S) : Res S → Option (Res S)
  | .row t id => (s.world.db t id).bind (home t)
  | .key _ _ => none

end Sys

/-! ## The discipline -/

structure Hold (S : Sig) where
  rows : Set (Res S)
  sweep : Option (Res S)

namespace Hold

def nothing : Hold S := { rows := ∅, sweep := none }

def add (h : Hold S) (r : Res S) : Hold S := { h with rows := insert r h.rows }

def Next (rank : Res S → Nat) (h : Hold S) (r : Res S) : Prop :=
  r ∈ h.rows ∨ ∀ x ∈ h.rows, rank x < rank r

theorem Next.first {rank : Res S → Nat} {r : Res S} : (nothing : Hold S).Next rank r :=
  .inr fun _ hx => hx.elim

theorem Next.again {rank : Res S → Nat} {h : Hold S} {r : Res S} : (h.add r).Next rank r :=
  .inl (Set.mem_insert _ _)

end Hold

def Tx.Climbs (rank : Res S → Nat) (home : (t : S.Table) → S.Row t → Option (Res S)) (top : Nat) :
    Tx S α → (α → Hold S → Prop) → Hold S → Prop
  | .ret a, Q, h => Q a h
  | .throw _, _, _ => True
  | .select _ k, Q, h => ∀ x, (k x).Climbs rank home top Q h
  | .ask _ k, Q, h => ∀ r, (k r).Climbs rank home top Q h
  | .insert _ _ k, Q, h => ∀ x, (k x).Climbs rank home top Q h
  | .lock t id nowait k, Q, h => h.sweep = none ∧ (nowait = true ∨ h.Next rank (.row t id)) ∧
      (k .busy).Climbs rank home top Q h ∧ (k (.row none)).Climbs rank home top Q h ∧
      ∀ v, (k (.row (some v))).Climbs rank home top Q (h.add (.row t id))
  | .update t id f k, Q, h =>
      (h.sweep = none ∧ h.Next rank (.row t id) ∧ (k none).Climbs rank home top Q h ∧
        ∀ v, (k (some v)).Climbs rank home top Q (h.add (.row t id))) ∨
      ∃ g ∈ h.rows, (h.sweep = none ∧ (∀ x ∈ h.rows, rank x < top) ∨ h.sweep = some g) ∧
        rank (.row t id) = top ∧ (∀ view v v', f view v = .set v' → home t v = some g) ∧
        ∀ x, (k x).Climbs rank home top Q { h with sweep := some g }

variable {rank : Res S → Nat} {home : (t : S.Table) → S.Row t → Option (Res S)} {top id : Nat}
  {h : Hold S} {Q : α → Hold S → Prop} {t : S.Table} {f : View S → S.Row t → Verdict (S.Row t)}
  {g : Res S}

namespace Tx.Climbs

theorem bind {p : Tx S α} {f : α → Tx S β} {R : β → Hold S → Prop}
    (hp : p.Climbs rank home top (fun a h => (f a).Climbs rank home top R h) h) :
    (p >>= f).Climbs rank home top R h := by
  induction p generalizing h with
  | ret => exact hp
  | throw => trivial
  | select q k ih | insert t _ k ih => exact fun x => ih x (hp x)
  | ask a k ih => exact fun r => ih r (hp r)
  | lock t _ _ k ih =>
    obtain ⟨hsweep, hnext, hbusy, hnone, hsome⟩ := hp
    exact ⟨hsweep, hnext, ih _ hbusy, ih _ hnone, fun v => ih _ (hsome v)⟩
  | update t _ g k ih =>
    rcases hp with ⟨hsweep, hnext, hnone, hsome⟩ | ⟨g, hg, hbelow, hrank, hhome, hk⟩
    · exact .inl ⟨hsweep, hnext, ih _ hnone, fun v => ih _ (hsome v)⟩
    · exact .inr ⟨g, hg, hbelow, hrank, hhome, fun x => ih x (hk x)⟩

theorem query {q : View S → α} (hq : ∀ a, Q a h) : (Tx.query q : Tx S α).Climbs rank home top Q h := hq

theorem input {a : S.Act} {Q : S.Reply a → Hold S → Prop} (hr : ∀ r, Q r h) :
    (Tx.input a : Tx S (S.Reply a)).Climbs rank home top Q h := hr

theorem insertRow {row : Nat → S.Row t} {Q : Option Nat → Hold S → Prop} (hx : ∀ x, Q x h) :
    (Tx.insertRow t row).Climbs rank home top Q h := hx

theorem lockRow {nowait : Bool} {Q : Locked (S.Row t) → Hold S → Prop} (hsweep : h.sweep = none)
    (hnext : nowait = true ∨ h.Next rank (.row t id)) (hbusy : Q .busy h) (hnone : Q (.row none) h)
    (hsome : ∀ v, Q (.row (some v)) (h.add (.row t id))) :
    (Tx.lockRow t id nowait).Climbs rank home top Q h :=
  ⟨hsweep, hnext, hbusy, hnone, hsome⟩

theorem updateRow {Q : Option (S.Row t) → Hold S → Prop} (hsweep : h.sweep = none)
    (hnext : h.Next rank (.row t id)) (hnone : Q none h)
    (hsome : ∀ v, Q (some v) (h.add (.row t id))) :
    (Tx.updateRow t id f).Climbs rank home top Q h :=
  .inl ⟨hsweep, hnext, hnone, hsome⟩

theorem sweepRow {Q : Option (S.Row t) → Hold S → Prop} (hg : g ∈ h.rows)
    (hbelow : h.sweep = none ∧ (∀ x ∈ h.rows, rank x < top) ∨ h.sweep = some g)
    (hrank : rank (.row t id) = top) (hhome : ∀ view v v', f view v = .set v' → home t v = some g)
    (hx : ∀ x, Q x { h with sweep := some g }) : (Tx.updateRow t id f).Climbs rank home top Q h :=
  .inr ⟨g, hg, hbelow, hrank, hhome, hx⟩

end Tx.Climbs

/-! ## Sessions that keep to it -/

structure Hold.Of (rank : Res S → Nat) (home : (t : S.Table) → S.Row t → Option (Res S)) (top : Nat)
    (h : Hold S) (l : Loc S) : Prop where
  own : h.rows ⊆ l.held
  all : ∀ t id v, Res.row t id ∈ l.held → l.world.db t id = some v → Res.row t id ∈ h.rows ∨
    ∃ g, h.sweep = some g ∧ rank (.row t id) = top ∧ home t v = some g
  low : ∀ g, h.sweep = some g → g ∈ h.rows ∧ ∀ x ∈ h.rows, rank x < top

namespace Hold.Of

variable {C : Contract S} {pid : Nat} {away : Bool} {l : Loc S} {w : World S} {t : S.Table} {id : Nat}

theorem nothing (w : World S) : (nothing : Hold S).Of rank home top (Loc.start w) :=
  ⟨fun _ hr => hr, fun _ _ _ hr => hr.elim, fun _ hg => by cases hg⟩

variable (hl : h.Of rank home top l)
include hl

theorem rely (hw : Rely C pid away l.held l.world w) : h.Of rank home top (l.on w) := by
  refine ⟨hl.own, fun t id v hr hv => hl.all t id v hr ?_, hl.low⟩
  rw [← hw.row hr]
  exact hv

theorem add {l' : Loc S} (hsweep : h.sweep = none) (hheld : l'.held = insert (.row t id) l.held)
    (hdb : l'.world.db = l.world.db) : (h.add (.row t id)).Of rank home top l' := by
  refine ⟨?_, fun t' id' v hr hv => .inl ?_, fun g hg => ?_⟩
  · rw [hheld]
    exact Set.insert_subset_insert hl.own
  · rw [hheld] at hr
    rcases hr with heq | hr
    · exact .inl heq
    · rcases hl.all t' id' v hr (hdb ▸ hv) with hmem | ⟨g, hg, -⟩
      · exact .inr hmem
      · cases hsweep.symm.trans hg
  · rw [Hold.add, hsweep] at hg
    cases hg

theorem sweep (hg : g ∈ h.rows)
    (hbelow : h.sweep = none ∧ (∀ x ∈ h.rows, rank x < top) ∨ h.sweep = some g) :
    ({ h with sweep := some g } : Hold S).Of rank home top l := by
  refine ⟨hl.own, fun t id v hr hv => ?_, fun g' hg' => ?_⟩
  · refine (hl.all t id v hr hv).imp_right ?_
    rintro ⟨_, hg', hrest⟩
    rcases hbelow with ⟨hnone, -⟩ | hsome
    · cases hnone.symm.trans hg'
    · cases hsome.symm.trans hg'
      exact ⟨g, rfl, hrest⟩
  · cases hg'
    rcases hbelow with ⟨-, hlow⟩ | hsome
    · exact ⟨hg, hlow⟩
    · exact hl.low g hsome

theorem write {v v' : S.Row t} (hwf : l.WF) (hsweep : h.sweep = some g)
    (hrank : rank (.row t id) = top) (hv : l.view.rows t id = some v) (hhome : home t v = some g) :
    h.Of rank home top (l.write t id v') := by
  refine ⟨hl.own.trans (Set.subset_insert _ _), fun t' id' v0 hr hv0 => ?_, hl.low⟩
  rcases hr with heq | hr
  · cases heq
    rcases Store.apply_eq_some hv with hpend | ⟨-, hdb⟩
    · exact hl.all t id v0 (hwf.pend_held t id v hpend) hv0
    · cases hdb.symm.trans hv0
      exact .inr ⟨g, hsweep, hrank, hhome⟩
  · exact hl.all t' id' v0 hr hv0

theorem insert (hwf : l.WF) (v : S.Row t) :
    h.Of rank home top ((l.bump t).add t (l.world.seq t + 1) v) := by
  refine ⟨fun r hr => .inr (.inl (hl.own hr)), fun t' id' v0 hr hv0 => ?_, hl.low⟩
  rcases hr with heq | hr | ⟨key, -, heq⟩
  · cases heq
    have hle : l.world.seq t + 1 ≤ l.world.seq t := (hwf.bounded t _ v0 hv0).2
    omega
  · exact hl.all t' id' v0 hr hv0
  · cases heq

end Hold.Of

def Session.Climbs (rank : Res S → Nat) (home : (t : S.Table) → S.Row t → Option (Res S)) (top : Nat)
    (σ : Session S) (l : Loc S) : Prop :=
  match σ.phase with
  | .running _ body _ => ∃ h : Hold S, h.Of rank home top l ∧
      body.Climbs rank home top (fun _ _ => True) h
  | _ => True

namespace Session.Climbs

variable {C : Contract S} {P : Service S} {s s' : Sys S} {i pid : Nat} {label : α → S.Op}
  {k : Except S.Err α → Proc S Unit} {body : Tx S α}

theorem execTx (hwf : (s.loc i).WF) (hl : h.Of rank home top (s.loc i))
    (hc : body.Climbs rank home top (fun _ _ => True) h)
    (he : s.execTx i pid label k body = some s') :
    ∃ σ', s'.sessions i = some σ' ∧ σ'.Climbs rank home top (s'.loc i) := by
  -- the transaction goes on with another hold
  have goes : ∀ (s1 : Sys S) (body' : Tx S α) (h' : Hold S), h'.Of rank home top (s1.loc i) →
      body'.Climbs rank home top (fun _ _ => True) h' →
      ∃ σ', (s1.put i ⟨pid, .running label body' k⟩).sessions i = some σ' ∧
        σ'.Climbs rank home top ((s1.put i ⟨pid, .running label body' k⟩).loc i) :=
    fun s1 body' h' hl' hc' => ⟨_, Sys.put_self _, h', hl', hc'⟩
  cases body with
  | ret | ask => cases he
  | throw =>
    cases he
    exact ⟨_, Sys.put_self _, trivial⟩
  | select =>
    cases he
    exact goes _ _ h hl (hc _)
  | lock =>
    obtain ⟨hsweep, -, hbusy, hnone, hsome⟩ := hc
    simp only [Sys.execTx] at he
    split at he
    · cases he
      exact goes _ _ h hl hnone
    · next v hv =>
      split at he
      · cases he
        exact goes _ _ _ (hl.add hsweep (by rw [Sys.grab_loc_self]; rfl) rfl) (hsome v)
      · split at he
        · cases he
          exact goes _ _ h hl hbusy
        · cases he
  | update =>
    simp only [Sys.execTx] at he
    rcases hc with ⟨hsweep, -, hnone, hsome⟩ | ⟨g, hg, hbelow, hrank, hhome, hk⟩
    · split at he
      · cases he
        exact goes _ _ h hl hnone
      · split at he
        · cases he
          exact goes _ _ h hl hnone
        · cases he
        · next v' _ =>
          split at he
          · cases he
            exact goes _ _ _ (hl.add hsweep (by rw [Sys.write_loc_self]; rfl) rfl) (hsome v')
          · cases he
    · have hl' := hl.sweep hg hbelow
      split at he
      · cases he
        exact goes _ _ _ hl' (hk none)
      · next v hv =>
        split at he
        · cases he
          exact goes _ _ _ hl' (hk none)
        · cases he
        · next v' hf =>
          split at he
          · cases he
            refine goes _ _ _ ?_ (hk (some v'))
            rw [Sys.write_loc_self]
            exact hl'.write hwf rfl hrank hv (hhome _ v v' hf)
          · cases he
  | insert t row =>
    simp only [Sys.execTx] at he
    split at he
    · split at he
      · cases he
        exact goes _ _ h ⟨hl.own, hl.all, hl.low⟩ (hc none)
      · cases he
        refine goes (s.insert i t (row (s.world.seq t + 1))) _ h ?_ (hc _)
        rw [Sys.insert_loc_self]
        exact hl.insert hwf _
    · cases he

theorem own {σ σ' : Session S} (hs : Sound C s) (hσ : s.sessions i = some σ)
    (hc : σ.Climbs rank home top (s.loc i))
    (hT : σ.Each fun _ _ body => body.Climbs rank home top (fun _ _ => True) .nothing)
    {m : Move S P.Call} (hm : s.step P m = some s') (hsid : m.sid = some i)
    (hσ' : s'.sessions i = some σ') :
    σ'.Climbs rank home top (s'.loc i) := by
  have put : ∀ {s1 : Sys S} {τ : Session S}, (s1.put i τ).sessions i = some σ' → ¬ τ.InTx →
      σ'.Climbs rank home top ((s1.put i τ).loc i) := by
    rintro _ ⟨p, phase⟩ hτ hout
    cases Sys.put_inj hτ
    cases phase with
    | running => exact absurd trivial hout
    | _ => trivial
  obtain ⟨ρ, hρ, ho⟩ := Sys.Own.of_step hm hsid
  cases hσ.symm.trans hρ
  cases ho with
  | begin =>
    cases Sys.put_inj hσ'
    refine ⟨.nothing, ?_, hT.1⟩
    rw [Sys.put_loc, hs.loc_of_quiet fun τ hτ => by rw [hσ] at hτ; cases hτ; exact id]
    exact .nothing _
  | exec he =>
    obtain ⟨h, hl, hbody⟩ := hc
    obtain ⟨τ, hτ, hclimbs⟩ := execTx (hs.wf i) hl hbody he
    cases hτ.symm.trans hσ'
    exact hclimbs
  | ask pid _ a k' k r =>
    cases Sys.put_inj hσ'
    obtain ⟨h, hl, hbody⟩ := hc
    have ha := ((hs.ok i _ hσ).1 _ .refl (hs.wf i) hs.inv).1
    have hrely : Rely C pid false (s.loc i).held s.world (s.world.record (.act pid a r)) :=
      .single (.asked ha)
    exact ⟨h, hl.rely hrely, hbody _⟩
  | abandon | settle =>
    cases Sys.drop_self.symm.trans hσ'
  | _ => exact put hσ' id

end Session.Climbs

/-! ## Nobody waits in a circle -/

structure Orderly (C : Contract S) (rank : Res S → Nat)
    (home : (t : S.Table) → S.Row t → Option (Res S)) (top : Nat) (s : Sys S) : Prop where
  sound : Sound C s
  all : ∀ i σ, s.sessions i = some σ →
    (σ.Each fun _ _ body => body.Climbs rank home top (fun _ _ => True) .nothing) ∧
      σ.Climbs rank home top (s.loc i)

def Service.Climbs (P : Service S) (rank : Res S → Nat)
    (home : (t : S.Table) → S.Row t → Option (Res S)) (top : Nat) : Prop :=
  ∀ c, (P.code c).Each fun _ _ body => body.Climbs rank home top (fun _ _ => True) .nothing

namespace Orderly

variable {C : Contract S} {P : Service S} {s s' : Sys S} {i j : Nat} {r r' : Res S}

theorem atRest {w : World S} (h : C.Sane w) : Orderly C rank home top (Sys.atRest w) where
  sound := .atRest h
  all := fun _ _ hi => by simp [Sys.atRest] at hi

theorem step (hK : C.Kept) (hP : P.Keeps C) (hclimbs : P.Climbs rank home top)
    (ho : Orderly C rank home top s) {m : Move S P.Call} (hm : s.step P m = some s') :
    Orderly C rank home top s' := by
  refine ⟨(ho.sound.step hK hP hm).1, ho.sound.everybody (R := fun σ l =>
    (σ.Each fun _ _ body => body.Climbs rank home top (fun _ _ => True) .nothing) ∧
      σ.Climbs rank home top l) ho.all hm (fun c _ _ => ⟨hclimbs c, trivial⟩)
    (fun _ _ _ => ⟨trivial, trivial⟩) ?_ ?_⟩
  · rintro ⟨_, phase⟩ l w ⟨heach, hc⟩ hw
    refine ⟨heach, ?_⟩
    cases phase with
    | running =>
      obtain ⟨h, hl, hbody⟩ := hc
      exact ⟨h, hl.rely hw, hbody⟩
    | _ => trivial
  · rintro i σ _ hi ⟨heach, hc⟩ hsid hσ'
    exact ⟨heach.own ho.sound hi hm hsid hσ', hc.own ho.sound hi heach hm hsid hσ'⟩

/-- In every run, sessions hold their rows in order. -/
theorem run (hK : C.Kept) (hP : P.Keeps C) (hclimbs : P.Climbs rank home top)
    (ho : Orderly C rank home top s) {ms : List (Move S P.Call)} (hr : s.run P ms = some s') :
    Orderly C rank home top s' := by
  induction ms generalizing s with
  | nil =>
    cases hr
    exact ho
  | cons m _ ih =>
    obtain ⟨_, hm, hr⟩ := Option.bind_eq_some_iff.mp hr
    exact ih (ho.step hK hP hclimbs hm) hr

/-! ### Along the edges of the graph -/

structure Reaches (rank : Res S → Nat) (home : (t : S.Table) → S.Row t → Option (Res S)) (top : Nat)
    (s : Sys S) (i : Nat) (r : Res S) (h : Hold S) : Prop where
  of : h.Of rank home top (s.loc i)
  above : ∀ x ∈ h.rows, rank x < rank r
  swept : ∀ g, h.sweep = some g → rank r = top ∧ s.homeOf home r = some g

theorem above_of_next (hn : h.Next rank (.row t id)) (hl : h.Of rank home top (s.loc i))
    (ha : ¬ s.available i (.row t id) = true) : ∀ x ∈ h.rows, rank x < rank (.row t id) := by
  refine hn.resolve_left fun hmem => ha ?_
  have hlock : s.locks (.row t id) = some i := hl.own hmem
  simp [Sys.available, hlock]

theorem committed_of_view {v : S.Row t} (hwf : (s.loc i).WF) (hv : (s.view i).rows t id = some v)
    (ha : ¬ s.available i (.row t id) = true) : s.world.db t id = some v := by
  rcases Store.apply_eq_some hv with hpend | ⟨-, hdb⟩
  · have hlock : s.locks (.row t id) = some i := hwf.pend_held t id v hpend
    exact absurd (by simp [Sys.available, hlock]) ha
  · exact hdb

variable (ho : Orderly C rank home top s)
include ho

/-- Who waits has a lower rank than the row waited for. -/
theorem reaches (hw : s.wants i = some r) :
    s.available i r = false ∧ (∃ t id v, r = .row t id ∧ s.world.db t id = some v) ∧
      ∃ h, Reaches rank home top s i r h := by
  unfold Sys.wants at hw
  split at hw
  · next hi =>
    obtain ⟨h, hl, hc⟩ := (ho.all i _ hi).2
    unfold Sys.wantsTx at hw
    split at hw
    · split at hw
      · cases hw
      · next v hv =>
        obtain ⟨hn, hw⟩ := Option.ite_none_left_eq_some.mp hw
        cases hw
        obtain ⟨hnowait, ha⟩ := not_or.mp (Bool.or_eq_true _ _ ▸ hn)
        obtain ⟨hsweep, hnext, -⟩ := hc
        refine ⟨by simpa using ha, ⟨_, _, v, rfl, committed_of_view (ho.sound.wf i) hv ha⟩, h, hl,
          above_of_next (hnext.resolve_left hnowait) hl ha, fun g hg => ?_⟩
        cases hsweep.symm.trans hg
    · split at hw
      · cases hw
      · next v hv =>
        split at hw
        · next v' hf =>
          obtain ⟨ha, hw⟩ := Option.ite_none_left_eq_some.mp hw
          cases hw
          have hdb := committed_of_view (ho.sound.wf i) hv ha
          rcases hc with ⟨hsweep, hnext, -⟩ | ⟨g, hg, hbelow, hrank, hhome, -⟩
          · refine ⟨by simpa using ha, ⟨_, _, v, rfl, hdb⟩, h, hl, above_of_next hnext hl ha, fun g hg => ?_⟩
            cases hsweep.symm.trans hg
          · have hl' := hl.sweep hg hbelow
            refine ⟨by simpa using ha, ⟨_, _, v, rfl, hdb⟩, _, hl', ?_, fun g' hg' => ⟨hrank, ?_⟩⟩
            · rw [hrank]
              exact (hl'.low g rfl).2
            · cases hg'
              rw [Sys.homeOf, hdb]
              exact hhome _ v v' hf
        · cases hw
    · cases hw
  · cases hw

theorem waits_ne (hw : s.Waits i j) : i ≠ j := by
  rintro rfl
  obtain ⟨r, hr, hl⟩ := hw
  have ha := (ho.reaches hr).1
  simp [Sys.available, hl] at ha

def Level (home : (t : S.Table) → S.Row t → Option (Res S)) (s : Sys S) (j : Nat) (r r' : Res S) : Prop :=
  ∃ g, s.locks g = some j ∧ s.homeOf home r = some g ∧ s.homeOf home r' = some g

/-- Along an edge the rank goes up, unless both rows belong to one sweep. -/
theorem edge (hi : s.wants i = some r) (hl : s.locks r = some j) (hj : s.wants j = some r') :
    rank r < rank r' ∨ rank r = rank r' ∧ Level home s j r r' := by
  obtain ⟨-, ⟨t, id, v, rfl, hdb⟩, -⟩ := ho.reaches hi
  obtain ⟨-, -, h, hr⟩ := ho.reaches hj
  rcases hr.of.all t id v hl hdb with hmem | ⟨g, hg, htop, hhome⟩
  · exact .inl (hr.above _ hmem)
  · obtain ⟨htop', hhome'⟩ := hr.swept g hg
    refine .inr ⟨htop.trans htop'.symm, g, hr.of.own (hr.of.low g hg).1, ?_, hhome'⟩
    rw [Sys.homeOf, hdb]
    exact hhome

/-- Along a path of more than one edge the rank goes up: the rows of one sweep have one home, and
only one session has it locked. -/
theorem path (hp : Relation.TransGen s.Waits i j) (hi : s.wants i = some r)
    (hj : s.wants j = some r') :
    rank r < rank r' ∨ rank r = rank r' ∧ s.Waits i j ∧ Level home s j r r' := by
  induction hp generalizing r' with
  | single hw =>
    obtain ⟨r1, hr1, hl⟩ := hw
    cases hi.symm.trans hr1
    exact (ho.edge hi hl hj).imp_right fun ⟨heq, hlevel⟩ => ⟨heq, ⟨r, hi, hl⟩, hlevel⟩
  | tail _ hw ih =>
    have hne := ho.waits_ne hw
    obtain ⟨_, hr1, hl⟩ := hw
    left
    rcases ih hr1 with hlt | ⟨heq, -, g, hg, -, hhome⟩ <;>
      rcases ho.edge hr1 hl hj with hlt' | ⟨heq', g', hg', hhome', -⟩
    · exact hlt.trans hlt'
    · exact heq' ▸ hlt
    · exact heq ▸ hlt'
    · cases hhome.symm.trans hhome'
      exact absurd (Option.some.inj (hg.symm.trans hg')) hne

/-- **The waits-for graph has no cycle.** -/
theorem acyclic (i : Nat) : ¬ Relation.TransGen s.Waits i i := by
  intro hp
  obtain ⟨r, hr⟩ : ∃ r, s.wants i = some r := by
    rcases Relation.TransGen.head'_iff.mp hp with ⟨j, ⟨r, hr, -⟩, -⟩
    exact ⟨r, hr⟩
  rcases ho.path hp hr hr with hlt | ⟨-, hw, -⟩
  · exact Nat.lt_irrefl _ hlt
  · exact ho.waits_ne hw rfl

end Orderly

end Txn
