import Dogx.Txn.Sound
import Dogx.Txn.Moves

/-!
# Every move keeps the contract

One case for each kind of move, each of them an instance of `Sound.change`, and from them the
result about whole runs.
-/

namespace Txn

variable {S : Sig} {C : Contract S} {s s' s₁ : Sys S} {i j id pid : Nat} {σ : Session S}
  {t : S.Table} {op : S.Op} {v : S.Row t} {P : Service S} {ms : List (Move S P.Call)}

/-! ## What one session's transaction sees after a step -/

namespace Sys

@[simp] theorem put_loc (σ : Session S) : (s.put i σ).loc j = s.loc j := rfl
@[simp] theorem put_world (σ : Session S) : (s.put i σ).world = s.world := rfl
@[simp] theorem put_self (σ : Session S) : (s.put i σ).sessions i = some σ := by simp [put]
theorem put_inj {τ : Session S} (h : (s.put i σ).sessions i = some τ) : σ = τ := by simpa using h
@[simp] theorem drop_loc : (s.drop i).loc j = s.loc j := rfl
@[simp] theorem drop_self : (s.drop i).sessions i = none := by simp [drop]

theorem put_ne (σ : Session S) (h : j ≠ i) : (s.put i σ).sessions j = s.sessions j := by
  simp [put, h]

theorem drop_ne (h : j ≠ i) : (s.drop i).sessions j = s.sessions j := by simp [drop, h]

theorem grab_loc_self (r : Res S) : (s.grab i r).loc i = (s.loc i).hold r := by
  simp only [loc, grab, Loc.hold, Loc.mk.injEq, true_and]
  ext r'
  by_cases hr : r' = r
  · subst hr; simp
  · simp [hr]

theorem not_locked_of_available {r : Res S} (ha : s.available i r = true) (hj : j ≠ i) :
    s.locks r ≠ some j := by
  intro h
  rw [available, h] at ha
  simp [hj] at ha

theorem grab_loc_ne {r : Res S} (ha : s.available i r = true) (hj : j ≠ i) :
    (s.grab i r).loc j = s.loc j := by
  simp only [loc, grab, Loc.mk.injEq, true_and]
  ext r'
  by_cases hr : r' = r
  · subst hr
    simpa [Ne.symm hj] using not_locked_of_available ha hj
  · simp [hr]

theorem write_loc_self (t : S.Table) (id : Nat) (v : S.Row t) :
    (s.write i t id v).loc i = (s.loc i).write t id v := by
  have h := grab_loc_self (s := s) (i := i) (Res.row t id)
  simp only [loc, grab, Loc.hold, Loc.mk.injEq] at h
  simp [loc, write, grab, Loc.write, h]

theorem write_loc_ne (v : S.Row t) (ha : s.available i (.row t id) = true) (hj : j ≠ i) :
    (s.write i t id v).loc j = s.loc j := by
  have h := grab_loc_ne ha hj
  simp only [loc, grab] at h
  simp [loc, write, grab, h, hj]

theorem release_loc_self : (s.release i).loc i = Loc.start s.world := by
  simp only [loc, release, Loc.start, Function.update_self, Loc.mk.injEq, true_and]
  ext r
  simp only [Set.mem_ofPred_eq]
  split <;> simp_all

theorem release_loc_ne (hj : j ≠ i) : (s.release i).loc j = s.loc j := by
  simp only [loc, release, Function.update_of_ne hj, Loc.mk.injEq, true_and]
  ext r
  simp only [Set.mem_ofPred_eq]
  split
  · next h => simp [h, Ne.symm hj]
  · rfl

theorem release_quiet : (s.release i).pend i = Store.empty ∧ ∀ r, (s.release i).locks r ≠ some i := by
  have h := release_loc_self (s := s) (i := i)
  refine ⟨congrArg Loc.pend h, fun r hr => ?_⟩
  have hm : r ∈ ((s.release i).loc i).held := hr
  rw [h] at hm
  exact hm

theorem detach_loc_self (hi : i < s.next) :
    (s.detach i pid op).loc i = Loc.start (s.world.record (.lost pid op)) := by
  simp only [loc, detach, Loc.start, Function.update_self, Loc.mk.injEq, true_and]
  ext r
  simp only [Set.mem_ofPred_eq, Set.mem_empty_iff_false, iff_false]
  split
  · simp; omega
  · assumption

theorem detach_loc_next (hi : i < s.next) (hnew : ∀ r, s.locks r ≠ some s.next) :
    (s.detach i pid op).loc s.next = (s.loc i).on (s.world.record (.lost pid op)) := by
  have hne : s.next ≠ i := by omega
  simp only [loc, detach, Loc.on, Function.update_of_ne hne, Function.update_self, Loc.mk.injEq,
    true_and]
  ext r
  simp only [Set.mem_ofPred_eq]
  split
  · next hr => simp [hr]
  · next hr => simp [hr, hnew r]

theorem detach_loc_ne (hj : j ≠ i) (hj' : j ≠ s.next) :
    (s.detach i pid op).loc j = (s.loc j).on (s.world.record (.lost pid op)) := by
  simp only [loc, detach, Loc.on, Function.update_of_ne hj, Function.update_of_ne hj',
    Loc.mk.injEq, true_and]
  ext r
  simp only [Set.mem_ofPred_eq]
  split
  · next hr => simp [hr, Ne.symm hj, Ne.symm hj']
  · rfl

theorem not_occupied_of_conflicts (hwf : (s.loc i).WF) (hc : s.conflicts i t v = false) :
    ∀ k ∈ S.keys t v, ¬ (s.loc i).view.rows.Occupied t k := by
  rintro k hk ⟨id, _, hv', hk'⟩
  have hid := (hwf.view_bounded hv').2
  simp only [conflicts, List.any_eq_false] at hc
  have hno := hc k hk
  simp only [Bool.not_eq_true, List.any_eq_false, List.mem_range] at hno
  have := hno id (Nat.lt_succ_of_le hid)
  rw [view, hv'] at this
  simp [hk'] at this

end Sys

/-! ## Inside a transaction -/

structure Ran (s : Sys S) (i : Nat) (s₁ : Sys S) : Prop where
  sessions : s₁.sessions = s.sessions
  next : s₁.next = s.next
  world : s₁.world = s.world ∨ ∃ t, s₁.world = s.world.bump t
  other : ∀ j, j ≠ i → s₁.loc j = (s.loc j).on s₁.world
  held : (s.loc i).held ⊆ (s₁.loc i).held
  wf : (s₁.loc i).WF

namespace Ran

variable (hwf : (s.loc i).WF)
include hwf

theorem nothing : Ran s i s :=
  ⟨rfl, rfl, .inl rfl, fun _ _ => rfl, subset_rfl, hwf⟩

theorem grab (hv : (s.view i).rows t id = some v) (ha : s.available i (.row t id) = true) :
    Ran s i (s.grab i (.row t id)) := by
  refine ⟨rfl, rfl, .inl rfl, fun j hj => Sys.grab_loc_ne ha hj, ?_, ?_⟩
  · rw [Sys.grab_loc_self]
    exact Set.subset_insert _ _
  · rw [Sys.grab_loc_self]
    exact hwf.hold hv

theorem write {v' : S.Row t} (hv : (s.view i).rows t id = some v)
    (ha : s.available i (.row t id) = true) (hkeys : S.keys t v' = S.keys t v) :
    Ran s i (s.write i t id v') := by
  refine ⟨rfl, rfl, .inl rfl, fun j hj => Sys.write_loc_ne v' ha hj, ?_, ?_⟩
  · rw [Sys.write_loc_self]
    exact Set.subset_insert _ _
  · rw [Sys.write_loc_self]
    exact hwf.write hv hkeys

theorem bump (t : S.Table) : Ran s i { s with world := s.world.bump t } :=
  ⟨rfl, rfl, .inr ⟨t, rfl⟩, fun _ _ => rfl, subset_rfl, hwf.bump t⟩

end Ran

namespace Sys

def insert (s : Sys S) (i : Nat) (t : S.Table) (v : S.Row t) : Sys S :=
  (grabAll { s with world := s.world.bump t } i t (S.keys t v)).write i t (s.world.seq t + 1) v

theorem insert_loc_self (t : S.Table) (v : S.Row t) :
    (s.insert i t v).loc i = ((s.loc i).bump t).add t (s.world.seq t + 1) v := by
  rw [insert, write_loc_self]
  simp only [loc, grabAll, Loc.write, Loc.bump, Loc.add, Loc.mk.injEq, true_and]
  ext r
  simp only [Set.mem_insert_iff, Set.mem_ofPred_eq, Set.mem_union]
  split
  · next hr => simp [hr]
  · next hr => simp only [hr, or_false]

theorem insert_loc_ne (hwf : ∀ j, (s.loc j).WF)
    (hav : ((S.keys t v).all fun k => s.available i (.key t k)) = true) (hj : j ≠ i) :
    (s.insert i t v).loc j = (s.loc j).on (s.world.bump t) := by
  -- nobody holds the row that does not exist yet
  have hfree : s.locks (.row t (s.world.seq t + 1)) = none := by
    cases hl : s.locks (.row t (s.world.seq t + 1)) with
    | none => rfl
    | some j =>
      have hle : s.world.seq t + 1 ≤ s.world.seq t := (hwf j).held_bounded t _ hl
      omega
  rw [insert, write_loc_ne v (by simp [available, grabAll, hfree]) hj]
  simp only [loc, grabAll, Loc.on, Loc.mk.injEq, true_and]
  ext r
  simp only [Set.mem_ofPred_eq]
  split
  · next hr =>
    obtain ⟨key, hkey, rfl⟩ := hr
    have := not_locked_of_available (List.all_eq_true.mp hav key hkey) hj
    simp [this, Ne.symm hj]
  · rfl

variable {α : Type} {pid : Nat} {label : α → S.Op} {body : Tx S α}
  {k : Except S.Err α → Proc S Unit} {Q : α → Loc S → Prop} {E : S.Err → World S → Prop}

/-- A statement runs, fails the transaction, or is its last. -/
theorem execTx_cases (hwf : ∀ j, (s.loc j).WF) (hinv : C.Inv s.world)
    (hwp : body.wp C pid Q E (s.loc i)) (he : s.execTx i pid label k body = some s') :
    (∃ e, E e s.world ∧ s' = (s.release i).put i ⟨pid, .idle (k (.error e))⟩) ∨
    ∃ body' s₁, Ran s i s₁ ∧ body'.wp C pid Q E (s₁.loc i) ∧
      s' = s₁.put i ⟨pid, .running label body' k⟩ := by
  cases body with
  | ret | ask => simp [execTx] at he
  | throw e =>
    cases he
    exact .inl ⟨e, hwp _ .refl (hwf i) hinv, rfl⟩
  | select =>
    cases he
    exact .inr ⟨_, s, .nothing (hwf i), hwp _ .refl (hwf i) hinv, rfl⟩
  | lock t id =>
    obtain ⟨hbusy, hnone, hsome⟩ := hwp _ .refl (hwf i) hinv
    simp only [execTx] at he
    split at he
    · next hv =>
      cases he
      exact .inr ⟨_, s, .nothing (hwf i), hnone hv, rfl⟩
    · next v hv =>
      split at he
      · next ha =>
        cases he
        refine .inr ⟨_, s.grab i (.row t id), .grab (hwf i) hv ha, ?_, rfl⟩
        rw [grab_loc_self]
        exact hsome v hv
      · split at he
        · next hn =>
          cases he
          exact .inr ⟨_, s, .nothing (hwf i), hbusy hn, rfl⟩
        · simp at he
  | update t id =>
    obtain ⟨hskip, hset⟩ := hwp _ .refl (hwf i) hinv
    simp only [execTx] at he
    split at he
    · next hv =>
      cases he
      refine .inr ⟨_, s, .nothing (hwf i), hskip fun v hv' => ?_, rfl⟩
      exact absurd ((show (s.view i).rows t id = some v from hv').symm.trans hv) (by simp)
    · next v hv =>
      split at he
      · next hf =>
        cases he
        refine .inr ⟨_, s, .nothing (hwf i), hskip fun v' hv' => ?_, rfl⟩
        have heq : some v' = some v := (show (s.view i).rows t id = some v' from hv').symm.trans hv
        cases heq
        exact hf
      · simp at he
      · next v' hf =>
        obtain ⟨hkeys, hwp'⟩ := hset v v' hv hf
        split at he
        · next ha =>
          cases he
          refine .inr ⟨_, s.write i t id v', .write (hwf i) hv ha hkeys, ?_, rfl⟩
          rw [write_loc_self]
          exact hwp'
        · simp at he
  | insert t row k' =>
    obtain ⟨hnone, hsome⟩ := hwp _ .refl (hwf i) hinv
    simp only [execTx] at he
    split at he
    · next hav =>
      split at he
      · cases he
        exact .inr ⟨_, _, .bump (hwf i) t, hnone, rfl⟩
      · next hc =>
        cases he
        have hfree := not_occupied_of_conflicts (hwf i) (eq_false_of_ne_true hc)
        refine .inr ⟨k' (some (s.world.seq t + 1)), s.insert i t (row (s.world.seq t + 1)),
          ⟨rfl, rfl, .inr ⟨t, rfl⟩, fun j hj => insert_loc_ne hwf hav hj, ?_, ?_⟩, ?_, rfl⟩
        · rw [insert_loc_self]
          exact fun r hr => .inr (.inl hr)
        · rw [insert_loc_self]
          exact (hwf i).add hfree
        · rw [insert_loc_self]
          exact hsome hfree
    · simp at he

end Sys

namespace Sound

variable {α : Type} {pid : Nat} {label : α → S.Op} {body : Tx S α}
  {k : Except S.Err α → Proc S Unit}

def Due (C : Contract S) (pid : Nat) (label : α → S.Op) (k : Except S.Err α → Proc S Unit) :
    α → Loc S → Prop :=
  fun a l => Ready C pid (label a) ((k (.ok a)).wp C pid fun _ _ => True)
    (fun w => ∀ f, (k (.error (S.fault f))).wp C pid (fun _ _ => True) w) l

def Refused (C : Contract S) (pid : Nat) (k : Except S.Err α → Proc S Unit) :
    S.Err → World S → Prop :=
  fun e w => (k (.error e)).wp C pid (fun _ _ => True) w

theorem goes_on (h : Sound C s) (hi : s.sessions i = some ⟨pid, .running label body k⟩)
    (body' : Tx S α) (hinv : C.Inv s₁.world) (hsess : s₁.sessions = s.sessions)
    (hnext : s₁.next = s.next) (hlog : ∀ e ∈ s₁.world.log, e ∈ s.world.log ∨ e.pid = pid)
    (hworld : Bearable C s i s₁.world) (hloc : ∀ j, j ≠ i → s₁.loc j = (s.loc j).on s₁.world)
    (hrely : Rely C pid false ∅ s.world s₁.world) (hwf : (s₁.loc i).WF)
    (hwp : body'.wp C pid (Due C pid label k) (Refused C pid k) (s₁.loc i)) :
    Sound C (s₁.put i ⟨pid, .running label body' k⟩) := by
  obtain ⟨_, herr, hlost⟩ := h.ok i _ hi
  refine h.change hi hinv hnext (fun j hj => ?_) hloc hworld hlog (fun e he => hrely.mem_log he)
    hwf (fun hq => ?_) (fun τ hτ => ?_)
  · rw [Sys.put_ne _ hj, hsess]
  · exact absurd trivial (hq _ (Sys.put_self _))
  · cases Sys.put_inj hτ
    exact ⟨rfl, rfl, hwp, fun w hw => herr w (hrely.trans hw), fun w hw => hlost w (hrely.trans hw)⟩

theorem gives_up (h : Sound C s) (hi : s.sessions i = some σ) (ha : σ.away = false)
    (p : Proc S Unit) (hp : p.wp C σ.pid (fun _ _ => True) s.world) :
    Sound C ((s.release i).put i ⟨σ.pid, .idle p⟩) := by
  refine h.change hi h.inv rfl (fun j hj => Sys.put_ne _ hj) (fun j hj => ?_) (h.bearable_refl i)
    (fun e he => Or.inl he) (fun e he => he) ?_ (fun _ => Sys.release_quiet) (fun τ hτ => ?_)
  · rw [Sys.put_loc, Sys.release_loc_ne hj]; rfl
  · rw [Sys.put_loc, Sys.release_loc_self]; exact (h.wf i).restart
  · cases Sys.put_inj hτ
    exact ⟨rfl, ha.symm, hp⟩

theorem execTx (hK : C.Kept) (h : Sound C s) (hi : s.sessions i = some ⟨pid, .running label body k⟩)
    (he : s.execTx i pid label k body = some s') : Sound C s' ∧ Evolution C s.world s'.world := by
  rcases Sys.execTx_cases h.wf h.inv (h.ok i _ hi).1 he with ⟨e, hgive, rfl⟩ | ⟨body', s₁, hran, hwp, rfl⟩
  · exact ⟨h.gives_up hi rfl _ hgive, .refl⟩
  rcases hran.world with heq | ⟨t, heq⟩
  · refine ⟨h.goes_on hi body' (heq ▸ h.inv) hran.sessions hran.next (fun e he => .inl (heq ▸ he)) ?_
      hran.other ?_ hran.wf hwp, ?_⟩
    · rw [heq]
      exact h.bearable_refl i
    · rw [heq]
      exact .refl
    · rw [Sys.put_world, heq]
      exact .refl
  · refine ⟨h.goes_on hi body' (heq ▸ hK _ _ (.bump _ t) h.inv) hran.sessions hran.next
      (fun e he => .inl ?_) ?_ hran.other ?_ hran.wf hwp, ?_⟩
    · rw [heq] at he
      exact he
    · rw [heq]
      exact h.bearable_bump i t
    · rw [heq]
      exact .single (.bump _ t)
    · rw [Sys.put_world, heq]
      exact .single (.bump _ t)

/-! ## Between transactions -/

theorem loc_of_quiet (h : Sound C s) (hq : ∀ σ, s.sessions i = some σ → ¬ σ.InTx) :
    s.loc i = Loc.start s.world := by
  obtain ⟨hp, hl⟩ := h.quiet i hq
  simp only [Sys.loc, Loc.start, hp, Loc.mk.injEq, true_and]
  ext r
  simpa using hl r

theorem between (h : Sound C s) (σ' : Session S) {w : World S} (hi : s.sessions i = some σ)
    (hinv : C.Inv w) (hout : ¬ σ.InTx) (hpid : σ'.pid = σ.pid) (haway : σ'.away = σ.away)
    (hworld : Bearable C s i w) (hlog : ∀ e ∈ w.log, e ∈ s.world.log ∨ e.pid = σ.pid)
    (hkeep : ∀ e ∈ s.world.log, e ∈ w.log) (hwf : ((s.loc i).on w).WF) (hok : σ'.OK C (Loc.start w)) :
    Sound C (Sys.put { s with world := w } i σ') := by
  have hq : ∀ τ, s.sessions i = some τ → ¬ τ.InTx := by
    intro τ hτ
    cases hi.symm.trans hτ
    exact hout
  have hl : (s.loc i).on w = Loc.start w := by rw [h.loc_of_quiet hq]; rfl
  refine h.change hi hinv rfl (fun j hj => Sys.put_ne _ hj) (fun _ _ => rfl) hworld hlog hkeep hwf
    (fun _ => h.quiet i hq) (fun τ hτ => ?_)
  cases Sys.put_inj hτ
  exact ⟨hpid, haway, by
    show σ'.OK C ((s.loc i).on w)
    rw [hl]; exact hok⟩

theorem between_alone (h : Sound C s) (σ' : Session S) (hi : s.sessions i = some σ)
    (hout : ¬ σ.InTx) (hpid : σ'.pid = σ.pid) (haway : σ'.away = σ.away)
    (hok : σ'.OK C (Loc.start s.world)) : Sound C (s.put i σ') :=
  h.between σ' hi h.inv hout hpid haway (h.bearable_refl i) (fun _ he => Or.inl he) (fun _ he => he)
    (h.wf i) hok

theorem tick (hK : C.Kept) (h : Sound C s) (d : Nat) :
    Sound C { s with world := s.world.tick d } where
  inv := hK _ _ (.tick _ d) h.inv
  wf := fun j => (h.wf j).tick d
  fresh := h.fresh
  quiet := h.quiet
  named := h.named
  logged := h.logged
  ok := fun j τ hτ => (h.ok j τ hτ).rely (.single (.tick _ d))

theorem spawn (h : Sound C s) {p : Proc S Unit} (hp : p.wp C s.next (fun _ _ => True) s.world) :
    Sound C (Sys.put { s with next := s.next + 1 } s.next ⟨s.next, .idle p⟩) where
  inv := h.inv
  wf := h.wf
  fresh := fun j hj => by
    have hj' : s.next + 1 ≤ j := hj
    rw [Sys.put_ne _ (by omega)]
    exact h.fresh j (by omega)
  quiet := fun j hj => by
    by_cases hn : j = s.next
    · subst hn
      exact h.quiet _ fun σ hσ => by rw [h.fresh _ (Nat.le_refl _)] at hσ; simp at hσ
    · refine h.quiet j fun σ hσ => hj σ ?_
      rw [Sys.put_ne _ hn]
      exact hσ
  named := fun j τ hτ => by
    by_cases hn : j = s.next
    · subst hn
      cases Sys.put_inj hτ
      exact ⟨Nat.lt_succ_self _, fun ha => by simp [Session.away] at ha, fun _ => rfl⟩
    · rw [Sys.put_ne _ hn] at hτ
      obtain ⟨h1, h2⟩ := h.named j τ hτ
      exact ⟨Nat.lt_succ_of_lt h1, h2⟩
  logged := fun e he => Nat.lt_succ_of_lt (h.logged e he)
  ok := fun j τ hτ => by
    by_cases hn : j = s.next
    · subst hn
      cases Sys.put_inj hτ
      exact hp
    · rw [Sys.put_ne _ hn] at hτ
      exact h.ok j τ hτ

/-! ## Commits -/

/-- A commit keeps the system sound. -/
theorem applies (hK : C.Kept) (h : Sound C s) (hi : s.sessions i = some σ)
    (hok : C.Commits σ.pid op (s.loc i)) (next : Option (Session S))
    (hself : ∀ τ, next = some τ → τ.pid = σ.pid ∧ τ.away = σ.away ∧
      τ.OK C (Loc.start ((s.loc i).commit σ.pid op))) :
    Sound C { s.apply i σ.pid op with sessions := Function.update s.sessions i next } ∧
      Evolution C s.world (s.apply i σ.pid op).world := by
  let s₁ : Sys S := { s with world := (s.loc i).commit σ.pid op }
  have hloc : (s₁.release i).loc i = Loc.start ((s.loc i).commit σ.pid op) := Sys.release_loc_self
  have hev : Evolves C s.world ((s.loc i).commit σ.pid op) := .commit (h.wf i) hok
  refine ⟨h.change hi (hK _ _ hev h.inv) rfl (fun j hj => ?_) (fun j hj => ?_)
    (h.bearable_commit hi hok) (fun e he => ?_) (fun e he => List.mem_cons_of_mem _ he) ?_
    (fun _ => Sys.release_quiet) (fun τ hτ => ?_), .single hev⟩
  · simp [hj]
  · exact (Sys.release_loc_ne (s := s₁) hj).trans rfl
  · rcases List.mem_cons.mp he with rfl | he
    · exact Or.inr rfl
    · exact Or.inl he
  · show ((s₁.release i).loc i).WF
    rw [hloc]; exact (h.wf i).commit_self σ.pid op
  · simp only [Function.update_self] at hτ
    obtain ⟨h1, h2, h3⟩ := hself τ hτ
    refine ⟨h1, h2, ?_⟩
    show τ.OK C ((s₁.release i).loc i)
    rw [hloc]; exact h3

theorem undone (h : Sound C s) (hi : s.sessions i = some σ) : Sound C ((s.release i).drop i) := by
  refine h.change hi h.inv rfl (fun j hj => Sys.drop_ne hj) (fun j hj => ?_) (h.bearable_refl i)
    (fun e he => Or.inl he) (fun e he => he) ?_ (fun _ => Sys.release_quiet) (fun τ hτ => ?_)
  · rw [Sys.drop_loc, Sys.release_loc_ne hj]; rfl
  · rw [Sys.drop_loc, Sys.release_loc_self]; exact (h.wf i).restart
  · rw [Sys.drop_self] at hτ
    simp at hτ

/-- So does a commit whose answer is lost. -/
theorem detaches (hK : C.Kept) (h : Sound C s) {a : α}
    (hi : s.sessions i = some ⟨pid, .running label (.ret a) k⟩) (f : S.Fault) :
    Sound C ((s.detach i pid (label a)).put i ⟨pid, .idle (k (.error (S.fault f)))⟩) := by
  obtain ⟨hwp, -, hlost⟩ := h.ok i _ hi
  have hlt := h.lt_next hi
  have hname : pid < s.next ∧ pid = i := ⟨(h.named i _ hi).1, (h.named i _ hi).2.2 rfl⟩
  let w := s.world.record (.lost pid (label a))
  have hgone : w.Lost pid := ⟨_, List.mem_cons_self⟩
  let s' : Sys S := (s.detach i pid (label a)).put i ⟨pid, .idle (k (.error (S.fault f)))⟩
  have hnew : ∀ r, s.locks r ≠ some s.next := (h.quiet s.next fun σ hσ => by
    rw [h.fresh _ (Nat.le_refl _)] at hσ; simp at hσ).2
  -- the locks and writes have moved to the new session, all others have kept theirs
  have hself : s'.loc i = Loc.start w := Sys.detach_loc_self hlt
  have hnext : s'.loc s.next = (s.loc i).on w := Sys.detach_loc_next hlt hnew
  have hother : ∀ j, j ≠ i → j ≠ s.next → s'.loc j = (s.loc j).on w :=
    fun _ hj hj' => Sys.detach_loc_ne hj hj'
  have hsess : ∀ j, j ≠ i → j ≠ s.next → s'.sessions j = s.sessions j := by
    intro j hj hj'
    simp [s', Sys.put, Sys.detach, hj, hj']
  have hsnext : s'.sessions s.next = some ⟨pid, .doubt (label a)⟩ := by
    simp [s', Sys.put, Sys.detach, Function.update_of_ne (by omega : s.next ≠ i)]
  have hworld : Bearable C s i w := h.bearable_lost hi rfl (label a)
  refine ⟨hK _ _ (.lost _ _ _) h.inv, fun j => ?_, fun j hj => ?_, fun j hj => ?_,
    fun j τ hτ => ?_, fun e' he' => ?_, fun j τ hτ => ?_⟩
  · by_cases hj : j = i
    · rw [hj, hself]; exact (h.wf i).restart.record (.lost pid (label a))
    · by_cases hj' : j = s.next
      · rw [hj', hnext]; exact (h.wf i).record _
      · rw [hother j hj hj']; exact (hworld j hj).1
  · have hj' : s.next + 1 ≤ j := hj
    rw [hsess j (by omega) (by omega)]
    exact h.fresh j (by omega)
  · by_cases hji : j = i
    · rw [hji]
      refine ⟨congrArg Loc.pend hself, fun r hr => ?_⟩
      have hm : r ∈ (s'.loc i).held := hr
      rw [hself] at hm
      exact hm
    · by_cases hj' : j = s.next
      · exact absurd (show Session.InTx ⟨pid, .doubt (label a)⟩ from trivial)
          (hj _ (hj' ▸ hsnext))
      · obtain ⟨h1, h2⟩ := h.quiet j fun σ hσ => hj σ (by rw [hsess j hji hj']; exact hσ)
        have hl := hother j hji hj'
        refine ⟨(congrArg Loc.pend hl).trans h1, fun r hr => ?_⟩
        have hm : r ∈ (s'.loc j).held := hr
        rw [hl] at hm
        exact h2 r hm
  · show τ.pid < s.next + 1 ∧ (τ.away = true → w.Lost τ.pid) ∧ _
    by_cases hj : j = i
    · subst hj
      cases Sys.put_inj hτ
      exact ⟨Nat.lt_succ_of_lt hname.1, fun _ => hgone, fun _ => hname.2⟩
    · by_cases hj' : j = s.next
      · subst hj'
        cases hsnext.symm.trans hτ
        exact ⟨Nat.lt_succ_of_lt hname.1, fun _ => hgone, fun ha => by simp [Session.away] at ha⟩
      · rw [hsess j hj hj'] at hτ
        obtain ⟨h1, h2, h3⟩ := h.named j τ hτ
        exact ⟨Nat.lt_succ_of_lt h1,
          fun ha => let ⟨op, hop⟩ := h2 ha; ⟨op, List.mem_cons_of_mem _ hop⟩, h3⟩
  · show e'.pid < s.next + 1
    rcases List.mem_cons.mp he' with rfl | he'
    · exact Nat.lt_succ_of_lt hname.1
    · exact Nat.lt_succ_of_lt (h.logged e' he')
  · by_cases hj : j = i
    · subst hj
      cases Sys.put_inj hτ
      exact hlost _ .refl f a
    · by_cases hj' : j = s.next
      · subst hj'
        cases hsnext.symm.trans hτ
        rw [hnext]
        have hleft : Rely C pid true (s.loc i).held s.world w := .single (.lost (Or.inr rfl))
        exact fun w' hw' hwf' hinv' =>
          (hwp _ .refl (h.wf i) h.inv).1 w' (hleft.trans hw') hwf' hinv'
      · rw [hother j hj hj']
        rw [hsess j hj hj'] at hτ
        exact (h.ok j τ hτ).rely ((hworld j hj).2 τ hτ)

/-! ## Moves -/

/-- Every move of a session keeps the system sound. -/
theorem own (hK : C.Kept) (h : Sound C s) (hi : s.sessions i = some σ) (ho : s.Own i σ s') :
    Sound C s' ∧ Evolution C s.world s'.world := by
  cases ho with
  | begin pid label body k =>
    have hok := (h.ok i _ hi : (Proc.transact label body k).wp C pid _ s.world) _ .refl
      (h.wf i).restart h.inv
    exact ⟨h.between_alone _ hi (fun h => h) rfl rfl hok, .refl⟩
  | exec he => exact h.execTx hK hi he
  | read pid q k =>
    have hok := (h.ok i _ hi : (Proc.read q k).wp C pid _ s.world) _ .refl (h.wf i).restart h.inv
    exact ⟨h.between_alone _ hi (fun h => h) rfl rfl hok.1, .refl⟩
  | unread pid q k f =>
    have hok := (h.ok i _ hi : (Proc.read q k).wp C pid _ s.world) _ .refl (h.wf i).restart h.inv
    exact ⟨h.between_alone _ hi (fun h => h) rfl rfl (hok.2 f), .refl⟩
  | act pid a k r =>
    obtain ⟨hact, hrest⟩ := (h.ok i _ hi : (Proc.act a k).wp C pid _ s.world) _ .refl h.inv r
    refine ⟨h.between _ hi (hK _ _ (.act hact) h.inv) (fun h => h) rfl rfl
      (h.bearable_act hi rfl hact) (fun e he => ?_) (fun e he => List.mem_cons_of_mem _ he)
      ((h.wf i).record _) hrest, .single (.act hact)⟩
    rcases List.mem_cons.mp he with rfl | he
    · exact Or.inr rfl
    · exact Or.inl he
  | ask _ _ a _ k r =>
    obtain ⟨ha, hrest⟩ := (h.ok i _ hi).1 _ .refl (h.wf i) h.inv
    obtain ⟨hact, hwp⟩ := hrest r
    refine ⟨h.goes_on hi _ (hK _ _ (.act hact) h.inv) rfl rfl (fun e he => ?_)
      (h.bearable_act hi rfl hact) (fun _ _ => rfl) (.single (.asked ha)) ((h.wf i).record _) hwp,
      .single (.act hact)⟩
    rcases List.mem_cons.mp he with rfl | he
    · exact Or.inr rfl
    · exact Or.inl he
  | undo _ _ _ k f => exact ⟨h.gives_up hi rfl _ ((h.ok i _ hi).2.1 _ .refl f), .refl⟩
  | abandon => exact ⟨h.undone hi, .refl⟩
  | commit pid label a k =>
    obtain ⟨hc, hok, hafter⟩ := (h.ok i _ hi).1 _ .refl (h.wf i) h.inv
    refine h.applies hK hi (hc _ .refl (h.wf i) h.inv) (some ⟨pid, .confirming (label a) a k⟩) ?_
    rintro τ ⟨⟩
    exact ⟨rfl, rfl, hok, hafter⟩
  | settle =>
    exact h.applies hK hi (h.ok i _ hi _ .refl (h.wf i) h.inv) none fun τ hτ => by simp at hτ
  | confirm => exact ⟨h.between_alone _ hi (fun h => h) rfl rfl (h.ok i _ hi).1, .refl⟩
  | detach _ _ a k f => exact ⟨h.detaches hK hi f, .single (.lost _ _ _)⟩
  | lose _ op a k f =>
    refine ⟨h.between _ hi (hK _ _ (.lost _ _ _) h.inv) (fun h => h) rfl rfl
      (h.bearable_lost hi rfl op) (fun e he => ?_) (fun e he => List.mem_cons_of_mem _ he)
      ((h.wf i).record _) ((h.ok i _ hi).2 _ .refl f), .single (.lost _ _ _)⟩
    rcases List.mem_cons.mp he with rfl | he
    · exact Or.inr rfl
    · exact Or.inl he

end Sound

def Service.Keeps (P : Service S) (C : Contract S) : Prop :=
  ∀ c w pid, P.admits c w = true → w.Fresh pid → (Loc.start w).WF → C.Inv w →
    (P.code c).wp C pid (fun _ _ => True) w

/-- **One move keeps every session within the contract.** -/
theorem Sound.step (hK : C.Kept) (hP : P.Keeps C) (h : Sound C s) {m : Move S P.Call}
    (hm : s.step P m = some s') : Sound C s' ∧ Evolution C s.world s'.world := by
  cases hsid : m.sid with
  | some =>
    obtain ⟨σ, hi, ho⟩ := Sys.Own.of_step hm hsid
    exact h.own hK hi ho
  | none =>
    cases m with
    | tick d =>
      cases hm
      exact ⟨h.tick hK d, .single (.tick _ d)⟩
    | spawn c =>
      obtain ⟨ha, hm⟩ := Option.ite_none_right_eq_some.mp hm
      cases hm
      have hfresh : s.world.Fresh s.next := fun e he => Nat.ne_of_lt (h.logged e he)
      exact ⟨h.spawn (hP c _ _ ha hfresh (h.wf 0).restart h.inv), .refl⟩
    | _ => cases hsid

def Phase.Commits (op : S.Op) (phase : Phase S) : Prop :=
  phase = .doubt op ∨
    ∃ (α : Type) (label : α → S.Op) (a : α) (k : _), phase = .running label (.ret a) k ∧ label a = op

inductive Sys.News (s s' : Sys S) (m : Move S P.Call) : Prop where
  | silent (hlog : s'.world.log = s.world.log)
  | event {e : Event S} (hlog : s'.world.log = e :: s.world.log)
      (other : ∀ pid op before writes, e ≠ .commit pid op before writes)
  | commit {i : Nat} {σ : Session S} {op : S.Op} (hi : s.sessions i = some σ) (hsid : m.sid = some i)
      (hphase : σ.phase.Commits op)
      (hlog : s'.world.log = .commit σ.pid op s.world.db (s.pend i) :: s.world.log)
      (hdb : s'.world.db = s.world.db.apply (s.pend i))

/-- A move adds one event at most, and only the commit of a session changes the tables. -/
theorem Sound.news (h : Sound C s) {m : Move S P.Call} (hm : s.step P m = some s') :
    s.News s' m := by
  cases hsid : m.sid with
  | none =>
    cases m with
    | tick =>
      cases hm
      exact .silent rfl
    | spawn =>
      obtain ⟨-, hm⟩ := Option.ite_none_right_eq_some.mp hm
      cases hm
      exact .silent rfl
    | _ => cases hsid
  | some i =>
    obtain ⟨σ, hi, ho⟩ := Sys.Own.of_step hm hsid
    cases ho with
    | exec he =>
      rcases Sys.execTx_cases h.wf h.inv (h.ok i _ hi).1 he with ⟨e, -, rfl⟩ | ⟨body', s1, hran, -, rfl⟩
      · exact .silent rfl
      · rcases hran.world with heq | ⟨t, heq⟩
        · exact .silent (by rw [Sys.put_world, heq])
        · exact .silent (by rw [Sys.put_world, heq]; rfl)
    | act | ask | detach | lose => exact .event rfl fun _ _ _ _ h => by cases h
    | commit _ label a k => exact .commit hi hsid (.inr ⟨_, label, a, k, rfl, rfl⟩) rfl rfl
    | settle => exact .commit hi hsid (.inl rfl) rfl rfl
    | _ => exact .silent rfl

/-- Every run of a service that keeps its contract is a sequence of whole effects. -/
theorem Sound.run (hK : C.Kept) (hP : P.Keeps C) (h : Sound C s) (hr : s.run P ms = some s') :
    Sound C s' ∧ Evolution C s.world s'.world := by
  induction ms generalizing s with
  | nil =>
    cases hr
    exact ⟨h, .refl⟩
  | cons m _ ih =>
    obtain ⟨_, hm, hr⟩ := Option.bind_eq_some_iff.mp hr
    obtain ⟨h1, hev1⟩ := h.step hK hP hm
    obtain ⟨h2, hev2⟩ := ih h1 hr
    exact ⟨h2, hev1.trans hev2⟩

/-- **Every interleaving is an evolution of the abstract system.** -/
theorem run_evolves (hinit : C.Inv World.init) (hK : C.Kept) (hP : P.Keeps C)
    (hr : Sys.init.run P ms = some s) : Evolution C World.init s.world :=
  ((Sound.init hinit).run hK hP hr).2

end Txn
