import Dogx.Authn.Ledger

/-!
# The index of a user's sessions

`RevokeAll` finds the sessions of a user by an index, a set with a lifetime of its own. As long as no
index goes away with a live session in it, every session that has been created or rotated is in the
index of its user, and a `RevokeAll` that runs alone deletes it.
-/

namespace Dogx.Authn

open Redis (Space Members Cursor Entry)

variable {ε : Type} {p : Phase ε} {user : Int} {c : Cmd ε} {ids : List String} {keys : Keys ε}
  {reply : Reply ε} {d pid : ℕ} {ms ms' : List (Store.Move ε)}

namespace Phase

/-- `Create`, or a rotation, has returned with success. -/
def succeeded : Phase ε → Bool
  | opening _ _ => true
  | returned (.created (.ok _)) | returned (.rotated (.ok _)) | returned (.refreshed (.ok _)) => true
  | _ => false

theorem marked_of_succeeded (h : p.succeeded = true) : p.marked = true ∧ p.creates? = none := by
  unfold succeeded at h
  split at h
  · exact ⟨rfl, rfl⟩
  · exact ⟨rfl, rfl⟩
  · exact ⟨rfl, rfl⟩
  · exact ⟨rfl, rfl⟩
  · cases h

def Takes (p : Phase ε) (sid : String) : Prop :=
  (∃ session e, p = unindexing session e ∧ session.id = sid) ∨ p.drops? = some sid

theorem takes_of_srem {sid : String} (hc : p.cmd = some (.srem user sid)) : p.Takes sid := by
  cases p <;> cases hc
  · exact .inl ⟨_, _, rfl, rfl⟩
  · exact .inr rfl
  · exact .inr rfl

def dropsNone (index : Space Int (Members String)) : Phase ε → Bool
  | dropping user => (index user).isNone
  | _ => true

theorem not_marked_of_starts {c : Call ε} {cfg : Issuer ε} (h : c.Starts cfg p) :
    p.marked = false := by
  cases h with
  | refused c _ ho => exact ho
  | _ => rfl

end Phase

namespace Store

variable {cfg : Issuer ε} {s s' : Store ε} {m : Move ε} {sid : String} {e' : Entry (Session ε)}

/-! ## What an index loses -/

def Drops (s : Store ε) (user : Int) : Move ε → Prop
  | .tick d => s.keys.index.elapse (s.keys.now + d) user = none
  | .exec pid _ _ | .lose pid _ _ => ∃ p, s.calls pid = some p ∧ p.phase = .dropping user
  | _ => False

def Outlives (s : Store ε) (sid : String) (e : Entry (Session ε)) : Move ε → Prop
  | .tick d => s.keys.sessions.elapse (s.keys.now + d) sid = some e
  | _ => s.keys.sessions sid = some e

/-- The move takes no index away that has a session of its user in it which outlives the move. -/
def Spares (s : Store ε) (m : Move ε) (_ : Store ε) : Prop :=
  ∀ sid e, s.Outlives sid e m → s.Drops e.value.userId m →
    s.keys.index.sismember e.value.userId sid = false

/-- A session leaves an index with the index, or by the command of a call for this session. -/
theorem exec_index {p : Process ε} {more : Bool} (hc : p.phase.cmd = some c)
    (hx : s.keys.exec ids more c = some (keys, reply))
    (hin : s.keys.index.sismember user sid = true) :
    keys.index.sismember user sid = true ∨ p.phase.Takes sid ∨ p.phase = .dropping user := by
  rcases Keys.exec_index hx hin with h | rfl | rfl
  · exact .inl h
  · exact .inr (.inl (Phase.takes_of_srem hc))
  · refine .inr (.inr ?_)
    cases hphase : p.phase <;> rw [hphase] at hc <;> cases hc
    rfl

theorem tick_index (hin : s.keys.index.sismember user sid = true) :
    (s.keys.tick d).index.sismember user sid = true ∨ (s.keys.tick d).index user = none := by
  cases hi : (s.keys.tick d).index user with
  | none => exact .inr rfl
  | some e =>
    obtain ⟨_, he', hhas⟩ := Space.sismember_iff.mp hin
    cases (Space.of_elapse hi).symm.trans he'
    exact .inl (Space.sismember_iff.mpr ⟨e, hi, hhas⟩)

/-- A session stays in the index of a user, or a call takes it out, or the index goes away. -/
theorem Change.index (h : Change cfg s m s') (hin : s.keys.index.sismember user sid = true) :
    s'.keys.index.sismember user sid = true ∨
    (∃ pid p, s.calls pid = some p ∧ p.phase.Takes sid) ∨ s.Drops user m := by
  cases h with
  | ticked =>
    rcases tick_index hin with h | hnone
    · exact .inl h
    · exact .inr (.inr hnone)
  | sent pid p c ids more keys reply hp hc hx | lost pid p c ids more keys reply hp hc hx =>
    rcases exec_index hc hx hin with h | ht | hd
    · exact .inl h
    · exact .inr (.inl ⟨pid, p, hp, ht⟩)
    · exact .inr (.inr ⟨p, hp, hd⟩)
  | _ => exact .inl hin

/-- A session that the move leaves was there before, unless the move has stored it. -/
theorem Change.outlives {e : Entry (Session ε)} (h : Change cfg s m s')
    (he : s.keys.sessions sid = some e) (he' : s'.keys.sessions sid = some e')
    (huser : e'.value.userId = e.value.userId) :
    ∃ e₁, s.Outlives sid e₁ m ∧ e₁.value.userId = e'.value.userId := by
  cases h with
  | ticked => exact ⟨e', he', rfl⟩
  | _ => exact ⟨e, he, huser.symm⟩

/-! ## Sessions in their index -/

def Listed (s : Store ε) (sid : String) : Prop :=
  ∀ e, s.keys.sessions sid = some e → s.keys.index.sismember e.value.userId sid = true

def Quiet (s : Store ε) (sid : String) : Prop :=
  ∀ pid p session, s.calls pid = some p → p.phase.creates? = some session → session.id = sid →
    p.phase.marked = true

theorem Moved.sessions (h : Moved cfg s s') (hq : s.Quiet sid)
    (he' : s'.keys.sessions sid = some e') :
    ∃ e, s.keys.sessions sid = some e ∧ e'.value.userId = e.value.userId := by
  cases h with
  | ticked => exact ⟨e', Space.of_elapse he', rfl⟩
  | spawned => exact ⟨e', he', rfl⟩
  | turned pid p _ _ _ hp ht =>
    rcases ht.sessions sid e' he' with ⟨e, he, -, huser⟩ | ⟨seconds, hphase, hid⟩
    · exact ⟨e, he, huser⟩
    · have := hq pid p e'.value hp (hphase ▸ rfl) hid
      rw [hphase] at this
      cases this

/-- A session leaves the index of its user with its own key only: the calls that take a session out
of an index have deleted it before, and the index as a whole stays by assumption. -/
theorem Listed.step (hl : s.Ledger cfg) (hm : s.step cfg m = some s') (hspares : s.Spares m s')
    (hq : s.Quiet sid) (h : s.Listed sid) : s'.Listed sid := by
  intro e' he'
  have hmoved := (step_change hm).moved
  obtain ⟨e, he, huser⟩ := hmoved.sessions hq he'
  have hin := h e he
  rw [← huser] at hin
  rcases (step_change hm).index hin with h | ⟨pid, p, hp, ht⟩ | hd
  · exact h
  · rcases ht with ⟨session, err, hphase, hid⟩ | hd
    · have := hq pid p session hp (hphase ▸ rfl) hid
      rw [hphase] at this
      cases this
    · cases (((hl.knows pid p hp).gone sid hd).none).symm.trans he
  · obtain ⟨e₁, hout, huser₁⟩ := (step_change hm).outlives he he' huser
    rw [← huser₁] at hd hin
    cases (hspares sid e₁ hout hd).symm.trans hin

def Indexed (cfg : Issuer ε) (s : Store ε) : Prop :=
  ∀ pid p sid, s.calls pid = some p → p.phase.marked = true → p.call.sid? cfg = some sid →
    s.Listed sid

theorem Ledger.quiet (hl : s.Ledger cfg) {p : Process ε} (hp : s.calls pid = some p)
    (hmarked : p.phase.marked = true) (hsid : p.call.sid? cfg = some sid) : s.Quiet sid := by
  rintro pid' q session hq hc rfl
  obtain rfl := hl.own pid' q session hq hc pid p hp hsid
  cases hp.symm.trans hq
  exact hmarked

theorem Ledger.listed (hl : s.Ledger cfg) {p : Process ε} {phase : Phase ε}
    (hp : s.calls pid = some p) (ht : p.phase.Turn s.keys keys phase)
    (ho : p.phase.owner? = some (sid, user)) (hin : keys.index.sismember user sid = true)
    (he' : keys.sessions sid = some e') : keys.index.sismember e'.value.userId sid = true := by
  rcases ht.sessions sid e' he' with ⟨e, he, -, huser⟩ | ⟨seconds, hphase, -⟩
  · rw [huser, (hl.knows pid p hp).users sid user ho e he]
    exact hin
  · rw [hphase] at ho
    cases ho

theorem Indexed.step (hl : s.Ledger cfg) (hm : s.step cfg m = some s') (hspares : s.Spares m s')
    (h : s.Indexed cfg) : s'.Indexed cfg := by
  have hkept : ∀ {pid p sid}, s.calls pid = some p → p.phase.marked = true →
      p.call.sid? cfg = some sid → s'.Listed sid := fun hp hmarked hsid =>
    Listed.step hl hm hspares (hl.quiet hp hmarked hsid) (h _ _ _ hp hmarked hsid)
  have hmoved := (step_change hm).moved
  intro pid' q sid hq hmarked hsid
  cases hmoved with
  | ticked => exact hkept hq hmarked hsid
  | spawned c phase _ hstart =>
    rcases calls_setPhase (p := { call := c, phase }) hq with ⟨rfl, rfl⟩ | ⟨-, hq⟩
    · cases (Phase.not_marked_of_starts hstart).symm.trans hmarked
    · exact hkept hq hmarked hsid
  | turned _ p _ _ _ hp ht =>
    rcases calls_setPhase hq with ⟨rfl, rfl⟩ | ⟨-, hq⟩
    · rcases ht.marked hmarked with hmarked | ⟨sid', user, ho, hin⟩
      · exact hkept hp hmarked hsid
      · have hsid' := (hl.knows pid' p hp).ids sid' (Phase.sid_of_owner ho)
        cases hsid'.symm.trans hsid
        exact fun e' he' => hl.listed hp ht ho hin he'
    · exact hkept hq hmarked hsid

/-! ## Sessions that have been handed out -/

structure Settled (s : Store ε) (sid : String) : Prop where
  named : sid ∈ s.named
  created : ∀ pid p session, s.calls pid = some p → p.phase.creates? = some session →
    session.id ≠ sid

theorem Settled.quiet (h : s.Settled sid) : s.Quiet sid :=
  fun pid p session hp hc hid => absurd hid (h.created pid p session hp hc)

theorem Settled.moved (h : s.Settled sid) (hm : Moved cfg s s') : s'.Settled sid := by
  cases hm with
  | ticked => exact ⟨h.named, h.created⟩
  | spawned c _ hadm hstart =>
    refine ⟨List.mem_append_right _ h.named, ?_⟩
    intro pid p session hp hc
    rcases Machine.Pool.update_eq_some hp with ⟨rfl, rfl⟩ | ⟨-, hp⟩
    · cases hstart <;> cases hc
      rintro rfl
      simp [admits, h.named] at hadm
    · exact h.created pid p session hp hc
  | turned _ p _ _ _ hp ht =>
    refine ⟨h.named, ?_⟩
    intro pid' q session hq hc
    rcases calls_setPhase hq with ⟨rfl, rfl⟩ | ⟨-, hq⟩
    · exact h.created pid' p session hp (ht.creates session hc)
    · exact h.created pid' q session hq hc

theorem Ledger.settled (hl : s.Ledger cfg) {p : Process ε} (hp : s.calls pid = some p)
    (hok : p.phase.succeeded = true) (hsid : p.call.sid? cfg = some sid) : s.Settled sid := by
  refine ⟨(hl.knows pid p hp).known sid hsid, ?_⟩
  rintro pid' q session hq hc rfl
  obtain rfl := hl.own pid' q session hq hc pid p hp hsid
  cases hp.symm.trans hq
  cases ((Phase.marked_of_succeeded hok).2).symm.trans hc

theorem listed_of_succeeded {t : Store ε} {p : Process ε} (h : (store cfg).Along Spares init ms t)
    (hp : t.calls pid = some p) (hok : p.phase.succeeded = true) (hsid : p.call.sid? cfg = some sid)
    (h' : (store cfg).Along Spares t ms' s) : s.Settled sid ∧ s.Listed sid := by
  have hl := (ledger_invariant cfg).run h.runFrom
  have hindexed : t.Indexed cfg := h.keeps (ledger_invariant cfg)
    (fun _ _ _ hl hi hm hs => Indexed.step hl hm hs hi) ledger_init fun _ _ _ hp => by cases hp
  have hlisted := hindexed pid p sid hp (Phase.marked_of_succeeded hok).1 hsid
  refine h'.keeps (P := fun s => s.Settled sid ∧ s.Listed sid) (ledger_invariant cfg) ?_ hl
    ⟨hl.settled hp hok hsid, hlisted⟩
  rintro s m _ hl ⟨hset, hlisted⟩ hm hs
  exact ⟨hset.moved (step_change hm).moved, hlisted.step hl hm hs hset.quiet⟩

end Store

/-! ## RevokeAll alone -/

namespace Phase

theorem mem_batches {sid : String} (h : sid ∈ ids) (hne : sid ≠ "") :
    ∃ batch ∈ batches ids, sid ∈ batch := by
  obtain ⟨i, hi, rfl⟩ := List.getElem_of_mem h
  -- the batch of the index `i`
  have hmem : ids[i] ∈ ((ids.drop (i / maxRedisDeleteBatch * maxRedisDeleteBatch)).take
      maxRedisDeleteBatch).filter (· ≠ "") := by
    refine List.mem_filter.mpr ⟨List.mem_iff_getElem?.mpr ⟨i % maxRedisDeleteBatch, ?_⟩, by simpa⟩
    have hlt : i % maxRedisDeleteBatch < maxRedisDeleteBatch := Nat.mod_lt _ (by decide)
    rw [List.getElem?_take_of_lt hlt, List.getElem?_drop, Nat.div_add_mod' i,
      List.getElem?_eq_getElem hi]
  refine ⟨_, List.mem_filter.mpr ⟨List.mem_map.mpr ⟨i / maxRedisDeleteBatch, ?_, rfl⟩, ?_⟩, hmem⟩
  · rw [List.mem_range]
    simp only [maxRedisDeleteBatch]
    omega
  · exact decide_eq_true (List.ne_nil_of_mem hmem)

def Sweeps (user : Int) (sid : String) (k : Keys ε) : Phase ε → Prop
  | scanning user' cursor => user' = user ∧
      (k.sessions sid ≠ none → Cursor.Due (k.index.members user) cursor sid)
  | deleting user' batch rest cursor => user' = user ∧
      (k.sessions sid ≠ none → sid ∈ batch ∨ (∃ b ∈ rest, sid ∈ b) ∨
        ∃ c, cursor = some c ∧ Cursor.Due (k.index.members user) (some c) sid)
  | dropping _ => k.sessions sid = none
  | returned outcome => outcome = .revokedAll (.ok ()) → k.sessions sid = none
  | _ => False

variable {user : Int} {sid : String} {k k' : Keys ε} {cursor : Option (Cursor String)}

theorem sweeps_afterScan {rest : List (List String)}
    (h : k.sessions sid ≠ none → (∃ b ∈ rest, sid ∈ b) ∨
      ∃ c, cursor = some c ∧ Cursor.Due (k.index.members user) (some c) sid) :
    (afterScan user rest cursor).Sweeps user sid k := by
  cases rest with
  | cons =>
    refine ⟨rfl, fun hlive => ?_⟩
    rcases h hlive with ⟨b, hb, hsid⟩ | hdue
    · rcases List.mem_cons.mp hb with rfl | hb
      · exact .inl hsid
      · exact .inr (.inl ⟨b, hb, hsid⟩)
    · exact .inr (.inr hdue)
  | nil =>
    cases cursor with
    | none =>
      by_contra hlive
      rcases h hlive with ⟨b, hb, -⟩ | ⟨c, hc, -⟩
      · cases hb
      · cases hc
    | some c =>
      refine ⟨rfl, fun hlive => ?_⟩
      rcases h hlive with ⟨b, hb, -⟩ | ⟨c, hc, hdue⟩
      · cases hb
      · cases hc
        exact hdue

/-- After a command of `RevokeAll` the session is gone, or the sweep still comes to it. -/
theorem Sweeps.exec {more : Bool} (hne : sid ≠ "") (h : p.Sweeps user sid k) (hc : p.cmd = some c)
    (hx : k.exec ids more c = some (k', reply)) : (p.resume (.ok reply)).Sweeps user sid k' := by
  cases p with
  | scanning =>
    cases hc
    obtain ⟨rfl, hdue⟩ := h
    obtain ⟨hallows, ⟨⟩⟩ := Option.ite_none_right_eq_some.mp hx
    refine sweeps_afterScan fun hlive => ?_
    rcases (hdue hlive).next hallows with hmem | hlater
    · exact .inl (mem_batches hmem hne)
    · exact .inr hlater
  | deleting =>
    cases hc
    obtain ⟨rfl, htodo⟩ := h
    cases hx
    refine sweeps_afterScan fun hlive => ?_
    obtain ⟨e, he⟩ := Option.ne_none_iff_exists'.mp hlive
    obtain ⟨hbatch, he⟩ := Space.del_eq_some.mp he
    exact (htodo (by simp [he])).resolve_left hbatch
  | dropping =>
    cases hc
    cases hx
    exact fun _ => h
  | returned => cases hc
  | _ => cases h

theorem Sweeps.error (h : p.Sweeps user sid k) (hc : p.cmd = some c) :
    (p.resume (.error ())).Sweeps user sid k' := by
  cases p with
  | scanning | deleting | dropping => exact nofun
  | returned => cases hc
  | _ => cases h

theorem due_tick
    (hindex : k.index.sismember user sid = true → ((k.tick d).index user).isSome = true)
    (hdue : Cursor.Due (k.index.members user) cursor sid) :
    Cursor.Due ((k.tick d).index.members user) cursor sid := by
  have hin := hdue.has
  rw [Space.members_has] at hin
  obtain ⟨e, he⟩ := Option.isSome_iff_exists.mp (hindex hin)
  have hsame : (k.tick d).index.members user = k.index.members user := by
    simp [Space.members, he, Space.of_elapse he]
  rw [hsame]
  exact hdue

theorem Sweeps.tick (h : p.Sweeps user sid k)
    (hindex : (k.tick d).sessions sid ≠ none → k.index.sismember user sid = true →
      ((k.tick d).index user).isSome = true) : p.Sweeps user sid (k.tick d) := by
  have hlive : (k.tick d).sessions sid ≠ none → k.sessions sid ≠ none := by
    intro hlive
    obtain ⟨e, he⟩ := Option.ne_none_iff_exists'.mp hlive
    simp [Space.of_elapse he]
  cases p with
  | scanning => exact ⟨h.1, fun hl => due_tick (hindex hl) (h.2 (hlive hl))⟩
  | deleting =>
    refine ⟨h.1, fun hl => ?_⟩
    rcases h.2 (hlive hl) with hb | hr | ⟨c, hc, hd⟩
    · exact .inl hb
    · exact .inr (.inl hr)
    · exact .inr (.inr ⟨c, hc, due_tick (hindex hl) hd⟩)
  | dropping => exact not_not.mp fun hl => hlive hl h
  | returned => exact fun ho => not_not.mp fun hl => hlive hl (h ho)
  | _ => cases h

end Phase

namespace Store

variable {cfg : Issuer ε} {s s' : Store ε} {m : Move ε} {sid : String} {user : Int} {pid : ℕ}

/-- A move of one call, or time passes. -/
def Alone (pid : ℕ) (s : Store ε) (m : Move ε) (s' : Store ε) : Prop :=
  match m with
  | .exec pid' _ _ | .lose pid' _ _ | .fail pid' => pid' = pid
  | .tick _ => s.Spares m s'
  | _ => False

structure Sweeping (user : Int) (sid : String) (pid : ℕ) (s : Store ε) : Prop where
  settled : s.Settled sid
  owner : ∀ e, s.keys.sessions sid = some e → e.value.userId = user
  call : ∃ p, s.calls pid = some p ∧ p.phase.Sweeps user sid s.keys

/-- While no other call moves, the sweep misses the session not. -/
theorem Sweeping.step (hne : sid ≠ "") (h : s.Sweeping user sid pid) (hm : s.step cfg m = some s')
    (halone : Alone pid s m s') : s'.Sweeping user sid pid := by
  have hmoved := (step_change hm).moved
  refine ⟨h.settled.moved hmoved, ?_, ?_⟩
  · intro e' he'
    obtain ⟨e, he, huser⟩ := hmoved.sessions h.settled.quiet he'
    rw [huser, h.owner e he]
  obtain ⟨p, hp, hsweeps⟩ := h.call
  have hset : ∀ {s1 : Store ε} {phase : Phase ε}, phase.Sweeps user sid s1.keys →
      ∃ q, (s1.setPhase pid p phase).calls pid = some q ∧
        q.phase.Sweeps user sid (s1.setPhase pid p phase).keys := fun hs =>
    ⟨_, Function.update_self .., hs⟩
  cases step_change hm with
  | ticked =>
    refine ⟨p, hp, hsweeps.tick fun hlive hin => ?_⟩
    obtain ⟨e, he⟩ := Option.ne_none_iff_exists'.mp hlive
    have huser := h.owner e (Space.of_elapse he)
    subst huser
    rw [← Option.ne_none_iff_isSome]
    exact fun hnone => Bool.false_ne_true ((halone sid e he hnone).symm.trans hin)
  | sent pid' _ c _ _ _ _ hp' hc hx =>
    obtain rfl : pid' = pid := halone
    cases hp.symm.trans hp'
    exact hset (hsweeps.exec hne hc hx)
  | lost pid' _ c _ _ _ _ hp' hc | failed pid' _ c hp' hc =>
    obtain rfl : pid' = pid := halone
    cases hp.symm.trans hp'
    exact hset (hsweeps.error hc)
  | _ => cases halone

def Revoked (pid : ℕ) (s : Store ε) : Prop :=
  ∃ p, s.calls pid = some p ∧ p.phase = .returned (.revokedAll (.ok ()))

theorem Sweeping.revoked (hl : s.Ledger cfg) (hne : sid ≠ "") (h : s.Sweeping user sid pid)
    (hrun : (store cfg).Along (Alone pid) s ms s') (hrevoked : s'.Revoked pid) :
    s'.keys.sessions sid = none := by
  have hs := hrun.keeps (ledger_invariant cfg) (fun _ _ _ _ h hm hk => h.step hne hm hk) hl h
  obtain ⟨p, hp, hsweeps⟩ := hs.call
  obtain ⟨q, hq, hphase⟩ := hrevoked
  cases hp.symm.trans hq
  rw [hphase] at hsweeps
  exact hsweeps rfl

/-! It can return: the scan may answer with everything at once. -/

def Answered (pid : ℕ) (m : Move ε) : Prop := ∃ ids more, m = .exec pid ids more

theorem can_exec (ids : List String) (more : Bool) {Q : Store ε → Prop} {p : Process ε}
    (hp : s.calls pid = some p) (hc : p.phase.cmd = some c)
    (hx : s.keys.exec ids more c = some (keys, reply))
    (h : ∀ s' q, s'.calls pid = some q → q.phase = p.phase.resume (.ok reply) →
      (store cfg).Can (Answered pid) Q s') : (store cfg).Can (Answered pid) Q s := by
  have hstep : (store cfg).step s (.exec pid ids more) = some (setPhase
      { s with keys, rotations := (rotation? s.keys p.phase).toList ++ s.rotations } pid p
      (p.phase.resume (.ok reply))) := by
    simp [store, step, effect, hp, hc, hx]
  exact .step hstep ⟨ids, more, rfl⟩ (h _ _ (Function.update_self ..) rfl)

theorem can_delete (rest : List (List String)) {p : Process ε} (hp : s.calls pid = some p)
    (hphase : p.phase = .afterScan user rest none) :
    (store cfg).Can (Answered pid) (Revoked pid) s := by
  induction rest generalizing s p with
  | nil =>
    have hc : p.phase.cmd = some (.delIndex user) := hphase ▸ rfl
    refine can_exec [] false hp hc rfl fun s' q hq hret => .here ⟨q, hq, ?_⟩
    rw [hret, hphase]
    rfl
  | cons batch _ ih =>
    have hc : p.phase.cmd = some (.del batch) := hphase ▸ rfl
    refine can_exec [] false hp hc rfl fun s' q hq hnext => ih hq ?_
    rw [hnext, hphase]
    rfl

theorem can_revokeAll {p : Process ε} (hp : s.calls pid = some p)
    (hphase : p.phase = .scanning user none) :
    (store cfg).Can (Answered pid) (Revoked pid) s := by
  have hc : p.phase.cmd = some (.sscan user none) := hphase ▸ rfl
  refine can_exec _ _ hp hc (if_pos Cursor.allows_all) fun s' q hq hnext => ?_
  rw [hphase] at hnext
  exact can_delete _ hq hnext

/-- A new `RevokeAll` misses no session that is in the index. -/
theorem Ledger.sweeping (hl : s.Ledger cfg) (hset : s.Settled sid) {e : Entry (Session ε)}
    (he : s.keys.sessions sid = some e)
    (hin : s.keys.index.sismember e.value.userId sid = true) :
    ∃ s', s.step cfg (.spawn (.revokeAll e.value.userId)) = some s' ∧
      s'.Sweeping e.value.userId sid s.next ∧
      ∃ p, s'.calls s.next = some p ∧ p.phase = .scanning e.value.userId none := by
  have hstart : (Call.revokeAll e.value.userId : Call ε).start cfg = .scanning e.value.userId none :=
    if_neg (by have := (hl.stored sid e he).2.2.2; omega)
  have hstep : s.step cfg (.spawn (.revokeAll e.value.userId)) = some { s with
      calls := Function.update s.calls s.next
        (some { call := .revokeAll e.value.userId, phase := .scanning e.value.userId none })
      next := s.next + 1 } := by
    simp [step, spawn, admits, Call.sid?, hstart]
  refine ⟨_, hstep, ⟨hset.moved (step_change hstep).moved, ?_, ?_⟩, _, Function.update_self .., rfl⟩
  · intro e' he'
    cases he.symm.trans he'
    rfl
  · refine ⟨_, Function.update_self .., rfl, fun _ => Cursor.due_none ?_⟩
    rw [Space.members_has]
    exact hin

/-- Where no index goes away with a live session in it, every live session that a `Create` or a
rotation has succeeded with is in the index of its user. A `RevokeAll` from there can return, and
when it has run alone the session is deleted. -/
theorem revokeAll_finds_session {t : Store ε} {ms ms' : List (Move ε)} {pid : ℕ} {p : Process ε}
    {e : Entry (Session ε)} (h : (store cfg).Along Spares init ms t) (hp : t.calls pid = some p)
    (hok : p.phase.succeeded = true) (hsid : p.call.sid? cfg = some sid)
    (h' : (store cfg).Along Spares t ms' s) (he : s.keys.sessions sid = some e) :
    s.keys.index.sismember e.value.userId sid = true ∧
    ∃ s₁, s.step cfg (.spawn (.revokeAll e.value.userId)) = some s₁ ∧
      (store cfg).Can (Answered s.next)
        (fun s₂ => s₂.Revoked s.next ∧ s₂.keys.sessions sid = none) s₁ ∧
      ∀ ms₂ s₂, (store cfg).Along (Alone s.next) s₁ ms₂ s₂ → s₂.Revoked s.next →
        s₂.keys.sessions sid = none := by
  obtain ⟨hset, hlisted⟩ := listed_of_succeeded h hp hok hsid h'
  have hl : s.Ledger cfg :=
    (ledger_invariant cfg).runFrom ((ledger_invariant cfg).run h.runFrom) h'.runFrom
  obtain ⟨s₁, hstep, hsweeping, q, hq, hphase⟩ := hl.sweeping hset he (hlisted e he)
  have hl₁ : s₁.Ledger cfg := hl.moved (step_change hstep).moved
  have hne : sid ≠ "" := (hl.stored sid e he).2.2.1
  refine ⟨hlisted e he, s₁, hstep, ?_, fun ms₂ s₂ hrun hrev => hsweeping.revoked hl₁ hne hrun hrev⟩
  have hcan : (store cfg).Can (Answered s.next) (Revoked s.next) s₁ := can_revokeAll hq hphase
  obtain ⟨ms₂, s₂, hans, hrun, hrev⟩ := hcan
  refine ⟨ms₂, s₂, hans, hrun, hrev, hsweeping.revoked hl₁ hne (.of_runFrom hrun hans ?_) hrev⟩
  rintro s m _ ⟨_, _, rfl⟩
  rfl

/-! ## Runs -/

/-- A `RevokeAll` of a user without sessions, with its `DEL`, then a `Create` for this user. -/
def demoCreated : List (Move (String × RefreshResult)) :=
  [.spawn (.revokeAll 7), .exec 0 [] false, .exec 0 [] false] ++ demoCreate 1 "a"

def spared (s : Store ε) : Move ε → Bool
  | .tick _ => false
  | .exec pid _ _ | .lose pid _ _ => (s.calls pid).all fun p => p.phase.dropsNone s.keys.index
  | _ => true

theorem spares_of_spared (h : s.spared m = true) : s.Spares m s' := by
  have hdrop : ∀ {user}, s.Drops user m → s.keys.index user = none := by
    intro user hdrop
    cases m with
    | exec | lose =>
      obtain ⟨p, hp, hphase⟩ := hdrop
      simpa [spared, hp, hphase, Phase.dropsNone] using h
    | tick => cases h
    | _ => cases hdrop
  intro sid e _ hd
  simp [Space.sismember, hdrop hd]

theorem spares_tick (user : Int) (hnone : ∀ user', user' ≠ user → s.keys.index user' = none)
    (hlive : (s.keys.index.elapse (s.keys.now + d) user).isSome = true) : s.Spares (.tick d) s' := by
  intro sid e _ hdrop
  by_cases huser : e.value.userId = user
  · rw [← huser, show s.keys.index.elapse _ _ = none from hdrop] at hlive
    cases hlive
  · simp [Space.sismember, hnone _ huser]

theorem demo_session_found :
    ∃ s e s₁, (store demoIssuer).run (demoCreated ++ [.tick 1]) = some s ∧
      s.keys.sessions "a" = some e ∧ s.keys.index.sismember e.value.userId "a" = true ∧
      s.step demoIssuer (.spawn (.revokeAll e.value.userId)) = some s₁ ∧
      (store demoIssuer).Can (Answered s.next)
        (fun s₂ => s₂.Revoked s.next ∧ s₂.keys.sessions "a" = none) s₁ := by
  have hrun : ∃ t s, (store demoIssuer).Along Spares init demoCreated t ∧
      (store demoIssuer).Along Spares t [.tick 1] s ∧
      (∃ p ∈ t.calls 1, p.phase.succeeded = true ∧ p.call.sid? demoIssuer = some "a") ∧
      ∃ e, s.keys.sessions "a" = some e := by
    have hchecked : Machine.Along.check (store demoIssuer) (fun s m _ => s.spared m) init
        demoCreated = some _ := rfl
    refine ⟨_, _, .of_check hchecked fun _ _ _ => spares_of_spared,
      .cons rfl (spares_tick 7 (fun _ hne => ?_) (by decide +kernel)) (.nil _), by decide +kernel,
      Option.isSome_iff_exists.mp (by decide +kernel)⟩
    -- the index after the `DEL`, the `SADD` and the `EXPIRE`
    refine (Function.update_of_ne hne ..).trans ((Function.update_of_ne hne ..).trans ?_)
    exact ite_self none
  obtain ⟨t, s, hrun, hrun', ⟨p, hp, hok, hsid⟩, e, he⟩ := hrun
  obtain ⟨hin, s₁, hstep, hcan, -⟩ := revokeAll_finds_session hrun hp hok hsid hrun' he
  exact ⟨s, e, s₁, Machine.runFrom_append.mpr ⟨t, hrun.runFrom, hrun'.runFrom⟩, he, hin, hstep, hcan⟩

/-- The session `sid` is live and not in the index of its user. -/
def lost (s : Store ε) (sid : String) : Bool :=
  (s.keys.sessions sid).any fun e => !s.keys.index.sismember e.value.userId sid

def demoRotation (sid : String) : Rotation (String × RefreshResult) :=
  { sessionId := sid, currentHash := "#s", nextHash := "#t", expiresAt := 60000000002, ttl := 60 * Job.second
    encryptedResult := some (sid, { accessToken := "x", refreshToken := "a.t", expiresAt := 1 }) }

/-- A millisecond passes between the last two commands of a rotation, then the lifetime of both keys:
the index expires first. -/
def demoExpiry : List (Move (String × RefreshResult)) :=
  demoCreate 0 "a" ++
    [.spawn (.rotate (demoRotation "a")), .exec 1 [] false, .exec 1 [] false, .exec 1 [] false,
      .tick 1, .exec 1 [] false, .tick 60000]

/-- A `Create` runs between the last scan of a `RevokeAll` and its `DEL` of the index. The next
`RevokeAll` finds nothing. -/
def demoRace : List (Move (String × RefreshResult)) :=
  [.spawn (.revokeAll 7), .exec 0 [] false] ++ demoCreate 1 "a" ++
    [.exec 0 [] false, .spawn (.revokeAll 7), .exec 2 [] false, .exec 2 [] false]

/-- A live session whose `Create` and rotation have succeeded can be missing from its index, and a
`RevokeAll` that runs alone from there returns without deleting it. -/
theorem index_loses_session :
    (∃ s p, (store demoIssuer).run demoExpiry = some s ∧ s.calls 1 = some p ∧
      p.phase.succeeded = true ∧ p.call.sid? demoIssuer = some "a" ∧ s.lost "a" = true) ∧
    ∃ s p q, (store demoIssuer).run demoRace = some s ∧ s.calls 1 = some p ∧
      p.phase.succeeded = true ∧ p.call.sid? demoIssuer = some "a" ∧ s.lost "a" = true ∧
      s.calls 2 = some q ∧ q.phase = .returned (.revokedAll (.ok ())) := by
  constructor
  · exact ⟨_, _, rfl, rfl, rfl, rfl, by decide +kernel⟩
  · exact ⟨_, _, _, rfl, rfl, rfl, rfl, by decide +kernel, rfl, rfl⟩

end Store

end Dogx.Authn
