import Dogx.Authn.Step
import Dogx.Machine.Pool

/-!
# Who names which session

Every call keeps to the session it was made for, a session is stored once, by its own `Create`, and
what is gone stays gone: no call that is still on its way brings it back.
-/

namespace Dogx.Authn

open Redis (Space Members Cursor Entry)

variable {ε : Type} {e' : Entry (Session ε)}

/-! ## One turn of a call -/

namespace Phase

def creates? : Phase ε → Option (Session ε)
  | storing session _ | indexing session _ | extending session _ | undoing session _ _
  | unindexing session _ => some session
  | _ => none

def isReturned : Phase ε → Bool
  | returned _ => true
  | _ => false

structure Turn (k : Keys ε) (p : Phase ε) (k' : Keys ε) (p' : Phase ε) : Prop where
  working : p.isReturned = false
  sid : ∀ sid, p'.sid? = some sid → p.sid? = some sid
  creates : ∀ session, p'.creates? = some session → p.creates? = some session
  begun : ∀ session seconds, p' ≠ storing session seconds
  sessions : ∀ sid e', k'.sessions sid = some e' →
    (∃ e, k.sessions sid = some e ∧ e'.value.id = e.value.id ∧ e'.value.userId = e.value.userId) ∨
    ∃ seconds, p = storing e'.value seconds ∧ e'.value.id = sid
  owner : ∀ sid user, p'.owner? = some (sid, user) → ∀ e', k'.sessions sid = some e' →
    p.owner? = some (sid, user) ∨ e'.value.userId = user
  drops : ∀ sid, p'.drops? = some sid → k'.sessions sid = none ∧ p.sid? = some sid
  marked : p'.marked = true →
    p.marked = true ∨ ∃ sid user, p.owner? = some (sid, user) ∧ k'.index.sismember user sid = true

theorem afterScan_sid {user : Int} {rest : List (List String)} {cursor : Option (Cursor String)} :
    (afterScan user rest cursor : Phase ε).sid? = none := by
  unfold afterScan
  split
  · rfl
  · split <;> rfl

theorem cmd_setex {p : Phase ε} {session : Session ε} {seconds : ℕ}
    (h : p.cmd = some (.setex session seconds)) : p = storing session seconds := by
  cases p <;> cases h
  rfl

variable {k k' : Keys ε} {p p' : Phase ε} {c : Cmd ε} {ids : List String} {more : Bool}
  {reply : Reply ε} {answer : Except Unit (Reply ε)} {seconds : ℕ} {sid : String}

theorem sid_of_owner {user : Int} (h : p.owner? = some (sid, user)) : p.sid? = some sid := by
  cases p <;> cases h <;> rfl

def Ended (k : Keys ε) (c : Cmd ε) (k' : Keys ε) (answer : Except Unit (Reply ε)) : Prop :=
  (∃ ids more reply, k.exec ids more c = some (k', reply) ∧
    (answer = .ok reply ∨ answer = .error ())) ∨ (k' = k ∧ answer = .error ())

theorem Ended.exec (h : Ended k c k' (.ok reply)) :
    ∃ ids more, k.exec ids more c = some (k', reply) := by
  rcases h with ⟨ids, more, reply', hx, ha⟩ | ⟨-, ha⟩
  · rcases ha with ha | ha
    · cases ha
      exact ⟨ids, more, hx⟩
    · cases ha
  · cases ha

theorem Ended.sessions (h : Ended k c k' answer) (he' : k'.sessions sid = some e') :
    (∃ e, k.sessions sid = some e ∧ e'.value.id = e.value.id ∧ e'.value.userId = e.value.userId) ∨
    ∃ seconds, c = .setex e'.value seconds ∧ e'.value.id = sid := by
  rcases h with ⟨ids, more, reply, hx, -⟩ | ⟨rfl, -⟩
  · exact Keys.exec_sessions hx he'
  · exact .inl ⟨e', he', rfl, rfl⟩

theorem eval_none {r : Rotation ε} (h : ∀ s, (k.eval r seconds).2 ≠ .stored s) :
    (k.eval r seconds).1.sessions r.sessionId = none := by
  cases he : k.sessions r.sessionId with
  | none => simp [Keys.eval, he]
  | some e =>
    cases hd : e.value.decide k.now r.currentHash with
    | mismatch => simp [Keys.eval, he, hd, Space.del]
    | replay => exact absurd (by simp [Keys.eval, he, hd]) (h e.value)
    | rotate => exact absurd (by simp [Keys.eval, he, hd]) (h (e.value.rotated k.now r))

section

variable (hf : Follows p answer p')
include hf

theorem Follows.owner (hc : p.cmd = some c) (hk : Ended k c k' answer) {user : Int}
    (ho : p'.owner? = some (sid, user)) (he' : k'.sessions sid = some e') :
    p.owner? = some (sid, user) ∨ e'.value.userId = user := by
  cases hf with
  | stored =>
    cases hc
    cases ho
    obtain ⟨ids, more, ⟨⟩⟩ := hk.exec
    simp only [Space.setex, Function.update_self, Option.some.injEq] at he'
    subst he'
    exact .inr rfl
  | loaded =>
    cases hc
    cases ho
    obtain ⟨_, _, hx⟩ := hk.exec
    simp only [Keys.exec, Option.some.injEq, Prod.mk.injEq, Reply.value.injEq] at hx
    obtain ⟨rfl, hs⟩ := hx
    rw [he', Option.map_some, Option.some.injEq] at hs
    exact .inr (by rw [hs])
  | scanned | deleted =>
    unfold afterScan at ho
    repeat' split at ho
    all_goals cases ho
  | created | rotated | refreshed | revoking | revokeDeleted | refreshLoaded | returned => cases ho
  | _ => exact .inl ho

theorem Follows.drops (hc : p.cmd = some c) (hk : Ended k c k' answer) (hd : p'.drops? = some sid) :
    k'.sessions sid = none ∧ p.sid? = some sid := by
  cases hf with
  | gone q r _ _ _ e hr =>
    cases hc
    cases hd
    obtain ⟨ids, more, ⟨⟩⟩ := hk.exec
    exact ⟨eval_none fun s hs => hr s (congrArg Reply.script hs), rfl⟩
  | revokeDeleted =>
    cases hc
    cases hd
    obtain ⟨_, _, ⟨⟩⟩ := hk.exec
    exact ⟨by simp [Space.del], rfl⟩
  | scanned | deleted =>
    unfold afterScan at hd
    repeat' split at hd
    all_goals cases hd
  | _ => cases hd

theorem Follows.marked (hc : p.cmd = some c) (hk : Ended k c k' answer) (hm : p'.marked = true) :
    p.marked = true ∨ ∃ sid user, p.owner? = some (sid, user) ∧ k'.index.sismember user sid = true := by
  cases hf with
  | indexed | rotateIndexed =>
    cases hc
    obtain ⟨_, _, ⟨⟩⟩ := hk.exec
    exact .inr ⟨_, _, rfl, Space.sismember_sadd.mpr (.inl ⟨rfl, rfl⟩)⟩
  | created | extended | rotated | refreshed => exact .inl rfl
  | scanned | deleted =>
    unfold afterScan at hm
    repeat' split at hm
    all_goals cases hm
  | returned p _ _ ho => rw [ho] at hm; cases hm
  | _ => cases hm

theorem Follows.begun {session : Session ε} : p' ≠ storing session seconds := by
  intro hp
  cases hf with
  | scanned | deleted =>
    unfold afterScan at hp
    repeat' split at hp
    all_goals cases hp
  | _ => cases hp

/-- What a command and its answer do to the call and to the sessions. -/
theorem Follows.turn (hc : p.cmd = some c) (hk : Ended k c k' answer) : Turn k p k' p' where
  working := by cases p <;> first | rfl | cases hc
  sid := by
    intro sid hsid
    cases hf with
    | scanned | deleted => rw [afterScan_sid] at hsid; cases hsid
    | created | rotated | returned => cases hsid
    | _ => exact hsid
  creates := by
    intro session hs
    cases hf with
    | scanned | deleted =>
      unfold afterScan at hs
      repeat' split at hs
      all_goals cases hs
    | stored | indexed | indexFailed | extendFailed | undone => exact hs
    | _ => cases hs
  begun := fun _ _ => hf.begun
  sessions := by
    intro sid e' he'
    rcases hk.sessions he' with h | ⟨seconds, rfl, hid⟩
    · exact .inl h
    · exact .inr ⟨seconds, cmd_setex hc, hid⟩
  owner := fun sid user ho e' he' => hf.owner hc hk ho he'
  drops := fun sid hd => hf.drops hc hk hd
  marked := hf.marked hc hk

end

theorem Turn.still (hw : p.isReturned = false) (hsid : ∀ sid, p'.sid? = some sid → p.sid? = some sid)
    (howner : p'.owner? = none) (hcreates : p'.creates? = none) (hdrops : p'.drops? = none)
    (hmarked : p'.marked = true → p.marked = true) : Turn k p k p' where
  working := hw
  sid := hsid
  creates := by simp [hcreates]
  begun := by
    rintro _ _ rfl
    cases hcreates
  sessions := fun sid e' he' => .inl ⟨e', he', rfl, rfl⟩
  owner := by simp [howner]
  drops := by simp [hdrops]
  marked := fun h => .inl (hmarked h)

end Phase

namespace Call

theorem rotateRefreshToken_cases (q : Option Request) (r : Rotation ε) :
    (∃ outcome, rotateRefreshToken q r = .returned outcome ∧
      (Phase.returned outcome).marked = false) ∨
    ∃ seconds, rotateRefreshToken q r = .rotateGet q r seconds := by
  unfold rotateRefreshToken
  split
  · exact .inl (Phase.afterRotate_error q _ _)
  · split
    · exact .inl (Phase.afterRotate_error q _ _)
    next seconds _ => exact .inr ⟨seconds, rfl⟩

inductive Starts (cfg : Issuer ε) : Call ε → Phase ε → Prop where
  | create (session ttl seconds) (hv : validateSession session = true) :
      Starts cfg (create session ttl) (.storing session seconds)
  | rotate (r seconds) : Starts cfg (rotate r) (.rotateGet none r seconds)
  | revoke (user sid) : Starts cfg (revoke user sid) (.revokeGet user sid)
  | revokeAll (user) (hu : 0 < user) : Starts cfg (revokeAll user) (.scanning user none)
  | refresh (token sid secret) (ht : cfg.parseRefreshToken token = some (sid, secret)) :
      Starts cfg (refresh token) (.refreshGet sid secret)
  | refused (c outcome) (ho : (Phase.returned outcome).marked = false) :
      Starts cfg c (.returned outcome)

theorem starts (cfg : Issuer ε) (c : Call ε) : Starts cfg c (c.start cfg) := by
  cases c with
  | create session ttl =>
    simp only [start]
    split
    · exact .refused _ _ rfl
    next hv =>
      split
      · exact .refused _ _ rfl
      next seconds _ => exact .create session ttl seconds (by simpa using hv)
  | rotate r =>
    change Starts cfg _ (rotateRefreshToken none r)
    rcases rotateRefreshToken_cases none r with ⟨outcome, h, ho⟩ | ⟨seconds, h⟩
    · rw [h]
      exact .refused _ _ ho
    · rw [h]
      exact .rotate r seconds
  | revoke user sid =>
    simp only [start]
    split
    · exact .refused _ _ rfl
    · exact .revoke user sid
  | revokeAll user =>
    simp only [start]
    split
    · exact .refused _ _ rfl
    next hu => exact .revokeAll user (by omega)
  | refresh token =>
    simp only [start]
    split
    · exact .refused _ _ rfl
    next sid secret ht =>
      split
      · exact .refused _ _ rfl
      · exact .refresh token sid secret ht

end Call

namespace Store

variable {cfg : Issuer ε} {s s' : Store ε} {session : Session ε} {pid pid' : ℕ} {p q : Process ε}
  {phase : Phase ε} {c : Call ε}

inductive Moved (cfg : Issuer ε) (s : Store ε) : Store ε → Prop where
  | ticked (d : ℕ) : Moved cfg s { s with keys := s.keys.tick d }
  | spawned (c : Call ε) (phase : Phase ε) (h : s.admits cfg c = true) (hs : c.Starts cfg phase) :
      Moved cfg s
        { s with
          calls := Function.update s.calls s.next (some { call := c, phase })
          next := s.next + 1, named := (c.sid? cfg).toList ++ s.named }
  | turned (pid : ℕ) (p : Process ε) (phase : Phase ε) (keys : Keys ε) (rotations : List (Rotated ε))
      (hp : s.calls pid = some p) (ht : p.phase.Turn s.keys keys phase) :
      Moved cfg s (setPhase { s with keys, rotations } pid p phase)

/-- Every step passes time, starts a call or lets one take its turn. -/
theorem Change.moved {m : Move ε} (h : Change cfg s m s') : Moved cfg s s' := by
  cases h with
  | ticked d => exact .ticked d
  | spawned c h => exact .spawned c _ h (c.starts cfg)
  | sent pid p c ids more keys reply hp hc hx =>
    exact .turned pid p _ keys _ hp
      ((Phase.follows_resume hc _).turn hc (.inl ⟨ids, more, reply, hx, .inl rfl⟩))
  | lost pid p c ids more keys reply hp hc hx =>
    exact .turned pid p _ keys _ hp
      ((Phase.follows_resume hc _).turn hc (.inl ⟨ids, more, reply, hx, .inr rfl⟩))
  | failed pid p c hp hc =>
    exact .turned pid p _ s.keys s.rotations hp
      ((Phase.follows_resume hc _).turn hc (.inr ⟨rfl, rfl⟩))
  | unprepared pid p _ _ e hp hphase =>
    refine .turned pid p _ s.keys s.rotations hp ?_
    rw [hphase]
    exact .still rfl nofun rfl rfl rfl nofun
  | prepared pid p sid secret prepared hp hphase =>
    refine .turned pid p _ s.keys s.rotations hp ?_
    rw [hphase]
    rcases Call.rotateRefreshToken_cases (some (cfg.request sid secret prepared))
      (cfg.rotation sid secret prepared) with ⟨outcome, h, ho⟩ | ⟨seconds, h⟩
    · rw [h]
      exact .still rfl nofun rfl rfl rfl (fun hm => by rw [ho] at hm; cases hm)
    · rw [h]
      exact .still rfl (fun _ h => h) rfl rfl rfl nofun
  | finished pid p _ _ _ hp hphase =>
    refine .turned pid p _ s.keys s.rotations hp ?_
    rw [hphase]
    exact .still rfl nofun rfl rfl rfl (fun _ => rfl)

theorem calls_setPhase (h : (s.setPhase pid p phase).calls pid' = some q) :
    (pid' = pid ∧ q = { p with phase }) ∨ (pid' ≠ pid ∧ s.calls pid' = some q) :=
  Machine.Pool.update_eq_some h

/-! ## Sessions that are gone -/

structure Born (s : Store ε) (sid : String) : Prop where
  named : sid ∈ s.named
  unborn : ∀ pid p, s.calls pid = some p → ∀ session seconds,
    p.phase = .storing session seconds → session.id ≠ sid

structure Gone (s : Store ε) (sid : String) : Prop extends Born s sid where
  none : s.keys.sessions sid = none

/-- An ID that no call is about to store stays one. -/
theorem Moved.born {sid : String} (h : Moved cfg s s') (hb : s.Born sid) : s'.Born sid := by
  cases h with
  | ticked => exact ⟨hb.named, hb.unborn⟩
  | spawned c _ hadm hstart =>
    refine ⟨List.mem_append_right _ hb.named, ?_⟩
    intro pid p hp session seconds hphase
    rcases Machine.Pool.update_eq_some hp with ⟨rfl, rfl⟩ | ⟨-, hp⟩
    · cases hphase
      cases hstart
      rintro rfl
      simp [admits, hb.named] at hadm
    · exact hb.unborn pid p hp session seconds hphase
  | turned _ p _ _ _ _ ht =>
    refine ⟨hb.named, ?_⟩
    intro pid' q hq session seconds hphase
    rcases calls_setPhase hq with ⟨rfl, rfl⟩ | ⟨-, hq⟩
    · exact absurd hphase (ht.begun session seconds)
    · exact hb.unborn pid' q hq session seconds hphase

/-- A deleted session does not come back. -/
theorem Moved.gone {sid : String} (h : Moved cfg s s') (hg : s.Gone sid) : s'.Gone sid := by
  refine ⟨h.born hg.toBorn, Option.eq_none_iff_forall_ne_some.mpr fun e' he' => ?_⟩
  cases h with
  | ticked =>
    have := Space.of_elapse he'
    cases hg.none.symm.trans this
  | spawned =>
    have : s.keys.sessions sid = some e' := he'
    cases hg.none.symm.trans this
  | turned pid p _ _ _ hp ht =>
    rcases ht.sessions sid e' he' with ⟨e, he, -⟩ | ⟨seconds, hphase, hid⟩
    · cases hg.none.symm.trans he
    · exact hg.unborn pid p hp _ seconds hphase hid

/-! ## The ledger -/

structure Knows (cfg : Issuer ε) (s : Store ε) (p : Process ε) : Prop where
  ids : ∀ sid, p.phase.sid? = some sid → p.call.sid? cfg = some sid
  known : ∀ sid, p.call.sid? cfg = some sid → sid ∈ s.named
  creates : ∀ session, p.phase.creates? = some session → ∃ ttl, p.call = .create session ttl
  fresh : ∀ session seconds, p.phase = .storing session seconds →
    s.keys.sessions session.id = none ∧ session.id ≠ "" ∧ 0 < session.userId
  users : ∀ sid user, p.phase.owner? = some (sid, user) → ∀ e, s.keys.sessions sid = some e →
    e.value.userId = user
  gone : ∀ sid, p.phase.drops? = some sid → s.Gone sid

structure Ledger (cfg : Issuer ε) (s : Store ε) : Prop where
  bounded : ∀ pid p, s.calls pid = some p → pid < s.next
  knows : ∀ pid p, s.calls pid = some p → s.Knows cfg p
  /-- The session of a `Create` on its way is named by no other call. -/
  own : ∀ pid p session, s.calls pid = some p → p.phase.creates? = some session →
    ∀ pid' p', s.calls pid' = some p' → p'.call.sid? cfg = some session.id → pid' = pid
  stored : ∀ sid e, s.keys.sessions sid = some e →
    sid ∈ s.named ∧ e.value.id = sid ∧ sid ≠ "" ∧ 0 < e.value.userId

theorem ledger_init : Ledger cfg (init : Store ε) where
  bounded := fun _ _ h => by cases h
  knows := fun _ _ h => by cases h
  own := fun _ _ _ h => by cases h
  stored := fun _ _ h => by cases h

theorem Ledger.creating (hl : s.Ledger cfg) (hp : s.calls pid = some p)
    (hc : p.phase.creates? = some session) : s.creating session.id = true := by
  obtain ⟨_, hcall⟩ := (hl.knows pid p hp).creates session hc
  obtain ⟨_, phase⟩ := p
  subst hcall
  refine List.any_eq_true.mpr ⟨pid, List.mem_range.mpr (hl.bounded pid _ hp), ?_⟩
  rw [hp]
  cases phase <;> first | (cases hc; simp) | cases hc

theorem Ledger.admitted (hl : s.Ledger cfg) (hadm : s.admits cfg c = true)
    (hp : s.calls pid = some p) (hc : p.phase.creates? = some session) :
    c.sid? cfg ≠ some session.id := by
  intro hsid
  have hcreating := hl.creating hp hc
  obtain ⟨_, hcall⟩ := (hl.knows pid p hp).creates session hc
  have hnamed : session.id ∈ s.named := (hl.knows pid p hp).known _ (hcall ▸ rfl)
  cases c with
  | create session' =>
    have heq : session'.id = session.id := Option.some.inj hsid
    simp [admits, heq, hnamed] at hadm
  | _ => simp [admits, hsid, hcreating] at hadm

theorem Knows.of_sessions (h : s.Knows cfg p) (hnamed : ∀ sid ∈ s.named, sid ∈ s'.named)
    (hfresh : ∀ session seconds, p.phase = .storing session seconds →
      s'.keys.sessions session.id = none)
    (husers : ∀ sid user, p.phase.owner? = some (sid, user) → ∀ e', s'.keys.sessions sid = some e' →
      ∃ e, s.keys.sessions sid = some e ∧ e'.value.userId = e.value.userId)
    (hgone : ∀ sid, s.Gone sid → s'.Gone sid) : s'.Knows cfg p where
  ids := h.ids
  known := fun sid hsid => hnamed sid (h.known sid hsid)
  creates := h.creates
  fresh := fun session seconds hp => ⟨hfresh session seconds hp, (h.fresh session seconds hp).2⟩
  users := by
    intro sid user ho e' he'
    obtain ⟨e, he, heq⟩ := husers sid user ho e' he'
    rw [heq, h.users sid user ho e he]
  gone := fun sid hd => hgone sid (h.gone sid hd)

theorem Ledger.ticked (hl : s.Ledger cfg) (d : ℕ) :
    ({ s with keys := s.keys.tick d } : Store ε).Ledger cfg where
  bounded := hl.bounded
  own := hl.own
  stored := fun sid e he => hl.stored sid e (Space.of_elapse he)
  knows := by
    intro pid p hp
    have hmoved : Moved cfg s { s with keys := s.keys.tick d } := .ticked d
    refine (hl.knows pid p hp).of_sessions (fun _ h => h) ?_ ?_ fun sid hg => hmoved.gone hg
    · intro session seconds hphase
      cases he : (s.keys.tick d).sessions session.id with
      | none => rfl
      | some =>
        have := ((hl.knows pid p hp).fresh session seconds hphase).1
        cases (Space.of_elapse he).symm.trans this
    · exact fun sid user _ e' he' => ⟨e', Space.of_elapse he', rfl⟩

theorem Ledger.starting (hl : s.Ledger cfg) (hadm : s.admits cfg c = true)
    (hstart : c.Starts cfg phase) (calls : ℕ → Option (Process ε)) (next : ℕ) :
    ({ s with calls, next, named := (c.sid? cfg).toList ++ s.named } : Store ε).Knows cfg
      { call := c, phase } where
  ids := by
    intro sid hsid
    cases hstart with
    | refresh _ _ _ ht =>
      cases hsid
      exact congrArg (Option.map Prod.fst) ht
    | refused | revokeAll => cases hsid
    | _ => exact hsid
  known := fun sid hsid => List.mem_append_left _ (by simpa using hsid)
  creates := by
    intro session hs
    cases hstart <;> cases hs
    exact ⟨_, rfl⟩
  fresh := by
    rintro session _ rfl
    cases hstart with
    | create session _ _ hv =>
      constructor
      · cases he : s.keys.sessions session.id with
        | none => rfl
        | some e => simp [admits, (hl.stored _ e he).1] at hadm
      · simp only [validateSession, Bool.and_eq_true, decide_eq_true_eq] at hv
        exact ⟨hv.1.1.1.1.1, hv.1.1.1.1.2⟩
  users := by
    intro sid user ho
    cases hstart <;> cases ho
  gone := by
    intro sid hd
    cases hstart <;> cases hd

theorem Ledger.spawned (hl : s.Ledger cfg) (hadm : s.admits cfg c = true)
    (hstart : c.Starts cfg phase) :
    ({ s with
       calls := Function.update s.calls s.next (some { call := c, phase })
       next := s.next + 1, named := (c.sid? cfg).toList ++ s.named } : Store ε).Ledger cfg := by
  refine ⟨?_, ?_, ?_, ?_⟩
  · intro pid p hp
    rcases Machine.Pool.update_eq_some hp with ⟨rfl, -⟩ | ⟨-, hp⟩
    · exact Nat.lt_succ_self _
    · exact Nat.lt_succ_of_lt (hl.bounded pid p hp)
  · intro pid p hp
    rcases Machine.Pool.update_eq_some hp with ⟨rfl, rfl⟩ | ⟨-, hp⟩
    · exact hl.starting hadm hstart _ _
    · exact (hl.knows pid p hp).of_sessions (fun _ h => List.mem_append_right _ h)
        (fun session seconds h => ((hl.knows pid p hp).fresh session seconds h).1)
        (fun sid user _ e' he' => ⟨e', he', rfl⟩)
        fun sid hg => Moved.gone (.spawned c phase hadm hstart) hg
  · intro pid p session hp hc pid' p' hp' hsid
    rcases Machine.Pool.update_eq_some hp with ⟨rfl, rfl⟩ | ⟨-, hp⟩ <;>
      rcases Machine.Pool.update_eq_some hp' with ⟨rfl, rfl⟩ | ⟨-, hp'⟩
    · rfl
    · -- a `Create` has an ID that no call has named
      have hnamed := (hl.knows pid' p' hp').known _ hsid
      cases hstart <;> cases hc
      simp [admits, hnamed] at hadm
    · exact absurd hsid (hl.admitted hadm hp hc)
    · exact hl.own pid p session hp hc pid' p' hp' hsid
  · intro sid e he
    obtain ⟨hnamed, hid⟩ := hl.stored sid e he
    exact ⟨List.mem_append_right _ hnamed, hid⟩

section Turned

variable {pid : ℕ} {p : Process ε} {phase : Phase ε} {keys : Keys ε} {rotations : List (Rotated ε)}

theorem Ledger.kept (hl : s.Ledger cfg) (hp : s.calls pid = some p)
    (ht : p.phase.Turn s.keys keys phase) (hne : pid' ≠ pid) (hq : s.calls pid' = some q)
    {sid : String} (hsid : q.call.sid? cfg = some sid) (he' : keys.sessions sid = some e') :
    ∃ e, s.keys.sessions sid = some e ∧ e'.value.userId = e.value.userId := by
  rcases ht.sessions sid e' he' with ⟨e, he, -, huser⟩ | ⟨seconds, hphase, rfl⟩
  · exact ⟨e, he, huser⟩
  · exact absurd (hl.own pid p e'.value hp (hphase ▸ rfl) pid' q hq hsid) hne

theorem Ledger.moving (hl : s.Ledger cfg) (hp : s.calls pid = some p)
    (ht : p.phase.Turn s.keys keys phase) :
    (setPhase { s with keys, rotations } pid p phase).Knows cfg { p with phase } where
  ids := fun sid hsid => (hl.knows pid p hp).ids sid (ht.sid sid hsid)
  known := (hl.knows pid p hp).known
  creates := fun session hs => (hl.knows pid p hp).creates session (ht.creates session hs)
  fresh := fun session seconds hphase => absurd hphase (ht.begun session seconds)
  users := by
    intro sid user ho e' he'
    rcases ht.owner sid user ho e' he' with ho | huser
    · rcases ht.sessions sid e' he' with ⟨e, he, -, huser⟩ | ⟨seconds, hphase, -⟩
      · rw [huser, (hl.knows pid p hp).users sid user ho e he]
      · rw [hphase] at ho
        cases ho
    · exact huser
  gone := by
    intro sid hd
    obtain ⟨hnone, hsid⟩ := ht.drops sid hd
    have hcall := (hl.knows pid p hp).ids sid hsid
    refine ⟨⟨(hl.knows pid p hp).known sid hcall, ?_⟩, hnone⟩
    rintro pid' q hq session seconds hphase rfl
    rcases calls_setPhase hq with ⟨rfl, rfl⟩ | ⟨hne, hq⟩
    · exact ht.begun session seconds hphase
    · exact hne (hl.own pid' q session hq (hphase ▸ rfl) pid p hp hcall).symm

theorem Ledger.turned (hl : s.Ledger cfg) (hp : s.calls pid = some p)
    (ht : p.phase.Turn s.keys keys phase) :
    (setPhase { s with keys, rotations } pid p phase).Ledger cfg where
  bounded := by
    intro pid' q hq
    rcases calls_setPhase hq with ⟨rfl, -⟩ | ⟨-, hq⟩
    · exact hl.bounded _ p hp
    · exact hl.bounded pid' q hq
  knows := by
    intro pid' q hq
    rcases calls_setPhase hq with ⟨rfl, rfl⟩ | ⟨hne, hq⟩
    · exact hl.moving hp ht
    have hk := hl.knows pid' q hq
    have hmoved : Moved cfg s (setPhase { s with keys, rotations } pid p phase) :=
      .turned pid p phase keys rotations hp ht
    refine hk.of_sessions (fun _ h => h) ?_ ?_ fun sid hg => hmoved.gone hg
    · intro session seconds hphase
      cases he : keys.sessions session.id with
      | none => exact he
      | some =>
        obtain ⟨e, he, -⟩ := hl.kept hp ht hne hq (hk.ids _ (hphase ▸ rfl)) he
        cases ((hk.fresh session seconds hphase).1).symm.trans he
    · exact fun sid user ho e' he' => hl.kept hp ht hne hq (hk.ids _ (Phase.sid_of_owner ho)) he'
  own := by
    intro pid1 q1 session hq1 hc pid2 q2 hq2 hsid
    rcases calls_setPhase hq1 with ⟨rfl, rfl⟩ | ⟨-, h1⟩ <;>
      rcases calls_setPhase hq2 with ⟨rfl, rfl⟩ | ⟨-, h2⟩
    · rfl
    · exact hl.own _ p session hp (ht.creates session hc) pid2 q2 h2 hsid
    · exact hl.own pid1 q1 session h1 hc _ p hp hsid
    · exact hl.own pid1 q1 session h1 hc pid2 q2 h2 hsid
  stored := by
    intro sid e' he'
    rcases ht.sessions sid e' he' with ⟨e, he, hid, huser⟩ | ⟨seconds, hphase, rfl⟩
    · rw [hid, huser]
      exact hl.stored sid e he
    · have hk := hl.knows pid p hp
      exact ⟨hk.known _ (hk.ids _ (hphase ▸ rfl)), rfl, (hk.fresh _ seconds hphase).2⟩

end Turned

/-- One step keeps the ledger. -/
theorem Ledger.moved (hl : s.Ledger cfg) (h : Moved cfg s s') : s'.Ledger cfg := by
  cases h with
  | ticked d => exact hl.ticked d
  | spawned c _ hadm hstart => exact hl.spawned hadm hstart
  | turned _ p _ _ _ hp ht => exact hl.turned hp ht

end Store

/-- The ledger is right in every run of the store. -/
theorem ledger_invariant (cfg : Issuer ε) : (store cfg).Invariant (Store.Ledger cfg) where
  init := Store.ledger_init
  step := fun _ _ _ hl hm => hl.moved (Store.step_change hm).moved

end Dogx.Authn
