import Dogx.Authn.Store

/-!
# Steps of the session store

What a command can do to the keys, what the code after it can be, and from both what a step of the
store is.
-/

namespace Dogx.Authn

open Redis (Space Members Cursor Entry)

variable {ε : Type}

/-! ## Keys -/

namespace Keys

variable {k k' : Keys ε} {c : Cmd ε} {reply : Reply ε} {ids : List String} {more : Bool}
  {r : Rotation ε} {seconds : ℕ} {sid : String} {e' : Entry (Session ε)}

theorem eval_sessions (h : (k.eval r seconds).1.sessions sid = some e') :
    ∃ e, k.sessions sid = some e ∧ e'.value.id = e.value.id ∧ e'.value.userId = e.value.userId := by
  unfold eval at h
  split at h
  · exact ⟨e', h, rfl, rfl⟩
  next e he =>
    split at h
    · exact ⟨e', h, rfl, rfl⟩
    · obtain ⟨-, h⟩ := Space.del_eq_some.mp h
      exact ⟨e', h, rfl, rfl⟩
    · by_cases hsid : sid = r.sessionId
      · subst hsid
        simp only [Space.setex, Function.update_self, Option.some.injEq] at h
        subst h
        exact ⟨e, he, rfl, rfl⟩
      · simp only [Space.setex, Function.update_of_ne hsid] at h
        exact ⟨e', h, rfl, rfl⟩

/-- A stored session is new by `SETEX`, or keeps its ID and user. -/
theorem exec_sessions (h : k.exec ids more c = some (k', reply)) (he' : k'.sessions sid = some e') :
    (∃ e, k.sessions sid = some e ∧ e'.value.id = e.value.id ∧ e'.value.userId = e.value.userId) ∨
    ∃ seconds, c = .setex e'.value seconds ∧ e'.value.id = sid := by
  cases c with
  | setex session seconds =>
    cases h
    by_cases hsid : sid = session.id
    · subst hsid
      simp only [Space.setex, Function.update_self, Option.some.injEq] at he'
      subst he'
      exact .inr ⟨seconds, rfl, rfl⟩
    · simp only [Space.setex, Function.update_of_ne hsid] at he'
      exact .inl ⟨e', he', rfl, rfl⟩
  | del =>
    cases h
    exact .inl ⟨e', (Space.del_eq_some.mp he').2, rfl, rfl⟩
  | sscan =>
    obtain ⟨-, ⟨⟩⟩ := Option.ite_none_right_eq_some.mp h
    exact .inl ⟨e', he', rfl, rfl⟩
  | eval =>
    cases h
    exact .inl (eval_sessions he')
  | _ =>
    cases h
    exact .inl ⟨e', he', rfl, rfl⟩

theorem eval_index : (k.eval r seconds).1.index = k.index := by
  unfold eval
  split
  · rfl
  · split <;> rfl

/-- Only its `SREM`, or `DEL` of the index, takes an ID out of an index. -/
theorem exec_index (h : k.exec ids more c = some (k', reply)) {user : Int}
    (hm : k.index.sismember user sid = true) :
    k'.index.sismember user sid = true ∨ c = .srem user sid ∨ c = .delIndex user := by
  cases c with
  | get | setex | del =>
    cases h
    exact .inl hm
  | sadd =>
    cases h
    exact .inl (Space.sismember_sadd.mpr (.inr hm))
  | srem user' sid' =>
    cases h
    by_cases heq : user = user' ∧ sid = sid'
    · obtain ⟨rfl, rfl⟩ := heq
      exact .inr (.inl rfl)
    · exact .inl (Space.sismember_srem.mpr ⟨heq, hm⟩)
  | expire =>
    cases h
    exact .inl (by rw [Space.sismember_expire]; exact hm)
  | sscan =>
    obtain ⟨-, ⟨⟩⟩ := Option.ite_none_right_eq_some.mp h
    exact .inl hm
  | delIndex user' =>
    cases h
    by_cases heq : user = user'
    · exact .inr (.inr (by rw [heq]))
    · left
      simpa [Space.sismember, Space.del, heq] using hm
  | eval =>
    cases h
    rw [eval_index]
    exact .inl hm

end Keys

/-! ## Phases -/

namespace Phase

def sid? : Phase ε → Option String
  | storing session _ | indexing session _ | extending session _ | undoing session _ _
  | unindexing session _ => some session.id
  | rotateGet _ r _ | rotateIndex _ r _ _ | rotateExtend _ r _ _ | rotateEval _ r _ _ =>
    some r.sessionId
  | rotateDrop _ sid _ _ | revokeGet _ sid | revokeDelete _ sid | revokeUnindex _ sid
  | refreshGet sid _ | preparing sid _ | opening sid _ => some sid
  | scanning _ _ | deleting _ _ _ _ | dropping _ | returned _ => none

def owner? : Phase ε → Option (String × Int)
  | indexing session _ | extending session _ | undoing session _ _ | unindexing session _ =>
    some (session.id, session.userId)
  | rotateIndex _ r _ user | rotateExtend _ r _ user | rotateEval _ r _ user =>
    some (r.sessionId, user)
  | rotateDrop _ sid user _ => some (sid, user)
  | _ => none

def drops? : Phase ε → Option String
  | rotateDrop _ sid _ _ | revokeUnindex _ sid => some sid
  | _ => none

def marked : Phase ε → Bool
  | extending _ _ | rotateExtend _ _ _ _ | rotateEval _ _ _ _ | opening _ _ => true
  | returned (.created (.ok _)) | returned (.rotated (.ok _)) | returned (.refreshed (.ok _)) => true
  | _ => false

variable {p p' : Phase ε}

inductive Follows : Phase ε → Except Unit (Reply ε) → Phase ε → Prop where
  | stored (session seconds reply) :
      Follows (.storing session seconds) (.ok reply) (.indexing session seconds)
  | indexed (session seconds reply) :
      Follows (.indexing session seconds) (.ok reply) (.extending session seconds)
  | created (session seconds reply) :
      Follows (.extending session seconds) (.ok reply) (.returned (.created (.ok ())))
  | indexFailed (session seconds e) :
      Follows (.indexing session seconds) (.error ()) (.undoing session false e)
  | extendFailed (session seconds e) :
      Follows (.extending session seconds) (.error ()) (.undoing session true e)
  | undone (session indexed e answer) :
      Follows (.undoing session indexed e) answer (.unindexing session e)
  | loaded (q r seconds s) :
      Follows (.rotateGet q r seconds) (.ok (.value (some s))) (.rotateIndex q r seconds s.userId)
  | rotateIndexed (q r seconds user reply) :
      Follows (.rotateIndex q r seconds user) (.ok reply) (.rotateExtend q r seconds user)
  | extended (q r seconds user reply) :
      Follows (.rotateExtend q r seconds user) (.ok reply) (.rotateEval q r seconds user)
  | rotated (r seconds user s) :
      Follows (.rotateEval none r seconds user) (.ok (.script (.stored s)))
        (.returned (.rotated (.ok s)))
  | refreshed (q r seconds user s) :
      Follows (.rotateEval (some q) r seconds user) (.ok (.script (.stored s)))
        (.opening r.sessionId s.encryptedRefreshResult)
  | gone (q r seconds user reply e) (hr : ∀ s, reply ≠ .script (.stored s)) :
      Follows (.rotateEval q r seconds user) (.ok reply) (.rotateDrop q r.sessionId user e)
  | revoking (user sid answer) :
      Follows (.revokeGet user sid) answer (.revokeDelete user sid)
  | revokeDeleted (user sid reply) :
      Follows (.revokeDelete user sid) (.ok reply) (.revokeUnindex user sid)
  | scanned (user cursor ids cursor') :
      Follows (.scanning user cursor) (.ok (.scanned ids cursor'))
        (afterScan user (batches ids) cursor')
  | deleted (user batch rest cursor reply) :
      Follows (.deleting user batch rest cursor) (.ok reply) (afterScan user rest cursor)
  | refreshLoaded (sid secret answer) :
      Follows (.refreshGet sid secret) answer (.preparing sid secret)
  | returned (p answer outcome) (ho : (Phase.returned outcome).marked = false) :
      Follows p answer (.returned outcome)

theorem afterRotate_error (q : Option Request) (sid : String) (e : Err) :
    ∃ outcome, afterRotate q sid (.error e : Except Err (Session ε)) = .returned outcome ∧
      (Phase.returned outcome).marked = false := by
  cases q with
  | none => exact ⟨_, rfl, rfl⟩
  | some => cases e <;> exact ⟨_, rfl, rfl⟩

theorem follows_afterRotate {answer : Except Unit (Reply ε)} (q : Option Request) (sid : String)
    (e : Err) : Follows p answer (afterRotate q sid (.error e)) := by
  obtain ⟨outcome, h, ho⟩ := afterRotate_error (ε := ε) q sid e
  rw [h]
  exact .returned p answer outcome ho

theorem loaded_ok {sid : String} {answer : Except Unit (Reply ε)} {s : Session ε}
    (h : loaded sid answer = .ok s) : answer = .ok (.value (some s)) := by
  unfold loaded at h
  split at h
  · cases h
  · repeat' split at h
    all_goals cases h
    rfl
  · cases h

/-- How a call goes on after each answer. -/
theorem follows_resume {c : Cmd ε} (hc : p.cmd = some c) (answer : Except Unit (Reply ε)) :
    Follows p answer (p.resume answer) := by
  cases p with
  | storing session seconds =>
    cases answer with
    | ok reply => exact .stored session seconds reply
    | error => exact .returned _ _ _ rfl
  | indexing session seconds =>
    cases answer with
    | ok reply => exact .indexed session seconds reply
    | error => exact .indexFailed session seconds _
  | extending session seconds =>
    cases answer with
    | ok reply => exact .created session seconds reply
    | error => exact .extendFailed session seconds _
  | undoing session indexed e =>
    cases indexed with
    | true => exact .undone session true e answer
    | false => exact .returned _ _ _ rfl
  | unindexing => exact .returned _ _ _ rfl
  | rotateGet q r seconds =>
    change Follows _ answer (afterLoad q r seconds (loaded r.sessionId answer))
    cases hl : loaded r.sessionId answer with
    | error e => exact follows_afterRotate q _ e
    | ok s =>
      rw [loaded_ok hl]
      exact .loaded q r seconds s
  | rotateIndex q r seconds user =>
    cases answer with
    | ok reply => exact .rotateIndexed q r seconds user reply
    | error => exact follows_afterRotate q _ _
  | rotateExtend q r seconds user =>
    cases answer with
    | ok reply => exact .extended q r seconds user reply
    | error => exact follows_afterRotate q _ _
  | rotateEval q r seconds user =>
    cases answer with
    | error => exact follows_afterRotate q _ _
    | ok reply =>
      cases reply with
      | script reply =>
        cases reply with
        | missing | mismatch => exact .gone q r seconds user _ _ nofun
        | stored s =>
          change Follows _ _ (afterEval q r user (.script (.stored s)))
          simp only [afterEval]
          split
          · exact follows_afterRotate q _ _
          · cases q with
            | none => exact .rotated r seconds user s
            | some q => exact .refreshed q r seconds user s
      | _ => exact .gone q r seconds user _ _ nofun
  | rotateDrop q sid _ e => exact follows_afterRotate q sid e
  | revokeGet user sid =>
    change Follows _ answer (afterCheck user sid (loaded sid answer))
    cases hl : loaded sid answer with
    | error e => cases e <;> first | exact .revoking user sid answer | exact .returned _ _ _ rfl
    | ok =>
      simp only [afterCheck]
      split
      · exact .returned _ _ _ rfl
      · exact .revoking user sid answer
  | revokeDelete user sid =>
    cases answer with
    | ok reply => exact .revokeDeleted user sid reply
    | error => exact .returned _ _ _ rfl
  | revokeUnindex | dropping => cases answer <;> exact .returned _ _ _ rfl
  | scanning user cursor =>
    cases answer with
    | error => exact .returned _ _ _ rfl
    | ok reply =>
      cases reply with
      | scanned ids cursor' => exact .scanned user cursor ids cursor'
      | done | value | script => exact .returned _ _ _ rfl
  | deleting user batch rest cursor =>
    cases answer with
    | ok reply => exact .deleted user batch rest cursor reply
    | error => exact .returned _ _ _ rfl
  | refreshGet sid secret =>
    change Follows _ answer (afterFind sid secret (loaded sid answer))
    cases hl : loaded sid answer with
    | error e => cases e <;> exact .returned _ _ _ rfl
    | ok => exact .refreshLoaded sid secret answer
  | _ => cases hc

end Phase

/-! ## Steps -/

namespace Store

variable {cfg : Issuer ε} {s s' : Store ε}

inductive Change (cfg : Issuer ε) (s : Store ε) : Move ε → Store ε → Prop where
  | ticked (d : ℕ) : Change cfg s (.tick d) { s with keys := s.keys.tick d }
  | spawned (c : Call ε) (h : s.admits cfg c = true) :
      Change cfg s (.spawn c)
        { s with
          calls := Function.update s.calls s.next (some { call := c, phase := c.start cfg })
          next := s.next + 1, named := (c.sid? cfg).toList ++ s.named }
  | sent (pid : ℕ) (p : Process ε) (c : Cmd ε) (ids : List String) (more : Bool) (keys : Keys ε)
      (reply : Reply ε) (hp : s.calls pid = some p) (hc : p.phase.cmd = some c)
      (hx : s.keys.exec ids more c = some (keys, reply)) :
      Change cfg s (.exec pid ids more) (setPhase
        { s with keys, rotations := (rotation? s.keys p.phase).toList ++ s.rotations } pid p
        (p.phase.resume (.ok reply)))
  | lost (pid : ℕ) (p : Process ε) (c : Cmd ε) (ids : List String) (more : Bool) (keys : Keys ε)
      (reply : Reply ε) (hp : s.calls pid = some p) (hc : p.phase.cmd = some c)
      (hx : s.keys.exec ids more c = some (keys, reply)) :
      Change cfg s (.lose pid ids more) (setPhase
        { s with keys, rotations := (rotation? s.keys p.phase).toList ++ s.rotations } pid p
        (p.phase.resume (.error ())))
  | failed (pid : ℕ) (p : Process ε) (c : Cmd ε) (hp : s.calls pid = some p)
      (hc : p.phase.cmd = some c) :
      Change cfg s (.fail pid) (s.setPhase pid p (p.phase.resume (.error ())))
  | unprepared (pid : ℕ) (p : Process ε) (sid secret : String) (e : Err) (hp : s.calls pid = some p)
      (hphase : p.phase = .preparing sid secret) :
      Change cfg s (.prepare pid (.error e)) (s.setPhase pid p (.returned (.refreshed (.error e))))
  | prepared (pid : ℕ) (p : Process ε) (sid secret : String) (prepared : Prepared)
      (hp : s.calls pid = some p) (hphase : p.phase = .preparing sid secret) :
      Change cfg s (.prepare pid (.ok prepared)) (s.setPhase pid p (Call.rotateRefreshToken
        (some (cfg.request sid secret prepared)) (cfg.rotation sid secret prepared)))
  | finished (pid : ℕ) (p : Process ε) (sid : String) (encoded : Option ε) (now : ℕ)
      (hp : s.calls pid = some p) (hphase : p.phase = .opening sid encoded) :
      Change cfg s (.finish pid now) (s.setPhase pid p
        (.returned (.refreshed (cfg.decryptRefreshResult sid encoded now))))

theorem effect_eq_some {pid : ℕ} {ids : List String} {more : Bool} {p : Process ε} {reply : Reply ε}
    (h : s.effect pid ids more = some (s', p, reply)) :
    ∃ c keys, s.calls pid = some p ∧ p.phase.cmd = some c ∧
      s.keys.exec ids more c = some (keys, reply) ∧
      s' = { s with keys, rotations := (rotation? s.keys p.phase).toList ++ s.rotations } := by
  obtain ⟨_, hp, h⟩ := Option.bind_eq_some_iff.mp h
  obtain ⟨c, hc, h⟩ := Option.bind_eq_some_iff.mp h
  obtain ⟨⟨keys, _⟩, hx, h⟩ := Option.bind_eq_some_iff.mp h
  cases h
  exact ⟨c, keys, hp, hc, hx, rfl⟩

/-- Every step of the store is one of the changes. -/
theorem step_change {m : Move ε} (h : s.step cfg m = some s') : Change cfg s m s' := by
  cases m with
  | tick d =>
    cases h
    exact .ticked d
  | spawn c =>
    obtain ⟨hadm, ⟨⟩⟩ := Option.ite_none_right_eq_some.mp h
    exact .spawned c hadm
  | exec pid ids more =>
    obtain ⟨⟨s1, p, reply⟩, he, ⟨⟩⟩ := Option.map_eq_some_iff.mp h
    obtain ⟨c, keys, hp, hc, hx, rfl⟩ := effect_eq_some he
    exact .sent pid p c ids more keys reply hp hc hx
  | lose pid ids more =>
    obtain ⟨⟨_, p, reply⟩, he, ⟨⟩⟩ := Option.map_eq_some_iff.mp h
    obtain ⟨c, keys, hp, hc, hx, rfl⟩ := effect_eq_some he
    exact .lost pid p c ids more keys reply hp hc hx
  | fail pid =>
    obtain ⟨p, hp, h⟩ := Option.bind_eq_some_iff.mp h
    obtain ⟨c, hc, ⟨⟩⟩ := Option.bind_eq_some_iff.mp h
    exact .failed pid p c hp hc
  | prepare pid r =>
    obtain ⟨p, hp, h⟩ := Option.bind_eq_some_iff.mp h
    cases hphase : p.phase with
    | preparing sid secret =>
      cases r with
      | error e =>
        simp only [hphase] at h
        cases h
        exact .unprepared pid p sid secret e hp hphase
      | ok prepared =>
        simp only [hphase] at h
        cases h
        exact .prepared pid p sid secret prepared hp hphase
    | _ => simp [hphase] at h
  | finish pid now =>
    obtain ⟨p, hp, h⟩ := Option.bind_eq_some_iff.mp h
    split at h
    next sid encoded hphase =>
      cases h
      exact .finished pid p sid encoded now hp hphase
    · cases h

end Store

end Dogx.Authn
