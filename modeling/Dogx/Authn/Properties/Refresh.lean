import Dogx.Authn.Ledger

/-!
# Refreshes of a session

Every refresh prepares its own candidate, and the script decides which one wins. The rotations so far
(`Store.rotations`) are the winners, and a stored session is as its `Issue` or its last rotation made
it, so the decision of the script is one about the history.
-/

namespace Dogx.Authn

open Redis (Space Members Cursor Entry)
open Function (update update_of_ne update_self)

variable {ε : Type} {p phase : Phase ε}

structure Session.Issued (s : Session ε) : Prop where
  previous : s.previousRefreshTokenHash = ""
  window : s.refreshReplayUntil = 0
  result : s.encryptedRefreshResult = none

def Session.Records (s : Session ε) : Option (Rotated ε) → Prop
  | none => s.Issued
  | some rot => s.refreshTokenHash = rot.rotation.nextHash ∧
      s.previousRefreshTokenHash = rot.rotation.currentHash ∧
      s.refreshReplayUntil = rot.time + replayWindow ∧
      s.encryptedRefreshResult = rot.rotation.encryptedResult

def Issuer.Made (cfg : Issuer ε) (q : Option Request) (r : Rotation ε) : Prop :=
  ∃ secret prepared, q = some (cfg.request r.sessionId secret prepared) ∧
    r = cfg.rotation r.sessionId secret prepared

def RefreshResult.answer (r : RefreshResult) (now : ℕ) : Except Err Credentials :=
  if r.expiresIn now ≤ 0 then .error (.message "refresh result is invalid or expired")
  else .ok { accessToken := r.accessToken, refreshToken := r.refreshToken, expiresIn := r.expiresIn now }

theorem Issuer.decrypt_request (cfg : Issuer ε) (sid secret : String) (prepared : Prepared)
    (now : ℕ) :
    cfg.decryptRefreshResult sid (cfg.rotation sid secret prepared).encryptedResult now =
      (cfg.request sid secret prepared).result.answer now := by
  have haccess : (cfg.request sid secret prepared).result.accessToken ≠ "" := prepared.signed
  have hrefresh : (cfg.request sid secret prepared).result.refreshToken ≠ "" := by
    simp [Issuer.request]
  simp [Issuer.decryptRefreshResult, Issuer.rotation, cfg.decrypt_encrypt,
    haccess, hrefresh, false_or, RefreshResult.answer]

namespace Phase

def rotates? : Phase ε → Option (Option Request × Rotation ε)
  | rotateGet q r _ | rotateIndex q r _ _ | rotateExtend q r _ _ | rotateEval q r _ _ => some (q, r)
  | _ => none

theorem Follows.rotates {p' : Phase ε} {answer : Except Unit (Reply ε)} (hf : Follows p answer p')
    {x : Option Request × Rotation ε} (hx : p'.rotates? = some x) : p.rotates? = some x := by
  cases hf with
  | scanned | deleted =>
    unfold afterScan at hx
    repeat' split at hx
    all_goals cases hx
  | loaded | rotateIndexed | extended => exact hx
  | _ => cases hx

end Phase

namespace Store

variable {cfg : Issuer ε} {s s' : Store ε} {m : Move ε} {sid : String} {rot : Rotated ε}
  {pid time : ℕ} {k keys : Keys ε} {ids : List String} {e : Session ε} {q : Option Request}
  {winner : Request}

/-- The calls that clients have: sessions are issued, and rotated by `Refresh` only. -/
def Move.Offered : Move ε → Prop
  | .spawn (.create session _) => session.Issued
  | .spawn (.rotate _) => False
  | _ => True

/-! ## The history of a session -/

def last (s : Store ε) (sid : String) : Option (Rotated ε) :=
  s.rotations.find? fun rot => rot.rotation.sessionId = sid

theorem last_eq_some (h : s.last sid = some rot) :
    rot ∈ s.rotations ∧ rot.rotation.sessionId = sid := by
  exact ⟨List.mem_of_find?_eq_some h, by simpa using List.find?_some h⟩

def Apart (new old : Rotated ε) : Prop :=
  new.rotation.sessionId = old.rotation.sessionId → old.time + replayWindow ≤ new.time

structure Genuine (cfg : Issuer ε) (s : Store ε) : Prop where
  flight : ∀ pid p q r, s.calls pid = some p → p.phase.rotates? = some (q, r) → cfg.Made q r
  issued : ∀ pid p session seconds, s.calls pid = some p → p.phase = .storing session seconds →
    session.Issued ∧ s.last session.id = none
  past : ∀ rot ∈ s.rotations, cfg.Made rot.request rot.rotation ∧ rot.time ≤ s.keys.now ∧
    rot.rotation.sessionId ∈ s.named
  apart : s.rotations.Pairwise Apart
  stored : ∀ sid e, s.keys.sessions sid = some e → e.value.Records (s.last sid)

theorem genuine_init : Genuine cfg (init : Store ε) where
  flight := fun _ _ _ _ h => by cases h
  issued := fun _ _ _ _ h => by cases h
  past := fun _ h => by cases h
  apart := .nil
  stored := fun _ _ h => by cases h

theorem Genuine.setPhase (h : s.Genuine cfg) {p : Process ε}
    (hmade : ∀ q r, phase.rotates? = some (q, r) → cfg.Made q r)
    (hbegun : ∀ session seconds, phase ≠ .storing session seconds) :
    (s.setPhase pid p phase).Genuine cfg where
  flight := by
    intro pid' q' q r hq hr
    rcases calls_setPhase hq with ⟨rfl, rfl⟩ | ⟨-, hq⟩
    · exact hmade q r hr
    · exact h.flight pid' q' q r hq hr
  issued := by
    intro pid' q session seconds hq hphase
    rcases calls_setPhase hq with ⟨rfl, rfl⟩ | ⟨-, hq⟩
    · exact absurd hphase (hbegun session seconds)
    · exact h.issued pid' q session seconds hq hphase
  past := h.past
  apart := h.apart
  stored := h.stored

theorem Genuine.ticked (h : s.Genuine cfg) (d : ℕ) :
    ({ s with keys := s.keys.tick d } : Store ε).Genuine cfg where
  flight := h.flight
  issued := h.issued
  past := by
    intro rot hrot
    obtain ⟨hmade, htime, hnamed⟩ := h.past rot hrot
    exact ⟨hmade, Nat.le_trans htime (Nat.le_add_right ..), hnamed⟩
  apart := h.apart
  stored := fun sid e he => h.stored sid e (Space.of_elapse he)

theorem Genuine.last_of_not_named (h : s.Genuine cfg) (hsid : sid ∉ s.named) : s.last sid = none := by
  refine List.find?_eq_none.mpr fun rot hrot heq => hsid ?_
  rw [← of_decide_eq_true heq]
  exact (h.past rot hrot).2.2

theorem Genuine.spawned (h : s.Genuine cfg) {c : Call ε} (hadm : s.admits cfg c = true)
    (hstart : c.Starts cfg phase) (hoffered : (Move.spawn c).Offered) :
    ({ s with
       calls := update s.calls s.next (some { call := c, phase })
       next := s.next + 1, named := (c.sid? cfg).toList ++ s.named } : Store ε).Genuine cfg where
  flight := by
    intro pid p q r hp hr
    rcases Machine.Pool.update_eq_some hp with ⟨rfl, rfl⟩ | ⟨-, hp⟩
    · cases hstart with
      | rotate => cases hoffered
      | _ => cases hr
    · exact h.flight pid p q r hp hr
  issued := by
    intro pid p session seconds hp hphase
    rcases Machine.Pool.update_eq_some hp with ⟨rfl, rfl⟩ | ⟨-, hp⟩
    · cases hphase
      cases hstart
      exact ⟨hoffered, h.last_of_not_named (by simpa [admits] using hadm)⟩
    · exact h.issued pid p session seconds hp hphase
  past := by
    intro rot hrot
    obtain ⟨hmade, htime, hnamed⟩ := h.past rot hrot
    exact ⟨hmade, htime, List.mem_append_right _ hnamed⟩
  apart := h.apart
  stored := h.stored

/-! ## What a command writes -/

inductive Wrote (k : Keys ε) (p : Phase ε) (k' : Keys ε) : Option (Rotated ε) → Prop where
  | kept (hs : ∀ sid e, k'.sessions sid = some e → k.sessions sid = some e) : Wrote k p k' none
  | stored (session : Session ε) (seconds : ℕ) (hp : p = .storing session seconds)
      (hs : k'.sessions = k.sessions.setex session.id session (k.deadline seconds)) :
      Wrote k p k' none
  | rotated (q : Option Request) (r : Rotation ε) (seconds : ℕ) (user : Int) (e : Entry (Session ε))
      (hp : p = .rotateEval q r seconds user) (he : k.sessions r.sessionId = some e)
      (hd : e.value.decide k.now r.currentHash = .rotate)
      (hs : k'.sessions =
        k.sessions.setex r.sessionId (e.value.rotated k.now r) (k.deadline seconds)) :
      Wrote k p k' (some ⟨r, k.now, q⟩)

theorem rotation?_of_cmd {c : Cmd ε} (hc : p.cmd = some c) (hne : ∀ r seconds, c ≠ .eval r seconds) :
    rotation? k p = none := by
  cases p with
  | rotateEval q r seconds =>
    cases hc
    exact absurd rfl (hne r seconds)
  | _ => rfl

theorem eval_wrote (k : Keys ε) (q : Option Request) (r : Rotation ε) (seconds : ℕ) (user : Int) :
    Wrote k (.rotateEval q r seconds user) (k.eval r seconds).1
      (rotation? k (.rotateEval q r seconds user)) := by
  cases he : k.sessions r.sessionId with
  | none =>
    simp only [rotation?, Keys.eval, he]
    exact .kept fun _ _ h => h
  | some e =>
    cases hd : e.value.decide k.now r.currentHash with
    | replay =>
      simp only [rotation?, Keys.eval, he, hd, Option.bind_some]
      exact .kept fun _ _ h => h
    | mismatch =>
      simp only [rotation?, Keys.eval, he, hd, Option.bind_some]
      exact .kept fun _ _ h => (Space.del_eq_some.mp h).2
    | rotate =>
      simp only [rotation?, Keys.eval, he, hd, Option.bind_some]
      exact .rotated q r seconds user e rfl he hd rfl

/-- Commands write sessions and rotations only as `Wrote` says. -/
theorem exec_wrote {k' : Keys ε} {c : Cmd ε} {more : Bool} {reply : Reply ε} (hc : p.cmd = some c)
    (hx : k.exec ids more c = some (k', reply)) :
    Wrote k p k' (rotation? k p) ∧ k'.now = k.now := by
  cases c with
  | eval r seconds =>
    cases hx
    cases p <;> cases hc
    refine ⟨eval_wrote k _ r seconds _, ?_⟩
    unfold Keys.eval
    repeat' split
    all_goals rfl
  | setex session seconds =>
    rw [rotation?_of_cmd hc nofun]
    cases hx
    exact ⟨.stored session seconds (Phase.cmd_setex hc) rfl, rfl⟩
  | del =>
    rw [rotation?_of_cmd hc nofun]
    cases hx
    exact ⟨.kept fun _ _ h => (Space.del_eq_some.mp h).2, rfl⟩
  | sscan =>
    rw [rotation?_of_cmd hc nofun]
    obtain ⟨-, ⟨⟩⟩ := Option.ite_none_right_eq_some.mp hx
    exact ⟨.kept fun _ _ h => h, rfl⟩
  | _ =>
    rw [rotation?_of_cmd hc nofun]
    cases hx
    exact ⟨.kept fun _ _ h => h, rfl⟩

theorem window_over {now : ℕ} {hash : String} (h : e.Records (some rot))
    (hresult : rot.rotation.encryptedResult.isSome = true) (hd : e.decide now hash = .rotate) :
    rot.time + replayWindow ≤ now := by
  obtain ⟨-, -, hwindow, hencrypted⟩ := h
  by_contra hlt
  unfold Session.decide at hd
  split at hd
  · cases hd
  next hno =>
    split at hd
    · cases hd
    next heq =>
      refine hno ?_
      simp only [Session.withinWindow, hencrypted, hresult, Bool.and_true, Bool.and_eq_true,
        decide_eq_true_eq, Bool.or_eq_true]
      exact ⟨by omega, .inl (not_not.mp heq)⟩

theorem last_cons_self (rot : Rotated ε) (keys : Keys ε) :
    ({ s with keys, rotations := rot :: s.rotations } : Store ε).last rot.rotation.sessionId =
      some rot :=
  List.find?_cons_of_pos (decide_eq_true rfl)

theorem last_cons_ne (keys : Keys ε) (hne : rot.rotation.sessionId ≠ sid) :
    ({ s with keys, rotations := rot :: s.rotations } : Store ε).last sid = s.last sid :=
  List.find?_cons_of_neg (by simpa using hne)

theorem Genuine.before_last (h : s.Genuine cfg) {old : Rotated ε} (hlast : s.last sid = some rot)
    (hold : old ∈ s.rotations) (hsid : old.rotation.sessionId = sid) : old.time ≤ rot.time := by
  obtain ⟨hrot, _, _, heq, hnewer⟩ := List.find?_eq_some_iff_append.mp hlast
  have hapart := h.apart
  rw [heq] at hold hapart
  rcases List.mem_append.mp hold with hmem | hmem
  · simpa [hsid] using hnewer old hmem
  rcases List.mem_cons.mp hmem with rfl | hmem
  · exact Nat.le_refl _
  have hrest := (List.pairwise_cons.mp (List.pairwise_append.mp hapart).2.1).1 old hmem
  exact Nat.le_of_add_right_le (hrest (by rw [of_decide_eq_true hrot, hsid]))

theorem made_isSome {r : Rotation ε} (h : cfg.Made q r) : r.encryptedResult.isSome = true := by
  obtain ⟨_, _, -, hr⟩ := h
  rw [hr]
  rfl

section

variable (h : s.Genuine cfg)
include h

theorem Genuine.apart_rotated {r : Rotation ε} {e : Entry (Session ε)}
    (he : s.keys.sessions r.sessionId = some e)
    (hd : e.value.decide s.keys.now r.currentHash = .rotate) :
    ∀ old ∈ s.rotations, Apart ⟨r, s.keys.now, q⟩ old := by
  intro old hold hsid
  have hrecords := h.stored _ e he
  cases hlast : s.last r.sessionId with
  | none =>
    have := List.find?_eq_none.mp hlast old hold
    exact absurd (decide_eq_true hsid.symm) this
  | some rot =>
    rw [hlast] at hrecords
    have hsome := made_isSome (h.past rot (last_eq_some hlast).1).1
    exact Nat.le_trans (Nat.add_le_add_right (h.before_last hlast hold hsid.symm) _)
      (window_over hrecords hsome hd)

/-- The rotation of a session follows the one before it. -/
theorem Genuine.rotated (hl : s.Ledger cfg) {r : Rotation ε} {e : Entry (Session ε)} {deadline : ℕ}
    (hmade : cfg.Made q r) (he : s.keys.sessions r.sessionId = some e)
    (hd : e.value.decide s.keys.now r.currentHash = .rotate) (hnow : keys.now = s.keys.now)
    (hs : keys.sessions = s.keys.sessions.setex r.sessionId (e.value.rotated s.keys.now r) deadline) :
    ({ s with keys, rotations := ⟨r, s.keys.now, q⟩ :: s.rotations } : Store ε).Genuine cfg where
  flight := h.flight
  issued := by
    intro pid p session seconds hp hphase
    obtain ⟨hissued, hlast⟩ := h.issued pid p session seconds hp hphase
    have hne : r.sessionId ≠ session.id := by
      intro heq
      rw [heq, ((hl.knows pid p hp).fresh session seconds hphase).1] at he
      cases he
    refine ⟨hissued, ?_⟩
    rw [last_cons_ne keys hne]
    exact hlast
  past := by
    intro rot hrot
    rcases List.mem_cons.mp hrot with rfl | hrot
    · exact ⟨hmade, Nat.le_of_eq hnow.symm, (hl.stored _ e he).1⟩
    · rw [hnow]
      exact h.past rot hrot
  apart := List.pairwise_cons.mpr ⟨h.apart_rotated he hd, h.apart⟩
  stored := by
    intro sid e' he'
    rw [hs] at he'
    by_cases hsid : sid = r.sessionId
    · subst hsid
      simp only [Space.setex, update_self, Option.some.injEq] at he'
      subst he'
      rw [last_cons_self ⟨r, s.keys.now, q⟩]
      refine ⟨rfl, ?_, rfl, rfl⟩
      unfold Session.decide at hd
      repeat' split at hd
      · cases hd
      · cases hd
      next heq => exact not_not.mp heq
    · simp only [Space.setex, update_of_ne hsid] at he'
      rw [last_cons_ne keys (Ne.symm hsid)]
      exact h.stored sid e' he'

theorem Genuine.wrote (hl : s.Ledger cfg) {p : Process ε} {rot : Option (Rotated ε)}
    (hp : s.calls pid = some p) (hw : Wrote s.keys p.phase keys rot) (hnow : keys.now = s.keys.now) :
    ({ s with keys, rotations := rot.toList ++ s.rotations } : Store ε).Genuine cfg := by
  have hpast : ∀ rot ∈ s.rotations, cfg.Made rot.request rot.rotation ∧ rot.time ≤ keys.now ∧
      rot.rotation.sessionId ∈ s.named := by
    rw [hnow]
    exact h.past
  cases hw with
  | kept hs =>
    exact ⟨h.flight, h.issued, hpast, h.apart, fun sid e he => h.stored sid e (hs sid e he)⟩
  | stored session seconds hphase hs =>
    refine ⟨h.flight, h.issued, hpast, h.apart, ?_⟩
    intro sid e he
    rw [hs] at he
    by_cases hsid : sid = session.id
    · subst hsid
      simp only [Space.setex, update_self, Option.some.injEq] at he
      subst he
      obtain ⟨hissued, hlast⟩ := h.issued pid p session seconds hp hphase
      have hlast' : ({ s with keys, rotations := s.rotations } : Store ε).last session.id = none :=
        hlast
      rw [Option.toList_none, List.nil_append, hlast']
      exact hissued
    · simp only [Space.setex, update_of_ne hsid] at he
      exact h.stored sid e he
  | rotated q r _ _ e hphase he hd hs =>
    have hmade := h.flight pid p q r hp (hphase ▸ rfl)
    exact h.rotated hl hmade he hd hnow hs

/-- One step of the offered calls keeps sessions and rotations in agreement. -/
theorem Genuine.step (hl : s.Ledger cfg) (hm : s.step cfg m = some s') (hoffered : m.Offered) :
    s'.Genuine cfg := by
  have hresume : ∀ {pid p c}, s.calls pid = some p → p.phase.cmd = some c → ∀ answer q r,
      (p.phase.resume answer).rotates? = some (q, r) → cfg.Made q r :=
    fun hp hc answer q r hr => h.flight _ _ q r hp ((Phase.follows_resume hc answer).rotates hr)
  have hbegun : ∀ {p : Process ε} {c}, p.phase.cmd = some c → ∀ answer session seconds,
      p.phase.resume answer ≠ .storing session seconds :=
    fun hc answer _ _ => (Phase.follows_resume hc answer).begun
  cases step_change hm with
  | ticked d => exact h.ticked d
  | spawned c hadm => exact h.spawned hadm (c.starts cfg) hoffered
  | sent _ p c _ _ _ _ hp hc hx | lost _ p c _ _ _ _ hp hc hx =>
    obtain ⟨hw, hnow⟩ := exec_wrote hc hx
    exact (h.wrote hl hp hw hnow).setPhase (hresume hp hc _) (hbegun hc _)
  | failed _ p c hp hc => exact h.setPhase (hresume hp hc _) (hbegun hc _)
  | unprepared | finished => exact h.setPhase nofun nofun
  | prepared _ p sid secret prepared =>
    rcases Call.rotateRefreshToken_cases (some (cfg.request sid secret prepared))
      (cfg.rotation sid secret prepared) with ⟨outcome, hc, -⟩ | ⟨seconds, hc⟩
    · rw [hc]
      exact h.setPhase nofun nofun
    · rw [hc]
      refine h.setPhase ?_ nofun
      rintro q r ⟨⟩
      exact ⟨secret, prepared, rfl, rfl⟩

/-! ## Decisions -/

def Won (s : Store ε) (sid : String) (time : ℕ) (winner : Request) : Prop :=
  ∃ rot, s.last sid = some rot ∧ rot.time = time ∧ rot.request = some winner

/-- A stored session has the secrets and the answer of its last winner. -/
theorem Genuine.secrets {e : Entry (Session ε)} (he : s.keys.sessions sid = some e)
    (hw : s.Won sid time winner) :
    e.value.refreshTokenHash = cfg.hash winner.nextSecret ∧
    e.value.previousRefreshTokenHash = cfg.hash winner.secret ∧
    e.value.refreshReplayUntil = time + replayWindow ∧
    e.value.encryptedRefreshResult.isSome = true ∧
    ∀ now, cfg.decryptRefreshResult sid e.value.encryptedRefreshResult now =
      winner.result.answer now := by
  obtain ⟨rot, hlast, rfl, hrequest⟩ := hw
  obtain ⟨hmem, hsid⟩ := last_eq_some hlast
  obtain ⟨⟨secret, prepared, hq, hr⟩, -⟩ := h.past rot hmem
  rw [hsid] at hq hr
  cases hq.symm.trans hrequest
  have hrecords := h.stored sid e he
  rw [hlast] at hrecords
  obtain ⟨hnext, hprevious, hwindow, hresult⟩ := hrecords
  rw [hr] at hnext hprevious hresult
  refine ⟨hnext, hprevious, hwindow, hresult ▸ rfl, fun now => ?_⟩
  rw [hresult]
  exact cfg.decrypt_request sid secret prepared now

theorem Genuine.won_of_window {e : Entry (Session ε)} (he : s.keys.sessions sid = some e)
    (hw : e.value.withinWindow s.keys.now = true) :
    ∃ time winner, s.Won sid time winner ∧ s.keys.now < time + replayWindow := by
  have hrecords := h.stored sid e he
  cases hlast : s.last sid with
  | none =>
    rw [hlast] at hrecords
    have hzero := hrecords.window
    simp only [Session.withinWindow, decide_eq_true_eq] at hw
    omega
  | some rot =>
    rw [hlast] at hrecords
    obtain ⟨⟨_, _, hq, -⟩, -⟩ := h.past rot (last_eq_some hlast).1
    refine ⟨rot.time, _, ⟨rot, hlast, rfl, hq⟩, ?_⟩
    have hwindow := hrecords.2.2.1
    simp only [Session.withinWindow, decide_eq_true_eq] at hw
    omega

end

section Decide

variable {e : Entry (Session ε)} {secret : String} (h : s.Genuine cfg)
  (he : s.keys.sessions sid = some e)
include h he

theorem Genuine.decide_replay (hw : s.Won sid time winner)
    (hwindow : s.keys.now < time + replayWindow)
    (hsecret : secret = winner.nextSecret ∨ secret = winner.secret) :
    e.value.decide s.keys.now (cfg.hash secret) = .replay := by
  obtain ⟨hcurrent, hprevious, huntil, hresult, -⟩ := h.secrets he hw
  refine if_pos ?_
  simp only [Session.withinWindow, hresult, hcurrent, hprevious, Bool.and_true,
    Bool.and_eq_true, Bool.or_eq_true, decide_eq_true_eq]
  refine ⟨by omega, ?_⟩
  rcases hsecret with rfl | rfl
  · exact .inl rfl
  · exact .inr rfl

theorem Genuine.decide_rotate (hcurrent : e.value.refreshTokenHash = cfg.hash secret)
    (hclosed : ∀ time winner, s.Won sid time winner → time + replayWindow ≤ s.keys.now) :
    e.value.decide s.keys.now (cfg.hash secret) = .rotate := by
  have hwindow : e.value.withinWindow s.keys.now = false := by
    refine Bool.eq_false_iff.mpr fun hw => ?_
    obtain ⟨time, winner, hwon, _⟩ := h.won_of_window he hw
    have := hclosed time winner hwon
    omega
  simp [Session.decide, hwindow, hcurrent]

theorem Genuine.decide_mismatch (hcurrent : e.value.refreshTokenHash ≠ cfg.hash secret)
    (hprevious : ∀ time winner, s.Won sid time winner → s.keys.now < time + replayWindow →
      secret ≠ winner.secret) : e.value.decide s.keys.now (cfg.hash secret) = .mismatch := by
  have hreplay : ¬ (e.value.withinWindow s.keys.now = true ∧
      e.value.previousRefreshTokenHash = cfg.hash secret) := by
    rintro ⟨hw, hp⟩
    obtain ⟨time, winner, hwon, hlt⟩ := h.won_of_window he hw
    rw [(h.secrets he hwon).2.1] at hp
    exact hprevious time winner hwon hlt (cfg.hash_injective hp).symm
  unfold Session.decide
  rw [if_neg, if_pos hcurrent]
  simp only [Bool.and_eq_true, Bool.or_eq_true, decide_eq_true_eq]
  rintro ⟨⟨hw, -⟩, hp | hp⟩
  · exact hcurrent hp
  · exact hreplay ⟨hw, hp⟩

end Decide

/-! ## The contract of a refresh -/

def Returns (cfg : Issuer ε) (s : Store ε) (pid : ℕ) (winner : Request) : Prop :=
  ∀ (t : Store ε) (now : ℕ), t.calls pid = s.calls pid →
    ∃ t' p, t.step cfg (.finish pid now) = some t' ∧ t'.calls pid = some p ∧
      p.phase = .returned (.refreshed (winner.result.answer now))

def Runs (m : Move ε) (pid : ℕ) : Prop := ∃ ids more, m = .exec pid ids more ∨ m = .lose pid ids more

structure Script (cfg : Issuer ε) (s s' : Store ε) (sid : String) (q : Request) : Prop where
  missing : s.keys.sessions sid = none →
    s'.keys.sessions = s.keys.sessions ∧ s'.rotations = s.rotations
  replay : ∀ e time winner, s.keys.sessions sid = some e → s.Won sid time winner →
    s.keys.now < time + replayWindow → q.secret = winner.nextSecret ∨ q.secret = winner.secret →
    s'.keys.sessions = s.keys.sessions ∧ s'.rotations = s.rotations
  rotate : ∀ e, s.keys.sessions sid = some e → e.value.refreshTokenHash = cfg.hash q.secret →
    (∀ time winner, s.Won sid time winner → time + replayWindow ≤ s.keys.now) →
    ∃ r deadline, r.sessionId = sid ∧ r.nextHash = cfg.hash q.nextSecret ∧
      s'.keys.sessions = s.keys.sessions.setex sid (e.value.rotated s.keys.now r) deadline ∧
      s'.rotations = ⟨r, s.keys.now, some q⟩ :: s.rotations
  delete : ∀ e, s.keys.sessions sid = some e → e.value.refreshTokenHash ≠ cfg.hash q.secret →
    (∀ time winner, s.Won sid time winner → s.keys.now < time + replayWindow →
      q.secret ≠ winner.secret) →
    s'.keys.sessions = s.keys.sessions.del [sid] ∧ s'.rotations = s.rotations

structure Answer (cfg : Issuer ε) (s s' : Store ε) (pid : ℕ) (sid : String) (q : Request) :
    Prop where
  replay : ∀ e time winner, s.keys.sessions sid = some e → s.Won sid time winner →
    s.keys.now < time + replayWindow → q.secret = winner.nextSecret ∨ q.secret = winner.secret →
    validateSession e.value = true → Returns cfg s' pid winner
  rotate : ∀ e e', s.keys.sessions sid = some e → e.value.refreshTokenHash = cfg.hash q.secret →
    (∀ time winner, s.Won sid time winner → time + replayWindow ≤ s.keys.now) →
    s'.keys.sessions sid = some e' → validateSession e'.value = true → Returns cfg s' pid q

theorem returns_of_opening {p : Process ε} {encoded : Option ε} (hp : s.calls pid = some p)
    (hphase : p.phase = .opening sid encoded)
    (hresult : ∀ now, cfg.decryptRefreshResult sid encoded now = winner.result.answer now) :
    Returns cfg s pid winner := by
  intro t now ht
  refine ⟨t.setPhase pid p (.returned (.refreshed (winner.result.answer now))), _, ?_,
    update_self .., rfl⟩
  simp [step, ht, hp, hphase, hresult]

/-- What the rotation script does, as one step of the store. -/
theorem step_script {p : Process ε} {r : Rotation ε} {seconds : ℕ} {user : Int}
    (hp : s.calls pid = some p) (hphase : p.phase = .rotateEval q r seconds user)
    (hm : s.step cfg m = some s') (hruns : Runs m pid) :
    s'.keys = (s.keys.eval r seconds).1 ∧
    s'.rotations = (rotation? s.keys (.rotateEval q r seconds user)).toList ++ s.rotations ∧
    ∀ ids more, m = .exec pid ids more → ∃ p', s'.calls pid = some p' ∧
      p'.phase = .afterEval q r user (.script (s.keys.eval r seconds).2) := by
  obtain ⟨_, _, rfl | rfl⟩ := hruns
  · cases step_change hm with
    | sent _ _ c _ _ _ _ hp' hc hx =>
      cases hp.symm.trans hp'
      rw [hphase] at hc
      cases hc
      cases hx
      refine ⟨rfl, by rw [← hphase]; rfl, fun _ _ _ => ⟨_, update_self .., ?_⟩⟩
      simp only [hphase]
      rfl
  · cases step_change hm with
    | lost _ _ c _ _ _ _ hp' hc hx =>
      cases hp.symm.trans hp'
      rw [hphase] at hc
      cases hc
      cases hx
      exact ⟨rfl, by rw [← hphase]; rfl, nofun⟩

section Scripts

variable {pid : ℕ} {p : Process ε} {r : Rotation ε} {seconds : ℕ} {user : Int} {q : Request}

/-- What the script does for a refresh, by what is stored. -/
theorem Genuine.script (h : s.Genuine cfg) (hp : s.calls pid = some p)
    (hphase : p.phase = .rotateEval (some q) r seconds user) (hm : s.step cfg m = some s')
    (hruns : Runs m pid) : Script cfg s s' r.sessionId q := by
  obtain ⟨secret, _, hq, hr⟩ := h.flight pid p _ r hp (by rw [hphase]; rfl)
  obtain rfl := Option.some.inj hq
  have hhash : r.currentHash = cfg.hash secret := congrArg Rotation.currentHash hr
  obtain ⟨hkeys, hrotations, -⟩ := step_script hp hphase hm hruns
  -- the script, by its decision
  have hscript : ∀ {e d}, s.keys.sessions r.sessionId = some e →
      e.value.decide s.keys.now (cfg.hash secret) = d → d ≠ .rotate →
      s'.rotations = s.rotations ∧
      s'.keys.sessions = if d = .mismatch then s.keys.sessions.del [r.sessionId]
        else s.keys.sessions := by
    rintro e d he hd hne
    rw [hkeys, hrotations]
    rw [← hhash] at hd
    cases d with
    | replay | mismatch => simp [Keys.eval, rotation?, he, hd]
    | rotate => exact absurd rfl hne
  refine ⟨?_, ?_, ?_, ?_⟩
  · intro hnone
    simp [hkeys, hrotations, Keys.eval, rotation?, hnone]
  · intro e time winner he hwon hlt hsecret
    obtain ⟨hrot, hsessions⟩ := hscript he (h.decide_replay he hwon hlt hsecret) (by decide)
    exact ⟨hsessions, hrot⟩
  · intro e he hcurrent hclosed
    have hd := h.decide_rotate he hcurrent hclosed
    have hd' : e.value.decide s.keys.now r.currentHash = .rotate := by rw [hhash]; exact hd
    refine ⟨r, s.keys.deadline seconds, rfl, congrArg Rotation.nextHash hr, ?_, ?_⟩
    · simp [hkeys, Keys.eval, he, hd']
    · simp [hrotations, rotation?, he, hd']
  · intro e he hcurrent hprevious
    obtain ⟨hrot, hsessions⟩ := hscript he (h.decide_mismatch he hcurrent hprevious) (by decide)
    exact ⟨hsessions, hrot⟩

theorem afterEval_stored (hv : validateSession e = true) (hid : e.id = r.sessionId) :
    Phase.afterEval (some q) r user (.script (.stored e)) =
      .opening r.sessionId e.encryptedRefreshResult := by
  simp [Phase.afterEval, hv, hid, Phase.afterRotate]

/-- What the caller returns once its script is answered. -/
theorem Genuine.answer (h : s.Genuine cfg) (hl : s.Ledger cfg) (hp : s.calls pid = some p)
    (hphase : p.phase = .rotateEval (some q) r seconds user) {more : Bool}
    (hm : s.step cfg (.exec pid ids more) = some s') : Answer cfg s s' pid r.sessionId q := by
  obtain ⟨secret, prepared, hq, hr⟩ := h.flight pid p _ r hp (by rw [hphase]; rfl)
  obtain rfl := Option.some.inj hq
  have hhash : r.currentHash = cfg.hash secret := congrArg Rotation.currentHash hr
  obtain ⟨hkeys, _, hafter⟩ := step_script hp hphase hm ⟨ids, more, .inl rfl⟩
  obtain ⟨_, hp', hphase'⟩ := hafter ids more rfl
  refine ⟨?_, ?_⟩
  · intro e time winner he hwon hlt hsecret hv
    have hd := h.decide_replay he hwon hlt hsecret
    have hd' : e.value.decide s.keys.now r.currentHash = .replay := by rw [hhash]; exact hd
    have hreply : (s.keys.eval r seconds).2 = .stored e.value := by simp [Keys.eval, he, hd']
    rw [hreply, afterEval_stored hv (hl.stored _ e he).2.1] at hphase'
    exact returns_of_opening hp' hphase' (h.secrets he hwon).2.2.2.2
  · intro e e' he hcurrent hclosed he' hv
    have hd := h.decide_rotate he hcurrent hclosed
    have hd' : e.value.decide s.keys.now r.currentHash = .rotate := by rw [hhash]; exact hd
    have hreply : (s.keys.eval r seconds).2 = .stored (e.value.rotated s.keys.now r) := by
      simp [Keys.eval, he, hd']
    have hvalue : e'.value = e.value.rotated s.keys.now r := by
      simp only [hkeys, Keys.eval, he, hd', Space.setex, update_self,
        Option.some.injEq] at he'
      rw [← he']
    rw [hvalue] at hv
    rw [hreply, afterEval_stored hv (hl.stored _ e he).2.1] at hphase'
    refine returns_of_opening hp' hphase' fun now => ?_
    rw [hr]
    exact cfg.decrypt_request r.sessionId secret prepared now

end Scripts

/-! ## Every run -/

theorem Ledger.born (hl : s.Ledger cfg) {e : Entry (Session ε)}
    (he : s.keys.sessions sid = some e) : s.Born sid := by
  refine ⟨(hl.stored sid e he).1, ?_⟩
  rintro pid p hp session seconds hphase rfl
  cases (((hl.knows pid p hp).fresh session seconds hphase).1).symm.trans he

theorem gone_of_stored {ms ms' : List (Move ε)} {t t' : Store ε} (hl : s.Ledger cfg)
    {e : Entry (Session ε)} (he : s.keys.sessions sid = some e)
    (hrun : (store cfg).runFrom s ms = some t) (hnone : t.keys.sessions sid = none)
    (hrun' : (store cfg).runFrom t ms' = some t') : t'.keys.sessions sid = none := by
  have hborn : t.Born sid := (ledger_invariant cfg).keep
    (fun _ _ _ _ hb hm => (step_change hm).moved.born hb) hl (hl.born he) hrun
  have hgone : t'.Gone sid := (ledger_invariant cfg).keep
    (fun _ _ _ _ hg hm => (step_change hm).moved.gone hg) ((ledger_invariant cfg).runFrom hl hrun)
    ⟨hborn, hnone⟩ hrun'
  exact hgone.none

/-- What holds for the refreshes of every session, in a state of the store. -/
structure Contract (cfg : Issuer ε) (s : Store ε) : Prop where
  /-- Two rotations of a session are at least 5000 ms apart. -/
  apart : s.rotations.Pairwise Apart
  /-- The current secret is the one that the last rotation has issued, the previous one that which
  it was asked for with. -/
  secrets : ∀ sid e time winner, s.keys.sessions sid = some e → s.Won sid time winner →
    e.value.refreshTokenHash = cfg.hash winner.nextSecret ∧
      e.value.previousRefreshTokenHash = cfg.hash winner.secret
  script : ∀ pid p q r seconds user m s', s.calls pid = some p →
    p.phase = .rotateEval q r seconds user → Runs m pid → s.step cfg m = some s' →
    ∃ request, q = some request ∧ Script cfg s s' r.sessionId request
  answer : ∀ pid p q r seconds user ids more, s.calls pid = some p →
    p.phase = .rotateEval (some q) r seconds user →
    ∃ s', s.step cfg (.exec pid ids more) = some s' ∧ Answer cfg s s' pid r.sessionId q
  /-- Nothing but the script of a refresh rotates. -/
  rotations : ∀ m s', s.step cfg m = some s' → s'.rotations ≠ s.rotations →
    ∃ pid p q r seconds user, Runs m pid ∧ s.calls pid = some p ∧
      p.phase = .rotateEval (some q) r seconds user
  /-- A session that was there and is deleted or expired does not come back. -/
  gone : ∀ sid e ms t ms' t', s.keys.sessions sid = some e → (store cfg).runFrom s ms = some t →
    t.keys.sessions sid = none → (store cfg).runFrom t ms' = some t' → t'.keys.sessions sid = none

theorem rotation?_eq_some (h : rotation? k p = some rot) :
    ∃ q r seconds user, p = .rotateEval q r seconds user := by
  cases p with
  | rotateEval q r seconds user => exact ⟨q, r, seconds, user, rfl⟩
  | _ => cases h

theorem Genuine.runs (h : s.Genuine cfg) (hm : s.step cfg m = some s')
    (hne : s'.rotations ≠ s.rotations) :
    ∃ pid p q r seconds user, Runs m pid ∧ s.calls pid = some p ∧
      p.phase = .rotateEval (some q) r seconds user := by
  have hrotates : ∀ {pid p}, s.calls pid = some p →
      (rotation? s.keys p.phase).toList ++ s.rotations ≠ s.rotations →
      ∃ q r seconds user, p.phase = .rotateEval (some q) r seconds user := by
    intro pid p hp hne
    cases hrot : rotation? s.keys p.phase with
    | none => simp [hrot] at hne
    | some =>
      obtain ⟨q, r, seconds, user, hphase⟩ := rotation?_eq_some hrot
      obtain ⟨_, prepared, rfl, -⟩ := h.flight pid p q r hp (hphase ▸ rfl)
      exact ⟨_, r, seconds, user, hphase⟩
  cases step_change hm with
  | sent pid p c ids more _ _ hp =>
    obtain ⟨q, r, seconds, user, hphase⟩ := hrotates hp hne
    exact ⟨pid, p, q, r, seconds, user, ⟨ids, more, .inl rfl⟩, hp, hphase⟩
  | lost pid p c ids more _ _ hp =>
    obtain ⟨q, r, seconds, user, hphase⟩ := hrotates hp hne
    exact ⟨pid, p, q, r, seconds, user, ⟨ids, more, .inr rfl⟩, hp, hphase⟩
  | _ => exact absurd rfl hne

/-- In every run in which sessions are issued, refreshed, revoked and expire. -/
theorem refresh_contract {ms : List (Move ε)}
    (h : (store cfg).Along (fun _ m _ => m.Offered) init ms s) : Contract cfg s := by
  have hl := (ledger_invariant cfg).run h.runFrom
  have hg : s.Genuine cfg := h.keeps (ledger_invariant cfg)
    (fun _ _ _ hl hg hm hoffered => hg.step hl hm hoffered) ledger_init genuine_init
  refine
    { apart := hg.apart
      secrets := fun sid e time winner he hwon =>
        ⟨(hg.secrets he hwon).1, (hg.secrets he hwon).2.1⟩
      script := ?_
      answer := ?_
      rotations := fun m s' hm hne => hg.runs hm hne
      gone := fun sid e ms t ms' t' he hr hnone hr' => gone_of_stored hl he hr hnone hr' }
  · intro pid p q r seconds user m s' hp hphase hruns hm
    obtain ⟨_, _, rfl, -⟩ := hg.flight pid p q r hp (hphase ▸ rfl)
    exact ⟨_, rfl, hg.script hp hphase hm hruns⟩
  · intro pid p q r seconds user ids more hp hphase
    have hc : p.phase.cmd = some (.eval r seconds) := hphase ▸ rfl
    obtain ⟨s', hm⟩ : ∃ s', s.step cfg (.exec pid ids more) = some s' :=
      ⟨_, by simp only [step, effect, hp, hc, Option.bind_eq_bind, Option.bind_some]; rfl⟩
    exact ⟨s', hm, hg.answer hl hp hphase hm⟩

def demoRefresh (pid : ℕ) (next : String) (now finish : ℕ) :
    List (Move (String × RefreshResult)) :=
  [.spawn (.refresh "a.s"), .exec pid [] false,
    .prepare pid (.ok { accessToken := "t", signed := by decide, nextSecret := next, nonce := "n", now }),
    .exec pid [] false, .exec pid [] false, .exec pid [] false, .exec pid [] false,
    .finish pid finish]

def refreshed (s : Store ε) (pid : ℕ) : Option (Except Err Credentials) :=
  (s.calls pid).bind fun p =>
    match p.phase with
    | .returned (.refreshed r) => some r
    | _ => none

def demoReplay (finish : ℕ) : List (Move (String × RefreshResult)) :=
  demoCreate 0 "a" ++ demoRefresh 1 "x" Job.second Job.second ++ [.tick 4500] ++
    demoRefresh 2 "y" (2 * Job.second) finish

theorem demo_refresh_contract :
    ∃ s, (store demoIssuer).run (demoReplay (2 * Job.second)) = some s ∧ Contract demoIssuer s ∧
      s.refreshed 1 = some (.ok ⟨"t", "a.x", 5⟩) ∧ s.refreshed 2 = some (.ok ⟨"t", "a.x", 4⟩) := by
  obtain ⟨s, hrun, hs⟩ : ∃ s ∈ (store demoIssuer).run (demoReplay (2 * Job.second)),
      s.refreshed 1 = some (.ok ⟨"t", "a.x", 5⟩) ∧ s.refreshed 2 = some (.ok ⟨"t", "a.x", 4⟩) := by
    decide +kernel
  have hissued : (demoSession "a").Issued := ⟨rfl, rfl, rfl⟩
  have hoffered : ∀ m ∈ demoReplay (2 * Job.second), m.Offered := by
    simp [demoReplay, demoCreate, demoRefresh, Move.Offered, hissued]
  exact ⟨s, hrun, refresh_contract (.of_runFrom hrun hoffered fun _ _ _ h => h), hs⟩

/-- Two refreshes come to the script of a session that a process with a later clock has created. -/
def demoSkewed : List (Move (String × RefreshResult)) :=
  [.spawn (.create { demoSession "a" with
      createdAt := 100 * Job.second, expiresAt := 160 * Job.second } (60 * Job.second)),
    .exec 0 [] false, .exec 0 [] false, .exec 0 [] false] ++
  (demoRefresh 1 "x" Job.second Job.second).take 6 ++
  (demoRefresh 2 "y" Job.second Job.second).take 6 ++ [.exec 1 [] false, .exec 2 [] false]

/-- Within 5000 ms a refresh with the previous secret can fail: the access token has no whole second
left, or the rotated session ends before it was created. -/
theorem replay_expired :
    (∃ s, (store demoIssuer).run (demoReplay (5 * Job.second + 500000000)) = some s ∧
      s.refreshed 1 = some (.ok ⟨"t", "a.x", 5⟩) ∧
      s.refreshed 2 = some (.error (.message "refresh result is invalid or expired"))) ∧
    ∃ s, (store demoIssuer).run demoSkewed = some s ∧ s.rotations.length = 1 ∧
      (s.keys.sessions "a").any (fun e => !validateSession e.value) = true ∧
      s.refreshed 2 = some (.error (.message "invalid rotated session")) := by
  constructor
  · decide +kernel
  · decide +kernel

end Store

end Dogx.Authn
