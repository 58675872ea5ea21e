import Dogx.Machine.Run
import Dogx.Redis.Keys

/-!
# The lock of an account

One hash counts the failed logins of an account and becomes its lock. Its time to live is set by the
first failure and by the transition to the lock. Every script of the store is one step.
-/

namespace Dogx.LoginProtection

structure LoginSecurityConfig where
  rateLimitWindowSeconds : ℕ
  rateLimitMaxRequests : ℕ
  failureWindowSeconds : ℕ
  failureThreshold : ℕ
  lockDurationSeconds : ℕ

def validate (cfg : LoginSecurityConfig) : Bool :=
  1 ≤ cfg.rateLimitWindowSeconds ∧ cfg.rateLimitWindowSeconds ≤ 3600 ∧
    1 ≤ cfg.rateLimitMaxRequests ∧ cfg.rateLimitMaxRequests ≤ 10000 ∧
    60 ≤ cfg.failureWindowSeconds ∧ cfg.failureWindowSeconds ≤ 86400 ∧
    1 ≤ cfg.failureThreshold ∧ cfg.failureThreshold ≤ 100 ∧
    60 ≤ cfg.lockDurationSeconds ∧ cfg.lockDurationSeconds ≤ 86400

structure Failures where
  count : ℕ
  locked : Bool

/-- The failure key of one account, and the clock of Redis in milliseconds. -/
structure Lock where
  now : ℕ
  key : Option (Redis.Entry Failures)

namespace Lock

/-- `RedisFailureStore.Locked`. -/
def locked (s : Lock) : Bool := s.key.any (·.value.locked)

def count (s : Lock) : ℕ := (s.key.map (·.value.count)).getD 0

/-- `failScript`. -/
def fail (cfg : LoginSecurityConfig) (s : Lock) : Lock :=
  if s.locked then s
  else
    let count := s.count + 1
    let deadline :=
      if count = 1 then some (s.now + 1000 * cfg.failureWindowSeconds) else s.key.bind (·.deadline)
    { s with
      key := some (if cfg.failureThreshold ≤ count then
          ⟨⟨count, true⟩, some (s.now + 1000 * cfg.lockDurationSeconds)⟩
        else ⟨⟨count, false⟩, deadline⟩) }

/-- `clearScript`. -/
def clear (s : Lock) : Lock := if s.locked then s else { s with key := none }

inductive Move where
  /-- Time passes, and takes an expired key away. -/
  | wait (d : ℕ)
  | fail (cfg : LoginSecurityConfig)
  | clear
  | locked

def Move.isFail : Move → Bool
  | fail _ => true
  | _ => false

def store : Machine Lock Move where
  init := ⟨0, none⟩
  step s
    | .wait d => some ⟨s.now + d, s.key.filter fun e => e.deadline.all fun t => s.now + d ≤ t⟩
    | .fail cfg => if validate cfg then some (s.fail cfg) else none
    | .clear => some s.clear
    | .locked => some s

variable {s s' u : Lock} {m : Move} {ms : List Move} {cfg : LoginSecurityConfig} {n T : ℕ}

/-! ## One call -/

/-- The key counts at least one failure, and it expires. -/
def Live (s : Lock) : Prop := ∀ e, s.key = some e → 0 < e.value.count ∧ ∃ T, e.deadline = some T

/-- The three outcomes of a failed login. -/
theorem fail_cases (h : s.Live) (cfg : LoginSecurityConfig) :
    (s.locked = true ∧ s.fail cfg = s) ∨ s.locked = false ∧
      (cfg.failureThreshold ≤ s.count + 1 ∧ s.fail cfg =
          ⟨s.now, some ⟨⟨s.count + 1, true⟩, some (s.now + 1000 * cfg.lockDurationSeconds)⟩⟩ ∨
        s.count + 1 < cfg.failureThreshold ∧ ∃ T,
          s.fail cfg = ⟨s.now, some ⟨⟨s.count + 1, false⟩, some T⟩⟩ ∧
          (s.key = none → T = s.now + 1000 * cfg.failureWindowSeconds) ∧
          ∀ e, s.key = some e → e.deadline = some T) := by
  cases hl : s.locked with
  | true => exact .inl ⟨rfl, if_pos hl⟩
  | false =>
    refine .inr ⟨rfl, ?_⟩
    rw [fail, if_neg (Bool.not_eq_true _ ▸ hl)]
    dsimp only
    by_cases hle : cfg.failureThreshold ≤ s.count + 1
    · exact .inl ⟨hle, by rw [if_pos hle]⟩
    · refine .inr ⟨Nat.lt_of_not_le hle, ?_⟩
      rw [if_neg hle]
      cases hk : s.key with
      | none => exact ⟨_, by simp [count, hk], fun _ => rfl, nofun⟩
      | some e =>
        obtain ⟨hpos, T, hT⟩ := h e hk
        have hcount : s.count ≠ 0 := by simpa [count, hk] using Nat.pos_iff_ne_zero.mp hpos
        exact ⟨T, by simp [hcount, hT], nofun, by rintro _ ⟨⟩; exact hT⟩

/-- In every run, each stored counter has time left to live. -/
theorem live : store.Invariant Live := by
  refine ⟨nofun, fun s m s' h hm => ?_⟩
  cases m with
  | wait =>
    cases hm
    exact fun e he => h e (Option.filter_eq_some_iff.mp he).1
  | fail cfg =>
    obtain ⟨-, ⟨⟩⟩ := Option.ite_none_right_eq_some.mp hm
    rcases fail_cases h cfg with ⟨-, heq⟩ | ⟨-, ⟨-, heq⟩ | ⟨-, T, heq, -⟩⟩ <;> rw [heq]
    · exact h
    · rintro _ ⟨⟩
      exact ⟨Nat.succ_pos _, _, rfl⟩
    · rintro _ ⟨⟩
      exact ⟨Nat.succ_pos _, _, rfl⟩
  | clear =>
    cases hm
    unfold clear
    split
    · exact h
    · nofun
  | locked =>
    cases hm
    exact h

theorem now_le (hm : store.step s m = some s') : s.now ≤ s'.now := by
  cases m with
  | wait =>
    cases hm
    exact Nat.le_add_right _ _
  | fail =>
    obtain ⟨-, ⟨⟩⟩ := Option.ite_none_right_eq_some.mp hm
    unfold fail
    split <;> exact Nat.le_refl _
  | clear =>
    cases hm
    unfold clear
    split <;> exact Nat.le_refl _
  | locked =>
    cases hm
    exact Nat.le_refl _

theorem now_le_run (h : store.runFrom s ms = some u) : s.now ≤ u.now := by
  induction ms generalizing s with
  | nil => cases h; exact Nat.le_refl _
  | cons m _ ih =>
    obtain ⟨t, hm, h⟩ := Machine.runFrom_cons.mp h
    exact Nat.le_trans (now_le hm) (ih h)

/-! ## Whole runs -/

theorem wait_key {e : Redis.Entry Failures} {d : ℕ} (hk : s.key = some e) (hT : e.deadline = some T)
    (h : s.now + d ≤ T) :
    (s.key.filter fun e => e.deadline.all fun t => s.now + d ≤ t) = some e := by
  simp [hk, hT, h]

/-- A lock stays until its time is over. -/
theorem locked_stays (h : store.runFrom s ms = some u) (hk : s.key = some ⟨⟨n, true⟩, some T⟩)
    (hT : u.now ≤ T) : u.key = some ⟨⟨n, true⟩, some T⟩ := by
  induction ms generalizing s with
  | nil => cases h; exact hk
  | cons m _ ih =>
    obtain ⟨t, hm, h⟩ := Machine.runFrom_cons.mp h
    have hlocked : s.locked = true := by simp [locked, hk]
    refine ih h ?_
    cases m with
    | wait =>
      cases hm
      exact wait_key hk rfl (Nat.le_trans (now_le_run h) hT)
    | fail =>
      obtain ⟨-, ⟨⟩⟩ := Option.ite_none_right_eq_some.mp hm
      rwa [fail, if_pos hlocked]
    | clear =>
      cases hm
      rwa [clear, if_pos hlocked]
    | locked =>
      cases hm
      exact hk

/-- A `Fail` that finds the account unlocked and leaves it locked. -/
def Installs (s : Lock) (m : Move) (s' : Lock) : Prop :=
  m.isFail = true ∧ s.locked = false ∧ s'.locked = true

/-- Failures within the window are counted, or install a lock. -/
theorem counted (h : store.runFrom s ms = some u) (hlive : s.Live)
    (hk : s.key = some ⟨⟨n, false⟩, some T⟩) (hT : u.now ≤ T) (hclear : Move.clear ∉ ms) :
    (∃ t m t', store.StepIn s ms u t m t' ∧ Installs t m t') ∨
      u.key = some ⟨⟨n + ms.countP Move.isFail, false⟩, some T⟩ := by
  induction ms generalizing s n with
  | nil => cases h; exact .inr hk
  | cons m ms ih =>
    obtain ⟨t, hm, h⟩ := Machine.runFrom_cons.mp h
    obtain ⟨hne, hclear⟩ := not_or.mp (mt List.mem_cons.mpr hclear)
    have hlive' := live.step hlive hm
    have hgo {k : ℕ} (hk : t.key = some ⟨⟨k, false⟩, some T⟩) :=
      (ih h hlive' hk hclear).imp_left fun ⟨t, m, t', hin, hdone⟩ =>
        (⟨t, m, t', hin.cons hm, hdone⟩ : ∃ t m t', store.StepIn s _ u t m t' ∧ Installs t m t')
    cases m with
    | wait =>
      cases hm
      simpa [Move.isFail] using hgo (wait_key hk rfl (Nat.le_trans (now_le_run h) hT))
    | fail cfg =>
      have hfail := hm
      obtain ⟨-, ⟨⟩⟩ := Option.ite_none_right_eq_some.mp hm
      have hcount : s.count = n := by simp [count, hk]
      rcases fail_cases hlive cfg with ⟨hl, -⟩ | ⟨hl, ⟨-, heq⟩ | ⟨-, T', heq, -, hdead⟩⟩
      · simp [locked, hk] at hl
      · refine .inl ⟨s, _, s.fail cfg, ⟨⟨[], ms, rfl, rfl, h⟩, hfail⟩, rfl, hl, ?_⟩
        rw [heq]
        rfl
      · have hT' : T = T' := by simpa using hdead _ hk
        rw [List.countP_cons_of_pos rfl, Nat.add_comm _ 1, ← Nat.add_assoc]
        exact hgo (by rw [heq, hcount, hT'])
    | clear => exact absurd rfl hne
    | locked =>
      cases hm
      simpa [Move.isFail] using hgo hk

theorem lt_threshold (hlive : s.Live) (hm : store.step s (.fail cfg) = some u)
    (hk : u.key = some ⟨⟨n, false⟩, some T⟩) : n < cfg.failureThreshold := by
  obtain ⟨-, ⟨⟩⟩ := Option.ite_none_right_eq_some.mp hm
  rcases fail_cases hlive cfg with ⟨hl, heq⟩ | ⟨-, ⟨-, heq⟩ | ⟨hlt, T', heq, -⟩⟩ <;> rw [heq] at hk
  · simp [locked, hk] at hl
  · cases hk
  · cases hk
    exact hlt

/-- The key of an account always expires. A lock that is installed at some time holds until the end of
its duration, unchanged. Of the failures of a window without a `Clear`, the one that reaches its
threshold finds a lock installed, or installs it. -/
theorem lock_protects (h : store.run ms = some s) :
    (∀ e, s.key = some e → ∃ T, e.deadline = some T) ∧
      (∀ cfg s' ms' u, store.step s (.fail cfg) = some s' → Installs s (.fail cfg) s' →
        store.runFrom s' ms' = some u → u.now < s.now + 1000 * cfg.lockDurationSeconds →
        u.locked = true ∧ u.key = s'.key ∧
          ∀ e, u.key = some e → e.deadline = some (s.now + 1000 * cfg.lockDurationSeconds)) ∧
      ∀ first last ms' u, s.key = none → store.runFrom s (.fail first :: ms') = some u →
        (.fail first :: ms').getLast? = some (.fail last) → Move.clear ∉ ms' →
        u.now < s.now + 1000 * first.failureWindowSeconds →
        last.failureThreshold ≤ (Move.fail first :: ms').countP Move.isFail →
        ∃ t m t', store.StepIn s (.fail first :: ms') u t m t' ∧ Installs t m t' := by
  have hlive := live.run h
  refine ⟨fun e he => (hlive e he).2, fun cfg s' ms' u hm hinst hrun hlt => ?_,
    fun first last ms' u hnone hrun hlast hclear hlt hle => ?_⟩
  · obtain ⟨-, ⟨⟩⟩ := Option.ite_none_right_eq_some.mp hm
    rcases fail_cases hlive cfg with ⟨hl, -⟩ | ⟨-, ⟨-, heq⟩ | ⟨-, T, heq, -⟩⟩
    · exact nomatch hl.symm.trans hinst.2.1
    · have hkey := locked_stays hrun (congrArg Lock.key heq) (Nat.le_of_lt hlt)
      refine ⟨by simp [locked, hkey], hkey.trans (congrArg Lock.key heq).symm, ?_⟩
      rw [hkey]
      rintro _ ⟨⟩
      rfl
    · exact absurd hinst.2.2 (by rw [heq]; nofun)
  · by_contra hno
    obtain ⟨t, hm, hrest⟩ := Machine.runFrom_cons.mp hrun
    have hkey : ∃ T, u.key = some ⟨⟨(Move.fail first :: ms').countP Move.isFail, false⟩, some T⟩ := by
      have hfirst := hm
      obtain ⟨-, ⟨⟩⟩ := Option.ite_none_right_eq_some.mp hm
      rcases fail_cases hlive first with ⟨hl, -⟩ | ⟨hl, ⟨-, heq⟩ | ⟨-, T, heq, hT, -⟩⟩
      · simp [locked, hnone] at hl
      · exact absurd ⟨s, _, _, ⟨⟨[], ms', rfl, rfl, hrest⟩, hfirst⟩, rfl, hl, heq ▸ rfl⟩ hno
      · have hone : (s.fail first).key = some ⟨⟨1, false⟩, some T⟩ := by simp [heq, count, hnone]
        rcases counted hrest (live.step hlive hfirst) hone (hT hnone ▸ Nat.le_of_lt hlt) hclear with
          ⟨t, m, t', hin, hdone⟩ | hk
        · exact absurd ⟨t, m, t', hin.cons hfirst, hdone⟩ hno
        · exact ⟨T, by rw [hk, List.countP_cons_of_pos rfl, Nat.add_comm]⟩
    obtain ⟨T, hk⟩ := hkey
    obtain ⟨_, heq⟩ := List.getLast?_eq_some_iff.mp hlast
    rw [heq] at hrun
    obtain ⟨_, hbefore, hend⟩ := Machine.runFrom_append.mp hrun
    obtain ⟨_, hm', ⟨⟩⟩ := Machine.runFrom_cons.mp hend
    have := lt_threshold (live.runFrom hlive hbefore) hm' hk
    omega

theorem lock_protects_twice : ∃ cfg u, cfg.failureThreshold = 2 ∧
    ∃ t m t', store.StepIn store.init [.fail cfg, .fail cfg] u t m t' ∧ Installs t m t' := by
  have hrun := (lock_protects (show store.run [] = some store.init from rfl)).2.2
    ⟨1, 1, 60, 2, 60⟩ ⟨1, 1, 60, 2, 60⟩
    [.fail ⟨1, 1, 60, 2, 60⟩] ⟨0, some ⟨⟨2, true⟩, some 60000⟩⟩ rfl (by rfl) rfl (by simp)
    (by decide) (by decide)
  exact ⟨⟨1, 1, 60, 2, 60⟩, _, rfl, hrun⟩

/-! ## Where a lock comes from -/

/-- The moves end with a window that is open until `T`: it began with a failure without a key, and
`n` failures and no `Clear` are in it. -/
def Window (ms : List Move) (n T : ℕ) : Prop :=
  ∃ before first after b, ms = before ++ .fail first :: after ∧ store.run before = some b ∧
    b.key = none ∧ Move.clear ∉ after ∧ n = (Move.fail first :: after).countP Move.isFail ∧
    T = b.now + 1000 * first.failureWindowSeconds

theorem Window.first (h : store.run ms = some s) (hk : s.key = none) (cfg : LoginSecurityConfig) :
    Window (ms ++ [.fail cfg]) 1 (s.now + 1000 * cfg.failureWindowSeconds) :=
  ⟨ms, cfg, [], s, rfl, h, hk, by simp, rfl, rfl⟩

theorem Window.snoc (h : Window ms n T) (hm : m ≠ .clear) :
    Window (ms ++ [m]) (n + [m].countP Move.isFail) T := by
  obtain ⟨before, first, after, b, rfl, hb, hk, hclear, rfl, hT⟩ := h
  refine ⟨before, first, after ++ [m], b, by simp, hb, hk, ?_, ?_, hT⟩
  · simpa [hclear] using hm.symm
  · rw [← List.cons_append, List.countP_append]

/-- The failures that an unlocked key counts are those of its window. -/
theorem window_of_key (h : store.run ms = some s) (hk : s.key = some ⟨⟨n, false⟩, some T⟩) :
    s.now ≤ T ∧ Window ms n T := by
  induction ms using List.reverseRecOn generalizing s n with
  | nil =>
    cases h
    cases hk
  | append_singleton ms m ih =>
    obtain ⟨t, ht, hm⟩ := Machine.run_append.mp h
    obtain ⟨_, hm, ⟨⟩⟩ := Machine.runFrom_cons.mp hm
    cases m with
    | wait d =>
      cases hm
      obtain ⟨htk, hle⟩ := Option.filter_eq_some_iff.mp hk
      exact ⟨by simpa using hle, (ih ht htk).2.snoc nofun⟩
    | fail cfg =>
      obtain ⟨-, ⟨⟩⟩ := Option.ite_none_right_eq_some.mp hm
      rcases fail_cases (live.run ht) cfg with ⟨hl, heq⟩ | ⟨hl, ⟨-, heq⟩ | ⟨-, T', heq, hnew, hold⟩⟩ <;>
        rw [heq] at hk ⊢
      · simp [locked, hk] at hl
      · cases hk
      · cases hk
        cases htk : t.key with
        | none =>
          obtain rfl := hnew htk
          exact ⟨Nat.le_add_right _ _, by simpa [count, htk] using Window.first ht htk cfg⟩
        | some e =>
          obtain ⟨⟨k, locked⟩, deadline⟩ := e
          obtain rfl : locked = false := by simpa [Lock.locked, htk] using hl
          obtain rfl : deadline = some T := hold _ htk
          obtain ⟨hT, hw⟩ := ih ht htk
          exact ⟨hT, by simpa [count, htk, Move.isFail] using hw.snoc (m := .fail cfg) nofun⟩
    | clear =>
      cases hm
      unfold clear at hk
      split at hk
      next hl => simp [locked, hk] at hl
      next => cases hk
    | locked =>
      cases hm
      obtain ⟨hT, hw⟩ := ih ht hk
      exact ⟨hT, hw.snoc nofun⟩

/-- A failure installs a lock only as the last one of a window that has reached its threshold. -/
theorem lock_earned (ms : List Move) (s s' : Lock) (cfg : LoginSecurityConfig)
    (h : store.run ms = some s) (hm : store.step s (.fail cfg) = some s')
    (hlock : Installs s (.fail cfg) s') :
    ∃ n T, Window (ms ++ [.fail cfg]) n T ∧ s.now ≤ T ∧ cfg.failureThreshold ≤ n := by
  obtain ⟨-, ⟨⟩⟩ := Option.ite_none_right_eq_some.mp hm
  rcases fail_cases (live.run h) cfg with ⟨hl, -⟩ | ⟨-, ⟨hle, -⟩ | ⟨-, T, heq, -⟩⟩
  · cases hl.symm.trans hlock.2.1
  · cases hk : s.key with
    | none =>
      refine ⟨_, _, .first h hk cfg, Nat.le_add_right _ _, ?_⟩
      simpa [count, hk] using hle
    | some e =>
      obtain ⟨⟨k, locked⟩, _⟩ := e
      obtain rfl : locked = false := by simpa [Lock.locked, hk] using hlock.2.1
      obtain ⟨-, T, rfl⟩ := live.run h _ hk
      obtain ⟨hT, hw⟩ := window_of_key h hk
      refine ⟨_, T, hw.snoc nofun, hT, ?_⟩
      simpa [count, hk, Move.isFail] using hle
  · exact absurd hlock.2.2 (by rw [heq]; nofun)

theorem lock_earned_twice : ∃ cfg n T, cfg.failureThreshold = 2 ∧
    Window [.fail cfg, .fail cfg] n T ∧ 2 ≤ n := by
  obtain ⟨n, T, hw, -, hn⟩ := lock_earned [.fail ⟨1, 1, 60, 2, 60⟩] _ _ ⟨1, 1, 60, 2, 60⟩ rfl rfl
    ⟨rfl, rfl, rfl⟩
  exact ⟨_, n, T, rfl, hw, hn⟩

end Lock

end Dogx.LoginProtection
