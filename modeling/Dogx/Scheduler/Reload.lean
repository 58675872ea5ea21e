import Dogx.Machine.Run

/-!
# Reloading the rules

A leader term watches the etcd key that is written after each change of the configuration. `watchLoop`
watches the key from the next revision on and asks for a reload; each event asks for another one.
`configLoop` takes the requests from a channel of capacity one and loads the whole configuration.

The store counts its writes. The stream of a watch delivers the changes from the requested revision on,
in order, until it ends, and what it has delivered may still be received afterwards.
-/

namespace Dogx.Scheduler

/-! ## The watch and the configuration loop -/

/-- The stream of one watch. -/
structure Stream where
  /-- The revision that was asked for. -/
  start : ℕ
  /-- The number of events received so far. -/
  seen : ℕ
  ended : Bool
  deriving DecidableEq

/-- The changes the stream has to deliver and has not delivered yet. -/
def Stream.pending (st : Stream) (changes : List ℕ) : List ℕ :=
  (changes.filter fun v => st.start ≤ v).drop st.seen

inductive Watch
  | reading
  /-- The store has answered the call. -/
  | read (revision : ℕ)
  /-- `watch` has returned, and `signalReload` comes next. -/
  | created (st : Stream)
  | streaming (st : Stream)
  /-- A response with events, for which `signalReload` has not been called. -/
  | received (st : Stream) (events : List ℕ)
  /-- The watch has been stopped or has failed, until the end of the backoff. -/
  | rebuilding
  | exited
  deriving DecidableEq

inductive Config
  | waiting
  | taken
  | loading
  | applying
  | exited
  deriving DecidableEq

structure Reload where
  revision : ℕ
  /-- The revisions of the writes to the key during the term. -/
  changes : List ℕ
  canceled : Bool
  /-- `runTerm` has asked for the first load. -/
  signaled : Bool
  token : Bool
  watch : Watch
  attempt : ℕ
  config : Config
  /-- For each call of `LoadRules`, the revision of the store when it started. -/
  loads : List ℕ
  deriving DecidableEq

inductive ReloadMove
  | put | other
  | cancel
  /-- The calls of `signalReload` in `runTerm` and in `configTicker`. -/
  | start | tick
  -- `watchLoop`
  | answer | revisionFails | watch | afterWatch | respond (events : ℕ) | afterEvents
  | lose | rebuild | backoff | exitWatch
  -- `configLoop`
  | take | load | loaded (ok : Bool) | applied | exitConfig
  deriving DecidableEq

namespace Reload

def init (r : ℕ) : Reload where
  revision := r
  changes := []
  canceled := false
  signaled := false
  token := false
  watch := .reading
  attempt := 0
  config := .waiting
  loads := []

def signalReload (s : Reload) : Reload :=
  if s.canceled then s else { s with token := true }

def step (s : Reload) : ReloadMove → Option Reload
  | .put => some { s with revision := s.revision + 1, changes := s.changes ++ [s.revision + 1] }
  | .other => some { s with revision := s.revision + 1 }
  | .cancel => some { s with canceled := true }
  | .start => if s.signaled then none else some { s with signaled := true }.signalReload
  | .tick => some s.signalReload
  | .answer => match s.watch with
    | .reading => some { s with watch := .read s.revision }
    | _ => none
  | .revisionFails => match s.watch with
    | .reading | .read _ => some { s with watch := .rebuilding }
    | _ => none
  | .watch => match s.watch with
    | .read revision =>
      some { s with watch := .created { start := revision + 1, seen := 0, ended := false } }
    | _ => none
  | .afterWatch => match s.watch with
    | .created st => some { s with watch := .streaming st }.signalReload
    | _ => none
  | .respond k => match s.watch with
    | .streaming st =>
      if k = 0 then some s
      else if k ≤ (st.pending s.changes).length then
        some { s with
          watch := .received { st with seen := st.seen + k } ((st.pending s.changes).take k)
          attempt := 0 }
      else none
    | _ => none
  | .afterEvents => match s.watch with
    | .received st _ => some { s with watch := .streaming st }.signalReload
    | _ => none
  | .lose => match s.watch with
    | .created st => some { s with watch := .created { st with ended := true } }
    | .streaming st => some { s with watch := .streaming { st with ended := true } }
    | .received st events => some { s with watch := .received { st with ended := true } events }
    | _ => none
  | .rebuild => match s.watch with
    | .streaming st => if st.ended then some { s with watch := .rebuilding } else none
    | _ => none
  | .backoff => match s.watch with
    | .rebuilding =>
      if s.canceled then none else some { s with watch := .reading, attempt := s.attempt + 1 }
    | _ => none
  | .exitWatch => match s.watch with
    | .reading | .streaming _ | .rebuilding =>
      if s.canceled then some { s with watch := .exited } else none
    | _ => none
  | .take =>
    if s.config = .waiting ∧ s.token = true then some { s with config := .taken, token := false }
    else none
  | .load =>
    if s.config = .taken ∧ s.canceled = false then
      some { s with config := .loading, loads := s.loads ++ [s.revision] }
    else none
  | .loaded ok =>
    if s.config = .loading then
      some { s with config := if s.canceled then .exited else if ok then .applying else .waiting }
    else none
  | .applied => if s.config = .applying then some { s with config := .waiting } else none
  | .exitConfig =>
    if (s.config = .waiting ∨ s.config = .taken) ∧ s.canceled = true then
      some { s with config := .exited }
    else none

end Reload

/-- The loops of a term that begins at revision `r` of the store. -/
def reloading (r : ℕ) : Machine Reload ReloadMove where
  init := .init r
  step := Reload.step

/-! ## Where a change is -/

namespace Watch

/-- The current stream, once the reload that follows its creation has been asked for. -/
def stream : Watch → Option Stream
  | .streaming st | .received st _ => some st
  | _ => none

def events : Watch → List ℕ
  | .received _ events => events
  | _ => []

/-- The loop has yet to call `signalReload` after a creation of a watch, of this one or, when there is no
stream any more, of the next one. -/
def rebuilds : Watch → Bool
  | .reading | .read _ | .created _ | .rebuilding => true
  | .streaming st | .received st _ => st.ended
  | .exited => false

def Awaits (w : Watch) (changes : List ℕ) (v : ℕ) : Prop :=
  (∃ st, w.stream = some st ∧ st.ended = false ∧ v ∈ st.pending changes) ∨
    v ∈ w.events ∨ w.rebuilds = true

end Watch

namespace Reload

variable {s s' : Reload} {v : ℕ}

def Asked (s : Reload) (v : ℕ) : Prop :=
  (∃ r ∈ s.loads, v ≤ r) ∨ s.token = true ∨ s.config = .taken

def Covered (s : Reload) (v : ℕ) : Prop :=
  Asked s v ∨ s.watch.Awaits s.changes v

end Reload

def Watch.Follows (revision : ℕ) (changes : List ℕ) : Watch → Prop
  | .read r => r ≤ revision
  | .created st | .streaming st | .received st _ =>
    st.start ≤ revision + 1 ∧ st.seen ≤ (changes.filter fun v => st.start ≤ v).length
  | .reading | .rebuilding | .exited => True

/-! ## What one step preserves -/

section Stream

variable {st : Stream} {changes : List ℕ} {v x k : ℕ}

theorem Stream.pending_concat (hstart : st.start ≤ x)
    (hseen : st.seen ≤ (changes.filter fun v => st.start ≤ v).length) :
    st.pending (changes ++ [x]) = st.pending changes ++ [x] := by
  have hnew : [x].filter (fun v => decide (st.start ≤ v)) = [x] :=
    List.filter_cons_of_pos (decide_eq_true hstart)
  rw [pending, List.filter_append, hnew, List.drop_append_of_le_length hseen]
  rfl

theorem Stream.mem_pending (hv : v ∈ st.pending changes) :
    v ∈ (st.pending changes).take k ∨ v ∈ { st with seen := st.seen + k }.pending changes := by
  rw [← List.take_append_drop k (st.pending changes), List.mem_append] at hv
  rwa [pending, List.drop_drop] at hv

theorem Watch.Follows.write {w : Watch} {r : ℕ} (h : w.Follows r changes) (written : List ℕ) :
    w.Follows (r + 1) (changes ++ written) := by
  have hlength : ∀ st : Stream, (changes.filter fun v => st.start ≤ v).length ≤
      ((changes ++ written).filter fun v => st.start ≤ v).length := fun st => by
    rw [List.filter_append, List.length_append]
    exact Nat.le_add_right _ _
  cases w with
  | read => exact Nat.le_succ_of_le h
  | created st | streaming st | received st events =>
    exact ⟨Nat.le_succ_of_le h.1, Nat.le_trans h.2 (hlength st)⟩
  | _ => trivial

namespace Watch

variable {w : Watch} {r : ℕ}

theorem Follows.awaits_concat (h : w.Follows r changes) (hawaits : w.Awaits changes v) :
    w.Awaits (changes ++ [r + 1]) v := by
  refine hawaits.imp_left ?_
  rintro ⟨st, hst, hended, hv⟩
  refine ⟨st, hst, hended, ?_⟩
  cases w <;> cases hst
  all_goals
    rw [Stream.pending_concat h.1 h.2]
    exact List.mem_append_left _ hv

theorem Follows.awaits_new (h : w.Follows r changes) (hexit : w ≠ .exited) :
    w.Awaits (changes ++ [r + 1]) (r + 1) := by
  cases w with
  | reading | read r | created st | rebuilding => exact .inr (.inr rfl)
  | streaming st | received st events =>
    cases hended : st.ended with
    | true => exact .inr (.inr hended)
    | false =>
      refine .inl ⟨st, rfl, hended, ?_⟩
      rw [Stream.pending_concat h.1 h.2]
      exact List.mem_append_right _ (List.mem_singleton_self _)
  | exited => exact absurd rfl hexit

theorem Awaits.respond (h : (streaming st).Awaits changes v) :
    (received { st with seen := st.seen + k } ((st.pending changes).take k)).Awaits changes v := by
  rcases h with ⟨st', hst, hended, hv⟩ | hv | hended
  · cases hst
    rcases Stream.mem_pending hv with hv | hv
    · exact .inr (.inl hv)
    · exact .inl ⟨_, rfl, hended, hv⟩
  · cases hv
  · exact .inr (.inr hended)

end Watch

end Stream

namespace Reload

variable {s s' : Reload} {m : ReloadMove} {v : ℕ}

structure Wired (s : Reload) : Prop where
  le : ∀ v ∈ s.changes, v ≤ s.revision
  follows : s.watch.Follows s.revision s.changes
  exited : s.watch = .exited → s.canceled = true

theorem Wired.signal (h : Wired s) : Wired s.signalReload := by
  unfold signalReload
  split
  · exact h
  · exact { h with }

/-- One step keeps token, loops and stream wired. -/
theorem Wired.step (h : Wired s) (hs : s.step m = some s') : Wired s' := by
  cases m <;> simp only [Reload.step] at hs
  case put =>
    cases hs
    refine ⟨fun v hv => ?_, h.follows.write _, h.exited⟩
    rcases List.mem_append.mp hv with hv | hv
    · exact Nat.le_succ_of_le (h.le v hv)
    · exact Nat.le_of_eq (List.mem_singleton.mp hv)
  case other =>
    cases hs
    have hfollows := h.follows.write []
    rw [List.append_nil] at hfollows
    exact ⟨fun v hv => Nat.le_succ_of_le (h.le v hv), hfollows, h.exited⟩
  case cancel =>
    cases hs
    exact ⟨h.le, h.follows, fun _ => rfl⟩
  case start =>
    split at hs <;> cases hs
    exact Wired.signal { h with }
  case tick =>
    cases hs
    exact h.signal
  case take | load | loaded | applied | exitConfig =>
    split at hs <;> cases hs
    exact { h with }
  -- the steps of `watchLoop`
  all_goals have hfollows := h.follows
  case answer =>
    split at hs <;> cases hs
    exact ⟨h.le, Nat.le_refl _, nofun⟩
  case revisionFails | rebuild | backoff =>
    repeat' split at hs
    all_goals cases hs
    all_goals exact ⟨h.le, trivial, nofun⟩
  case watch =>
    split at hs
    next r heq =>
      cases hs
      rw [heq] at hfollows
      exact ⟨h.le, ⟨Nat.succ_le_succ hfollows, Nat.zero_le _⟩, nofun⟩
    next => cases hs
  case afterWatch | afterEvents =>
    split at hs
    next heq =>
      cases hs
      rw [heq] at hfollows
      exact Wired.signal ⟨h.le, hfollows, nofun⟩
    next => cases hs
  case respond =>
    split at hs
    next st heq =>
      rw [heq] at hfollows
      repeat' split at hs
      all_goals cases hs
      next => exact h
      next hk =>
        rw [Stream.pending, List.length_drop] at hk
        exact ⟨h.le, ⟨hfollows.1, by dsimp only; omega⟩, nofun⟩
    next => cases hs
  case lose =>
    split at hs
    all_goals cases hs
    all_goals
      next heq =>
        rw [heq] at hfollows
        exact ⟨h.le, hfollows, nofun⟩
  case exitWatch =>
    repeat' split at hs
    all_goals cases hs
    all_goals
      next hcanceled => exact ⟨h.le, trivial, fun _ => hcanceled⟩

theorem covered_signal (hlive : s.signalReload.canceled = false) (v : ℕ) : Covered s.signalReload v := by
  unfold signalReload at hlive ⊢
  split at hlive
  next hcanceled =>
    cases hcanceled.symm.trans hlive
  next hcanceled =>
    rw [if_neg hcanceled]
    exact .inl (.inr (.inl rfl))

/-- One step loses no change. -/
theorem Covered.step (h : Wired s) (hcovered : s.canceled = false → ∀ v ∈ s.changes, Covered s v)
    (hs : s.step m = some s') (hlive : s'.canceled = false) : ∀ v ∈ s'.changes, Covered s' v := by
  intro v hv
  cases m <;> simp only [Reload.step] at hs
  case put =>
    cases hs
    rcases List.mem_append.mp hv with hv | hv
    · exact (hcovered hlive v hv).imp_right h.follows.awaits_concat
    · rw [List.mem_singleton.mp hv]
      exact .inr (h.follows.awaits_new fun hexit => by simp [h.exited hexit] at hlive)
  case other =>
    cases hs
    exact hcovered hlive v hv
  case cancel =>
    cases hs
    cases hlive
  case start =>
    split at hs <;> cases hs
    exact covered_signal hlive v
  case tick =>
    cases hs
    exact covered_signal hlive v
  case answer | revisionFails | watch | rebuild | backoff =>
    repeat' split at hs
    all_goals cases hs
    all_goals exact .inr (.inr (.inr rfl))
  case afterWatch | afterEvents =>
    split at hs <;> cases hs
    exact covered_signal hlive v
  case respond =>
    split at hs
    next st heq =>
      repeat' split at hs
      all_goals cases hs
      next => exact hcovered hlive v hv
      next =>
        refine (hcovered hlive v hv).imp_right fun hawaits => ?_
        rw [heq] at hawaits
        exact hawaits.respond
    next => cases hs
  case lose =>
    split at hs
    all_goals cases hs
    all_goals exact .inr (.inr (.inr rfl))
  case exitWatch =>
    repeat' split at hs
    all_goals cases hs
    all_goals
      next hcanceled => simp [hcanceled] at hlive
  case take =>
    split at hs <;> cases hs
    next hcond =>
      refine (hcovered hlive v hv).imp_left fun hasked => ?_
      exact hasked.imp_right fun _ => .inr rfl
  case load =>
    split at hs <;> cases hs
    exact .inl (.inl ⟨_, List.mem_append_right _ (List.mem_singleton_self _), h.le v hv⟩)
  case loaded | applied =>
    split at hs <;> cases hs
    next hconfig =>
      refine (hcovered hlive v hv).imp_left fun hasked => ?_
      exact hasked.imp_right fun hasked => .inl (hasked.resolve_right (by simp [hconfig]))
  case exitConfig =>
    split at hs <;> cases hs
    next hcond => simp [hcond.2] at hlive

structure Watched (s : Reload) : Prop where
  wired : Wired s
  covered : s.canceled = false → ∀ v ∈ s.changes, Covered s v

theorem watched (r : ℕ) : (reloading r).Invariant Watched where
  init := ⟨⟨nofun, trivial, nofun⟩, nofun⟩
  step _ _ _ h hs := ⟨h.wired.step hs, Covered.step h.wired h.covered hs⟩

end Reload

/-! ## Results -/

section Results

variable {r : ℕ} {ms : List ReloadMove} {s : Reload}

/-- Before the term is cancelled each change is covered: a load has started after it, or is asked
for; its event is still to be delivered or signalled; or the watch loop has yet to signal after
its next creation of a watch. -/
theorem changes_covered (h : (reloading r).run ms = some s) (hlive : s.canceled = false) :
    ∀ v ∈ s.changes,
      (∃ load ∈ s.loads, v ≤ load) ∨
      (s.token = true ∨ s.config = .taken) ∨
      ((∃ st, s.watch.stream = some st ∧ st.ended = false ∧ v ∈ st.pending s.changes) ∨
        v ∈ s.watch.events) ∨
      s.watch.rebuilds = true := by
  intro v hv
  rcases ((Reload.watched r).run h).covered hlive v hv with (hload | hasked) | hpending | hevent | hrebuild
  · exact .inl hload
  · exact .inr (.inl hasked)
  · exact .inr (.inr (.inl (.inl hpending)))
  · exact .inr (.inr (.inl (.inr hevent)))
  · exact .inr (.inr (.inr hrebuild))

/-! ### The loops catch up -/

/-- The steps of the two loops, when nothing fails. -/
def Loops (m : ReloadMove) : Prop :=
  m ∈ [.answer, .watch, .afterWatch, .respond 1, .afterEvents, .rebuild, .backoff, .take, .load,
    .loaded true, .applied]

theorem exits_canceled (r : ℕ) :
    (reloading r).Invariant fun s => s.config = .exited → s.canceled = true := by
  refine ⟨nofun, fun s m s' h hs => ?_⟩
  cases m <;> simp only [reloading, Reload.step, Reload.signalReload] at hs <;> grind

/-- A change that the watch awaits can be signalled. -/
theorem can_signal {v : ℕ} (hlive : s.canceled = false) (h : s.watch.Awaits s.changes v) :
    (reloading r).Can Loops (fun t => t.canceled = false ∧ t.token = true ∧ t.config = s.config ∧
      t.revision = s.revision) s := by
  obtain ⟨_, changes, _, _, _, watch, _, _, _⟩ := s
  cases hlive
  cases watch with
  | reading => exact ⟨[.answer, .watch, .afterWatch], _, by simp [Loops], rfl, rfl, rfl, rfl, rfl⟩
  | read => exact ⟨[.watch, .afterWatch], _, by simp [Loops], rfl, rfl, rfl, rfl, rfl⟩
  | created => exact ⟨[.afterWatch], _, by simp [Loops], rfl, rfl, rfl, rfl, rfl⟩
  | received => exact ⟨[.afterEvents], _, by simp [Loops], rfl, rfl, rfl, rfl, rfl⟩
  | rebuilding =>
    exact ⟨[.backoff, .answer, .watch, .afterWatch], _, by simp [Loops], rfl, rfl, rfl, rfl, rfl⟩
  | streaming st =>
    obtain ⟨start, seen, _ | _⟩ := st
    · have hpending : 1 ≤ (Stream.pending ⟨start, seen, false⟩ changes).length := by
        rcases h with ⟨_, ⟨⟩, -, hv⟩ | h | h
        · exact List.length_pos_of_mem hv
        · cases h
        · cases h
      refine .step (m := .respond 1) (if_pos hpending) (by simp [Loops]) ?_
      exact ⟨[.afterEvents], _, by simp [Loops], rfl, rfl, rfl, rfl, rfl⟩
    · exact ⟨[.rebuild, .backoff, .answer, .watch, .afterWatch], _, by simp [Loops], rfl, rfl, rfl,
        rfl, rfl⟩
  | exited => rcases h with ⟨_, h, _⟩ | h | h <;> cases h

/-- A signalled reload can load the current revision. -/
theorem can_load (hlive : s.canceled = false) (hexit : s.config ≠ .exited)
    (h : s.token = true ∨ s.config = .taken) :
    (reloading r).Can Loops (fun t => s.revision ∈ t.loads) s := by
  obtain ⟨_, _, _, _, token, _, _, config, _⟩ := s
  cases hlive
  cases config with
  | taken => exact ⟨[.load], _, by simp [Loops], rfl, by simp⟩
  | exited => exact absurd rfl hexit
  | waiting =>
    cases h.resolve_right nofun
    exact ⟨[.take, .load], _, by simp [Loops], rfl, by simp⟩
  | loading =>
    cases h.resolve_right nofun
    exact ⟨[.loaded true, .applied, .take, .load], _, by simp [Loops], rfl, by simp⟩
  | applying =>
    cases h.resolve_right nofun
    exact ⟨[.applied, .take, .load], _, by simp [Loops], rfl, by simp⟩

/-- From every state of a live term the loops can come, without another change, to a load that has
started after every change. -/
theorem reload_converges (h : (reloading r).run ms = some s) (hlive : s.canceled = false) :
    (reloading r).Can Loops (fun t => ∀ v ∈ s.changes, ∃ load ∈ t.loads, v ≤ load) s := by
  have hw := (Reload.watched r).run h
  have hexit : s.config ≠ .exited := fun he => by
    cases hlive.symm.trans ((exits_canceled r).run h he)
  have hload {t : Reload} (ht : s.revision ∈ t.loads) : ∀ v ∈ s.changes, ∃ load ∈ t.loads, v ≤ load :=
    fun v hv => ⟨_, ht, hw.wired.le v hv⟩
  by_cases hall : ∀ v ∈ s.changes, ∃ load ∈ s.loads, v ≤ load
  · exact .here hall
  obtain ⟨v, hv⟩ := Classical.not_forall.mp hall
  obtain ⟨hv, hnone⟩ := Classical.not_imp.mp hv
  rcases hw.covered hlive v hv with (hdone | hasked) | hawaits
  · exact absurd hdone hnone
  · exact (can_load hlive hexit hasked).trans fun t ht => .here (hload ht)
  · refine (can_signal hlive hawaits).trans fun t ⟨hlive, htoken, hconfig, hrevision⟩ => ?_
    exact (can_load hlive (hconfig ▸ hexit) (.inl htoken)).trans fun _ ht => .here (hload (hrevision ▸ ht))

end Results

namespace Demo

/-- A change between the reading of the revision and the watch, another one during the load it leads to,
and a third one after the stream is lost. -/
def changes : List ReloadMove :=
  [.start, .take, .load, .answer, .put, .watch, .afterWatch, .loaded true, .applied, .take, .load, .put,
    .respond 1, .afterEvents, .loaded false, .lose, .put, .rebuild, .backoff, .answer]

end Demo

theorem demo_covered : ∃ s, (reloading 7).run Demo.changes = some s ∧ s.changes = [8, 9, 10] ∧
    s.loads = [7, 8] ∧ s.watch = .read 10 ∧
    ∀ v ∈ s.changes,
      (∃ load ∈ s.loads, v ≤ load) ∨
      (s.token = true ∨ s.config = .taken) ∨
      ((∃ st, s.watch.stream = some st ∧ st.ended = false ∧ v ∈ st.pending s.changes) ∨
        v ∈ s.watch.events) ∨
      s.watch.rebuilds = true := by
  obtain ⟨s, hs, hlive, hchanges, hloads, hwatch⟩ : ∃ s ∈ (reloading 7).run Demo.changes,
      s.canceled = false ∧ s.changes = [8, 9, 10] ∧ s.loads = [7, 8] ∧ s.watch = .read 10 := by
    decide +kernel
  exact ⟨s, hs, hchanges, hloads, hwatch, changes_covered hs hlive⟩

theorem demo_converges : ∃ s ∈ (reloading 7).run Demo.changes, s.changes = [8, 9, 10] ∧
    (reloading 7).Can Loops (fun t => ∀ v ∈ s.changes, ∃ load ∈ t.loads, v ≤ load) s := by
  obtain ⟨s, hs, hlive, hchanges⟩ : ∃ s ∈ (reloading 7).run Demo.changes,
      s.canceled = false ∧ s.changes = [8, 9, 10] := by decide +kernel
  exact ⟨s, hs, hchanges, reload_converges hs hlive⟩

end Dogx.Scheduler
