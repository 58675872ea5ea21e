import Dogx.InstanceCheck.Recovery

/-!
# No running instance is passed over

The discovery is a traversal (`traverses`): its bound and its cursor are the saved position, and a row
is handed over when its hint is accepted.
-/

namespace Dogx.InstanceCheck

open Machine Paging

variable {cfg : RecoveryConfig} {r r' : Recovery} {row c : RunningCandidate} {src : Source}

/-! ## Admission -/

namespace Queue

variable {q q' : Queue} {now id id' : ℤ} {f : CheckEntry → CheckEntry}

theorem isSome_entry?_update (hf : ∀ e, (f e).id = e.id) (id id' : ℤ) :
    ((q.update id f).entryAt id').isSome = (q.entryAt id').isSome := by
  have hid : ∀ e : CheckEntry, (if e.id = id then f e else e).id = e.id := fun e => by
    split
    · exact hf e
    · rfl
  simp [entryAt, update, hid]

theorem entryAt_of_mergeLocked (h : q.mergeLocked now id = some q') : (q'.entryAt id).isSome := by
  obtain ⟨hentry, h⟩ := Option.ite_none_right_eq_some.mp h
  cases h
  rw [isSome_entry?_update fun e => by split <;> rfl]
  exact hentry

theorem entryAt_addLocked : ((q.addLocked now id).entryAt id).isSome := by
  simp [entryAt, addLocked]

theorem entryAt_of_hintRecovery {qcfg : Config} {expired : Bool}
    (h : q.hintRecovery qcfg now expired id = .done q') : (q'.entryAt id).isSome := by
  unfold hintRecovery waitRecovery at h
  split at h
  · cases h
  · rename_i hid
    rw [if_pos (Int.not_le.mp hid), if_pos (Int.not_le.mp hid)] at h
    repeat' split at h
    all_goals cases h
    · exact entryAt_of_mergeLocked ‹_›
    · exact entryAt_addLocked

end Queue

/-! ## The traversal -/

/-- The rows in hand are a page that has been read, or what is left of it. -/
def Phase.stage (cfg : RecoveryConfig) : Phase → Stage RunningCandidate
  | .bounding _ => .bounding
  | .listing (some page) => .hand page (page.length < cfg.pageSize)
  | .handing candidates => .hand candidates false
  | _ => .resting

def plan : Plan ℤ RunningCandidate (ℤ ×ₗ ℤ) :=
  { position := RunningCandidate.place, unset := (· = 0), start := none }

def Recovery.traversal (cfg : RecoveryConfig) (r : Recovery) : Traversal ℤ RunningCandidate (ℤ ×ₗ ℤ) :=
  { bound := r.position.eligibleBefore, cursor := r.position.after.map (·.place)
    stage := r.phase.stage cfg }

/-- The hint of the candidate is accepted: it is in the queue, and the position is now its own. -/
structure Accepts (c : RunningCandidate) (r r' : Recovery) : Prop where
  handed : ∃ rest, r.phase = .handing (c :: rest)
  position : r'.position = { r.position with after := some c }
  admitted : (r'.queue.entryAt c.id).isSome

/-- What a step does to the saved position. -/
inductive Moves (r r' : Recovery) : Prop where
  | stays (position : r'.position = r.position) (accepted : r'.accepted = r.accepted)
  | bounds (unset : r.position.eligibleBefore = 0) (after : r'.position.after = r.position.after)
      (accepted : r'.accepted = r.accepted)
  | accepts (c : RunningCandidate) (accepts : Accepts c r r')
      (accepted : r'.accepted = r.accepted ++ [c])
  | resets (page : r.phase = .listing (some [])) (position : r'.position = .zero)
      (accepted : r'.accepted = [])

theorem Source.eligible_ordered (src : Source) (bound : ℤ) :
    Ordered RunningCandidate.place (src.eligible bound) :=
  src.ordered.filter _

theorem Source.page_of_list {bound : ℤ} {after : Option RunningCandidate} {limit : ℕ}
    {page : List RunningCandidate} (h : src.listRunningCandidates bound after limit = some page) :
    bound ≠ 0 ∧
      page = Paging.page RunningCandidate.place (after.map (·.place)) limit (src.eligible bound) := by
  obtain ⟨hbounds, h⟩ := Option.ite_none_left_eq_some.mp h
  exact ⟨fun hzero => hbounds (.inl hzero), (Option.some.inj h).symm⟩

/-- A step of the discovery: the step of its traversal, with the rows it hands over, and what it does to
the saved position. -/
structure Change (cfg : RecoveryConfig) (r r' : Recovery) (done : List RunningCandidate) : Prop where
  traversal : plan.Step r.source.eligible (r.traversal cfg) done (r'.traversal cfg)
  accepts : ∀ c ∈ done, Accepts c r r'
  moves : plan.Placed (r.traversal cfg) → Moves r r'

theorem Change.quiet (h : plan.Step r.source.eligible (r.traversal cfg) [] (r'.traversal cfg))
    (hposition : r'.position = r.position) (haccepted : r'.accepted = r.accepted) :
    Change cfg r r' [] :=
  ⟨h, nofun, fun _ => .stays hposition haccepted⟩

theorem Change.accepted {queue : Queue} {rest : List RunningCandidate}
    (h : r.phase = .handing (c :: rest)) (hadmitted : (queue.entryAt c.id).isSome) :
    Change cfg r (r.accept queue c rest) [c] := by
  have haccepts : Accepts c r (r.accept queue c rest) := ⟨⟨rest, h⟩, rfl, hadmitted⟩
  refine ⟨.hands [c] rest false _ (congrArg (Phase.stage cfg) h) ?_, by simpa using haccepts,
    fun _ => .accepts c haccepts rfl⟩
  cases rest with
  | nil => exact .inl rfl
  | cons => exact .inr ⟨false, rfl, nofun⟩

/-- Every step is a step of the traversal. -/
theorem Change.of_step {m : Move} (h : r.step cfg m = some r') : ∃ done, Change cfg r r' done := by
  cases m with
  | change =>
    cases h
    exact ⟨[], .quiet .stays rfl rfl⟩
  | queue =>
    obtain ⟨_, -, h⟩ := Option.map_eq_some_iff.mp h
    cases h
    exact ⟨[], .quiet .stays rfl rfl⟩
  | pass =>
    dsimp only [Recovery.step] at h
    split at h <;> cases h
    exact ⟨[], .quiet .rests rfl rfl⟩
  | capacity =>
    dsimp only [Recovery.step] at h
    split at h <;> cases h
    · exact ⟨[], .quiet .rests rfl rfl⟩
    · split
      · exact ⟨[], .quiet (.starts (.inl ‹_›)) rfl rfl⟩
      · exact ⟨[], .quiet .rests rfl rfl⟩
  | sample now =>
    dsimp only [Recovery.step] at h
    split at h <;> cases h
    · next hphase =>
      exact ⟨[], .quiet (.starts (.inr (congrArg (Phase.stage cfg) hphase))) rfl rfl⟩
    · generalize hread : Source.listRunningCandidates .. = read
      cases read with
      | none => exact ⟨[], .quiet .rests rfl rfl⟩
      | some =>
        obtain ⟨hset, rfl⟩ := Source.page_of_list hread
        exact ⟨[], .quiet (.reads cfg.pageSize cfg.pageSize_pos hset _ of_decide_eq_true) rfl rfl⟩
  | answer =>
    dsimp only [Recovery.step, Recovery.receive] at h
    split at h <;> cases h
    · next hphase =>
      have hstage : r.phase.stage cfg = .bounding := congrArg (Phase.stage cfg) hphase
      split
      · exact ⟨[], .quiet .rests rfl rfl⟩
      · exact ⟨[], .bounds _ hstage, nofun, fun hp => .bounds (hp.bounding hstage) rfl rfl⟩
    · next page hphase =>
      have hstage : r.phase.stage cfg = .hand page (page.length < cfg.pageSize) :=
        congrArg (Phase.stage cfg) hphase
      split
      · split
        · exact ⟨[], .ends [] _ 0 hstage (.inl (decide_eq_true cfg.pageSize_pos)) rfl, nofun,
            fun _ => .resets hphase rfl rfl⟩
        · exact ⟨[], .quiet (.hands [] page _ _ hstage (.inr ⟨false, rfl, nofun⟩)) rfl rfl⟩
      · exact ⟨[], .quiet .rests rfl rfl⟩
    · exact ⟨[], .quiet .rests rfl rfl⟩
    · exact ⟨[], .quiet .rests rfl rfl⟩
  | hint =>
    dsimp only [Recovery.step] at h
    split at h
    · rename_i c rest hphase
      split at h <;> cases h
      · exact ⟨[], .quiet .rests rfl rfl⟩
      · exact ⟨[c], .accepted hphase (Queue.entryAt_of_hintRecovery ‹_›)⟩
    · cases h

theorem traverses (cfg : RecoveryConfig) : Traverses plan (recovery cfg) (Recovery.traversal cfg)
    (fun r => r.source.eligible) fun c r _ r' => Accepts c r r' where
  ordered := fun r => r.source.eligible_ordered
  init := ⟨fun _ => rfl, nofun, nofun⟩
  step := fun r m r' hm => by
    obtain ⟨done, hc⟩ := Change.of_step (m := m) hm
    exact ⟨done, hc.traversal, hc.accepts⟩

/-! ## The saved position -/

theorem Moves.last (h : Moves r r') (hr : r.position.after = r.accepted.getLast?) :
    r'.position.after = r'.accepted.getLast? := by
  cases h with
  | stays position accepted => rw [position, accepted, hr]
  | bounds _ after accepted => rw [after, accepted, hr]
  | accepts c accepts accepted => rw [accepts.position, accepted, List.getLast?_concat]
  | resets _ position accepted =>
    rw [position, accepted]
    rfl

structure Placed (cfg : RecoveryConfig) (r : Recovery) : Prop where
  traversal : plan.Placed (r.traversal cfg)
  last : r.position.after = r.accepted.getLast?

theorem placed (cfg : RecoveryConfig) : (recovery cfg).Invariant (Placed cfg) where
  init := ⟨(traverses cfg).init, rfl⟩
  step := fun _ m _ h hm => by
    obtain ⟨_, hc⟩ := Change.of_step (m := m) hm
    exact ⟨(traverses cfg).placed.step h.traversal hm, (hc.moves h.traversal).last h.last⟩

/-- The next page resumes at the candidate whose hint was refused. -/
theorem Placed.resumes {page rest : List RunningCandidate} (hp : Placed cfg r)
    (hphase : r.phase = .handing (c :: rest))
    (hread : src.listRunningCandidates r.position.eligibleBefore r.position.after cfg.pageSize =
      some page) (hrow : c ∈ src.eligible r.position.eligibleBefore) :
    Toward RunningCandidate.place c page ∧ page ≠ [] := by
  obtain ⟨-, rfl⟩ := Source.page_of_list hread
  exact hp.traversal.resumes (congrArg (Phase.stage cfg) hphase) List.mem_cons_self
    (src.eligible_ordered _) hrow cfg.pageSize_pos

/-! ## Whole traversals -/

/-- A traversal hands over every row that stays within its bound. -/
theorem covers {ms ms' : List Move} {m : Move} {r0 r1 : Recovery}
    (h : (recovery cfg).run ms = some r) (hm : (recovery cfg).step r m = some r0)
    (hunset : r.position.eligibleBefore = 0) (hset : r0.position.eligibleBefore ≠ 0)
    (halong : (recovery cfg).Along (fun s _ _ => row ∈ s.source.eligible r0.position.eligibleBefore) r0 ms' r1)
    (hend : r1.position.eligibleBefore = 0) :
    ∃ t m t', (recovery cfg).StepIn r0 ms' r1 t m t' ∧ Accepts row t t' := by
  rcases (traverses cfg).covers h hm hunset hset nofun halong with hahead | hdone
  · exact absurd (hahead.bound.symm.trans hend) hset
  · exact hdone

end Dogx.InstanceCheck
