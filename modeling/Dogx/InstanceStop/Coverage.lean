import Dogx.InstanceStop.Recovery

/-!
# No stopping instance is passed over

The same argument as for running instances. The traversal has one more end: the page that reaches the
upper bound.
-/

namespace Dogx.InstanceStop

open Machine Paging

variable {cfg : RecoveryConfig} {r r' : Recovery} {row id upper : ℤ} {rest : List ℤ} {src : Source}

/-! ## The traversal -/

theorem Queue.mem_of_hint {q q' : Queue} {qcfg : Config} (h : q.hint qcfg id = (true, q')) :
    id ∈ q'.entries := by
  unfold Queue.hint at h
  repeat' split at h
  all_goals cases h
  · assumption
  · exact List.mem_concat_self

/-- The rows in hand are a page that has been read, or what is left of it. -/
def Phase.stage (cfg : RecoveryConfig) : Phase → Stage ℤ
  | .bounding _ => .bounding
  | .listing (some page) => .hand page (page.length < cfg.pageSize)
  | .handing ids => .hand ids false
  | _ => .resting

def plan : Plan ℤ ℤ ℤ := { position := place, unset := (· = 0), start := some 0 }

def Recovery.traversal (cfg : RecoveryConfig) (r : Recovery) : Traversal ℤ ℤ ℤ :=
  { bound := r.position.upper, cursor := some r.position.after, stage := r.phase.stage cfg }

/-- The hint of the instance is accepted: it is in the queue, and the position is now its own, or the
traversal ends with it at its upper bound. -/
structure Accepts (id : ℤ) (r r' : Recovery) : Prop where
  handed : ∃ rest, r.phase = .handing (id :: rest)
  position : r'.position = { r.position with after := id } ∨
    id = r.position.upper ∧ r'.position = .zero
  admitted : id ∈ r'.queue.entries

/-- What a step does to the saved position. -/
inductive Moves (r r' : Recovery) : Prop where
  | stays (position : r'.position = r.position) (accepted : r'.accepted = r.accepted)
  | bounds (unset : r.position.upper = 0) (after : r'.position.after = r.position.after)
      (accepted : r'.accepted = r.accepted)
  | accepts (id : ℤ) (accepts : Accepts id r r')
      (accepted : r'.position = .zero ∧ r'.accepted = [] ∨ r'.accepted = r.accepted ++ [id])
  | resets (page : r.phase = .listing (some [])) (position : r'.position = .zero)
      (accepted : r'.accepted = [])

theorem Source.eligible_ordered (src : Source) (upper : ℤ) : Ordered place (src.eligible upper) :=
  src.ordered.filter _

theorem Source.page_of_list {after : ℤ} {limit : ℕ} {page : List ℤ}
    (h : src.listStoppingCandidates after upper limit = some page) :
    upper ≠ 0 ∧ page = Paging.page place (some after) limit (src.eligible upper) := by
  obtain ⟨hbounds, h⟩ := Option.ite_none_left_eq_some.mp h
  exact ⟨fun hzero => hbounds (.inr (.inl (Int.le_of_eq hzero))), (Option.some.inj h).symm⟩

/-- A step of the discovery: the step of its traversal, with the rows it hands over, and what it does to
the saved position. -/
structure Change (cfg : RecoveryConfig) (r r' : Recovery) (done : List ℤ) : Prop where
  traversal : plan.Step r.source.eligible (r.traversal cfg) done (r'.traversal cfg)
  accepts : ∀ id ∈ done, Accepts id r r'
  moves : plan.Placed (r.traversal cfg) → Moves r r'
  last : r'.position.after = r.position.after ∧ r'.accepted = r.accepted ∨
    r'.position.after = r'.accepted.getLast?.getD 0

theorem Change.quiet (h : plan.Step r.source.eligible (r.traversal cfg) [] (r'.traversal cfg))
    (hposition : r'.position = r.position) (haccepted : r'.accepted = r.accepted) :
    Change cfg r r' [] :=
  ⟨h, by simp, fun _ => .stays hposition haccepted, .inl ⟨hposition ▸ rfl, haccepted⟩⟩

theorem Change.accepted (haccepts : Accepts id r r')
    (h : plan.Step r.source.eligible (r.traversal cfg) [id] (r'.traversal cfg))
    (haccepted : r'.position = .zero ∧ r'.accepted = [] ∨
      r'.position.after = id ∧ r'.accepted = r.accepted ++ [id]) : Change cfg r r' [id] := by
  refine ⟨h, by simpa using haccepts, fun _ => .accepts id haccepts (haccepted.imp_right And.right),
    .inr ?_⟩
  rcases haccepted with ⟨hposition, haccepted⟩ | ⟨hposition, haccepted⟩
  · rw [hposition, haccepted]
    rfl
  · rw [hposition, haccepted, List.getLast?_concat]
    rfl

theorem Change.of_accept {queue : Queue} (h : r.phase = .handing (id :: rest))
    (hadmitted : id ∈ queue.entries) : Change cfg r (r.accept queue id rest) [id] := by
  have hstage : r.phase.stage cfg = .hand (id :: rest) false := congrArg (Phase.stage cfg) h
  cases rest with
  | nil =>
    unfold Recovery.accept
    dsimp only
    split
    · next hupper =>
      -- the row is at the upper bound, and no row is behind it
      refine .accepted ⟨⟨[], h⟩, .inr ⟨hupper, rfl⟩, hadmitted⟩
        (.ends [id] false 0 hstage (.inr ⟨id, List.mem_singleton_self id, fun row hrow => ?_⟩) rfl)
        (.inl ⟨rfl, rfl⟩)
      exact (of_decide_eq_true (List.mem_filter.mp hrow).2).trans_eq hupper.symm
    · exact .accepted ⟨⟨[], h⟩, .inl rfl, hadmitted⟩ (.hands [id] [] false _ hstage (.inl rfl))
        (.inr ⟨rfl, rfl⟩)
  | cons next rest =>
    exact .accepted ⟨⟨_, h⟩, .inl rfl, hadmitted⟩
      (.hands [id] _ false _ hstage (.inr ⟨false, rfl, nofun⟩)) (.inr ⟨rfl, rfl⟩)

/-- Every step is a step of the traversal. -/
theorem Change.of_step {m : Move} (h : r.step cfg m = some r') : ∃ done, Change cfg r r' done := by
  cases m with
  | change =>
    cases h
    exact ⟨[], .quiet .stays rfl rfl⟩
  | queue =>
    obtain ⟨_, -, h⟩ := Option.map_eq_some_iff.mp h
    cases h
    exact ⟨[], .quiet .stays rfl rfl⟩
  | pass =>
    dsimp only [Recovery.step] at h
    split at h <;> cases h
    split
    · exact ⟨[], .quiet (.starts (.inl ‹_›)) rfl rfl⟩
    · exact ⟨[], .quiet .rests rfl rfl⟩
  | sample =>
    dsimp only [Recovery.step] at h
    split at h <;> cases h
    · next hphase =>
      exact ⟨[], .quiet (.starts (.inr (congrArg (Phase.stage cfg) hphase))) rfl rfl⟩
    · generalize hread : Source.listStoppingCandidates .. = read
      cases read with
      | none => exact ⟨[], .quiet .rests rfl rfl⟩
      | some =>
        obtain ⟨hset, rfl⟩ := Source.page_of_list hread
        exact ⟨[], .quiet (.reads cfg.pageSize cfg.pageSize_pos hset _ of_decide_eq_true) rfl rfl⟩
  | answer =>
    dsimp only [Recovery.step, Recovery.receive, Recovery.receiveUpper] at h
    split at h <;> cases h
    · next hphase =>
      have hstage : r.phase.stage cfg = .bounding := congrArg (Phase.stage cfg) hphase
      split
      · exact ⟨[], .quiet .rests rfl rfl⟩
      · exact ⟨[], .bounds _ hstage, by simp,
          fun hp => .bounds (hp.bounding hstage) rfl rfl, .inl ⟨rfl, rfl⟩⟩
    · next page hphase =>
      have hstage : r.phase.stage cfg = .hand page (page.length < cfg.pageSize) :=
        congrArg (Phase.stage cfg) hphase
      split
      · exact ⟨[], .quiet .rests rfl rfl⟩
      · split
        · exact ⟨[], .ends [] _ 0 hstage (.inl (decide_eq_true cfg.pageSize_pos)) rfl, by simp,
            fun _ => .resets hphase rfl rfl, .inr rfl⟩
        · exact ⟨[], .quiet (.hands [] page _ _ hstage (.inr ⟨false, rfl, by simp⟩)) rfl rfl⟩
    · exact ⟨[], .quiet .rests rfl rfl⟩
    · exact ⟨[], .quiet .rests rfl rfl⟩
  | hint =>
    dsimp only [Recovery.step] at h
    split at h
    · rename_i id rest hphase
      split at h
      · cases h
        exact ⟨[], .quiet .rests rfl rfl⟩
      · split at h <;> cases h
        · exact ⟨[id], .of_accept hphase (Queue.mem_of_hint ‹_›)⟩
        · exact ⟨[], .quiet .rests rfl rfl⟩
    · cases h

theorem traverses (cfg : RecoveryConfig) : Traverses plan (recovery cfg) (Recovery.traversal cfg)
    (fun r => r.source.eligible) fun id r _ r' => Accepts id r r' where
  ordered := fun r => r.source.eligible_ordered
  init := ⟨fun _ => rfl, nofun, nofun⟩
  step := fun r m r' hm => by
    obtain ⟨done, hc⟩ := Change.of_step (m := m) hm
    exact ⟨done, hc.traversal, hc.accepts⟩

/-! ## The saved position -/

structure Placed (cfg : RecoveryConfig) (r : Recovery) : Prop where
  traversal : plan.Placed (r.traversal cfg)
  last : r.position.after = r.accepted.getLast?.getD 0

/-- In every run, the traversal is where its phase says. -/
theorem placed (cfg : RecoveryConfig) : (recovery cfg).Invariant (Placed cfg) where
  init := ⟨(traverses cfg).init, rfl⟩
  step := fun _ m _ h hm => by
    obtain ⟨_, hc⟩ := Change.of_step (m := m) hm
    refine ⟨(traverses cfg).placed.step h.traversal hm, ?_⟩
    rcases hc.last with ⟨hafter, haccepted⟩ | hlast
    · rw [hafter, haccepted, h.last]
    · exact hlast

/-- The next page resumes at the instance whose hint was refused. -/
theorem Placed.resumes {page : List ℤ} (hp : Placed cfg r) (hphase : r.phase = .handing (id :: rest))
    (hread : src.listStoppingCandidates r.position.after r.position.upper cfg.pageSize = some page)
    (hrow : id ∈ src.eligible r.position.upper) : Toward place id page ∧ page ≠ [] := by
  obtain ⟨-, rfl⟩ := Source.page_of_list hread
  exact hp.traversal.resumes (congrArg (Phase.stage cfg) hphase) List.mem_cons_self
    (src.eligible_ordered _) hrow cfg.pageSize_pos

/-! ## Whole traversals -/

/-- A traversal hands over every instance that stays within its bound. -/
theorem covers {ms ms' : List Move} {m : Move} {r0 r1 : Recovery}
    (h : (recovery cfg).run ms = some r) (hm : (recovery cfg).step r m = some r0)
    (hunset : r.position.upper = 0) (hset : r0.position.upper ≠ 0)
    (halong : (recovery cfg).Along (fun s _ _ => row ∈ s.source.eligible r0.position.upper) r0 ms' r1)
    (hend : r1.position.upper = 0) :
    ∃ t m t', (recovery cfg).StepIn r0 ms' r1 t m t' ∧ Accepts row t t' := by
  have hpos : 0 < row := by
    cases halong with
    | nil => exact absurd hend hset
    | cons _ hok => exact r0.source.positive row (List.mem_filter.mp hok).1
  rcases (traverses cfg).covers h hm hunset hset (by rintro _ ⟨⟩; exact hpos) halong with hahead | hdone
  · exact absurd (hahead.bound.symm.trans hend) hset
  · exact hdone

end Dogx.InstanceStop
