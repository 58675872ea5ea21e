import Dogx.Txn.Alone
import Dogx.Job.Properties.Trigger

/-!
# Manual requests

A manual trigger names its request. However often, on however many nodes and with whatever lost
confirmations a request is repeated, one round at most is created for it. Once there is one, every
repetition that reaches its transaction is answered from it: with its id, or with a conflict when
the override differs.
-/

namespace Dogx.Job

open Txn (Store)
open JobInstanceRepository

variable {env : Env} {w : World} {op : Op} {writes before : Db} {id jobId pid q : ℕ}
  {request : Uuid} {m m₀ : ManualTrigger} {i i' : JobInstance} {r : Except Err ℕ}

/-! ## One round -/

theorem Reached.request_unique (h : Reached env w) {id' : ℕ} (hi : w.db .instance id = some i)
    (hi' : w.db .instance id' = some i') (hjob : i.jobId = i'.jobId)
    (hr : i.requestId = some request) (hr' : i'.requestId = some request) : id = id' := by
  refine h.wf.unique .instance id id' i i' (.request i.jobId request) hi hi' ?_ ?_
  · simp [rowKeys, JobInstance.keys, hr]
  · simp [rowKeys, JobInstance.keys, hr', hjob]

/-- A request creates at most one round. -/
theorem Reached.created_once (h : Reached env w) (jobId : ℕ) (request : Uuid) :
    w.log.countP (Event.creates jobId request) ≤ 1 := by
  refine Txn.Evolution.once h fun w e h hhap hk e' he' => ?_
  by_contra hk'
  obtain ⟨_, m, _, _, _, rfl, hjob, hreq⟩ := Event.creates_inv hk
  obtain ⟨q, _, id', _, _, rfl, hjob', hreq'⟩ := Event.creates_inv (by simpa using hk')
  have hnext : Reached env _ := Txn.Evolution.trans h (.single hhap.evolves)
  obtain ⟨⟨i', hi', hfor'⟩, _⟩ := (Reached.inv h).created _ _ _ _ _ he'
  cases hhap with
  | commit hw _ ok =>
    subst hw
    obtain ⟨j, hadm, _⟩ := ok.1.requested_inv
    obtain ⟨⟨i, hi, hfor⟩, _⟩ := hnext.inv.created _ _ _ _ _ List.mem_cons_self
    obtain ⟨_, hi1, hf⟩ := ok.1.follows.round id' i' hi'
    have hfor1 := hfor'.follows hf
    have heq := hnext.request_unique hi hi1
      (hfor.1.trans (hjob.trans (hjob'.symm.trans hfor1.1.symm)))
      hfor.2 (by rw [hfor1.2, hreq, hreq'])
    rw [← heq, hadm.fresh] at hi'
    simp at hi'

/-! ## The override of a request -/

/--
The request `m` is made with the override of `m₀`, as which the round was created. The parameters
of `m₀` have been trimmed already.
-/
def SameRequest (m₀ m : ManualTrigger) : Prop :=
  m₀.paramsOverridden = m.paramsOverridden ∧
    (m.paramsOverridden = true → m₀.params = Text.trimSpace m.params)

instance (m₀ m : ManualTrigger) : Decidable (SameRequest m₀ m) :=
  inferInstanceAs (Decidable (_ ∧ _))

theorem Reached.override_of_created (h : Reached env w)
    (he : .commit pid (.triggerManual m₀ id true) before writes ∈ w.log) :
    ∃ i, w.db .instance id = some i ∧ i.For m₀ ∧ i.paramsOverridden = m₀.paramsOverridden ∧
      (m₀.paramsOverridden = true → i.executionConfig.params = m₀.params) := by
  obtain ⟨_, _, rfl, heff, hf⟩ := h.since he
  obtain ⟨j, hadm, rfl⟩ := heff.requested_inv
  obtain ⟨i, hi, hfi⟩ := hf.round id (newInstance (Creator.manualSnapshot j m₀) id)
    (Store.apply_of_some (by simp))
  refine ⟨i, hi, ⟨hfi.jobId.trans hadm.ids, hfi.requestId⟩, hfi.paramsOverridden, fun ho => ?_⟩
  rw [hfi.executionConfig]
  simp [newInstance, Creator.manualSnapshot, ho]

theorem sameOverride_iff (ho : i.paramsOverridden = m₀.paramsOverridden)
    (hp : m₀.paramsOverridden = true → i.executionConfig.params = m₀.params) :
    i.SameOverride m ↔ SameRequest m₀ m := by
  unfold JobInstance.SameOverride SameRequest
  rw [ho]
  refine and_congr_right fun heq => forall_congr' fun hm => ?_
  rw [hp (heq.trans hm)]

/-! ## Answers -/

theorem ManualAnswer.refused {e : Err} (h : ManualAnswer pid m w (.error e))
    (hc : e ≠ .requestConflict) (hf : ∀ f, e ≠ .fault f) :
    Deleted m.jobId w.db ∨ EnteredBefore pid m w := by
  cases e <;> first | exact h | simp at hc hf

/-- A later call with the same request answers with the same round. -/
theorem Reached.answer (h : Reached env w) {later between earlier : List Event}
    (hlog : w.log = later ++ .act pid (.returned (.manual m r)) () ::
      (between ++ .act pid .entered () :: earlier))
    (he : .commit q (.triggerManual m₀ id true) before writes ∈ earlier) (hjob : m.jobId = m₀.jobId)
    (hreq : m.requestId = m₀.requestId) (hkept : ¬ Deleted m.jobId w.db) :
    (∃ f, r = .error (.fault f)) ∨ (SameRequest m₀ m ∧ r = .ok id) ∨
      (¬ SameRequest m₀ m ∧ r = .error .requestConflict) := by
  obtain ⟨w1, h1, hlog1, ⟨_, hans⟩, hon⟩ := h.acted hlog
  have hmem : .commit q (.triggerManual m₀ id true) before writes ∈ w1.log := by
    rw [hlog1]
    exact List.mem_append_right _ (List.mem_cons_of_mem _ he)
  obtain ⟨i, hi, hfor, ho, hp⟩ := h1.override_of_created hmem
  -- the round of the answer is the one that was created
  have only : ∀ {id' i'}, w1.db .instance id' = some i' → i'.For m → id' = id ∧ i' = i := by
    intro id' i' hi' hfor'
    obtain rfl := h1.request_unique hi' hi (hfor'.1.trans (hjob.trans hfor.1.symm)) hfor'.2
      (hfor.2.trans (by rw [hreq]))
    rw [hi] at hi'
    exact ⟨rfl, (Option.some.inj hi').symm⟩
  cases r with
  | ok =>
    obtain ⟨i', hi', hfor', hsame⟩ := hans
    obtain ⟨rfl, rfl⟩ := only hi' hfor'
    exact Or.inr (Or.inl ⟨(sameOverride_iff ho hp).mp hsame, rfl⟩)
  | error e =>
    by_cases hf : ∃ f, e = .fault f
    · obtain ⟨f, rfl⟩ := hf
      exact Or.inl ⟨f, rfl⟩
    by_cases hc : e = .requestConflict
    · subst hc
      obtain ⟨_, _, hi', hfor', hdiff⟩ := hans
      obtain ⟨rfl, rfl⟩ := only hi' hfor'
      exact Or.inr (Or.inr ⟨fun hs => hdiff ((sameOverride_iff ho hp).mpr hs), rfl⟩)
    · rcases ManualAnswer.refused hans hc fun f hf' => hf ⟨f, hf'⟩ with hdel | hent
      · exact absurd (Deleted.follows _ _ (evolution_follows hon) hdel) hkept
      · have := hent between earlier hlog1 _ he
        simp [Event.creates, Op.creates, hjob, hreq] at this

theorem Reached.returned_round (h : Reached env w)
    (he : .act pid (.returned (.manual m (.ok id))) () ∈ w.log) :
    ∃ i, w.db .instance id = some i ∧ i.For m := by
  obtain ⟨_, _, hlog⟩ := List.append_of_mem he
  obtain ⟨_, _, _, ⟨_, i, hi, hfor, _⟩, hon⟩ := h.acted hlog
  obtain ⟨i', hi', hf⟩ := (evolution_follows hon).round id i hi
  exact ⟨i', hi', hfor.follows hf⟩

theorem Effect.manual_job {created : Bool} (h : Effect env w (.triggerManual m id created) writes) :
    writes .job jobId = none := by
  cases hw : writes .job jobId with
  | none => rfl
  | some =>
    cases h.job_write hw with
    | created hop => cases hop
    | advanced hop => cases hop
    | old _ hu => cases hu

/-! ## Progress -/

theorem Reached.findManual_eq (h : Reached env w) (hi : w.db .instance id = some i) (hfor : i.For m) :
    ∃ prior, findManual m.jobId m.requestId w.view = some prior ∧
      prior.id = id ∧ (Creator.sameRequest prior (normalized m) = true ↔ i.SameOverride m) := by
  cases hfind : findManual m.jobId m.requestId w.view with
  | none =>
    have hmem : i ∈ Txn.View.all w.view .instance := Txn.View.mem_all.mpr
      ⟨id, (h.wf.bounded .instance id i hi).2, hi⟩
    simp only [findManual, Option.map_eq_none_iff, List.find?_eq_none, Bool.and_eq_true,
      decide_eq_true_eq] at hfind
    exact absurd hfor (hfind i hmem)
  | some prior =>
    obtain ⟨_, hi', hfor', ho, hp⟩ : Prior m prior w.db :=
      prior_of_find (l := Txn.Loc.start w) rfl h.inv hfind
    obtain rfl := h.request_unique hi' hi (hfor'.1.trans hfor.1.symm) hfor'.2 hfor.2
    cases hi.symm.trans hi'
    exact ⟨prior, rfl, rfl, sameRequest_iff ho hp⟩

/-- What is left of a manual trigger that has reached its transaction. -/
def Creator.atTransaction (m : ManualTrigger) : Proc Unit :=
  ignore (returning (.manual m) (Creator.enterManual (normalized m)))

section Standing

variable {ms : List Move} {s : Sys} {sid : ℕ}

theorem Creator.code_triggerManual (hjob : m.jobId ≠ 0) (hop : m.operatorId ≠ 0)
    (hparams : m.paramsOverridden = true ∨ m.params = "") (hnul : Text.containsNul m.params = false) :
    Call.code env .listed (.triggerManual m) = .act .expired fun late =>
      if late then ignore (returning (.manual m) (pure (.error expired)))
      else .act (.acquire false) fun permit =>
        if permit then .act .entered fun _ => Creator.atTransaction m
        else ignore (returning (.manual m) (pure (.error .capacityBusy))) := by
  have hvalid : ¬ (m.jobId = 0 ∨ m.operatorId = 0 ∨ (!m.paramsOverridden) = true ∧ m.params ≠ "") := by
    rcases hparams with h | h <;> simp [h, hjob, hop]
  simp only [Call.code, Creator.triggerManual, if_neg hvalid, Creator.normalizeParams, hnul]
  refine congrArg (Txn.Proc.act (S := sig) Act.expired) (funext fun late => ?_)
  cases late with
  | true => rfl
  | false =>
    refine congrArg (Txn.Proc.act (S := sig) (Act.acquire false)) (funext fun permit => ?_)
    cases permit <;> rfl

/-- A valid request can reach its transaction. -/
theorem Creator.can_enter (env : Env) (hjob : m.jobId ≠ 0) (hop : m.operatorId ≠ 0)
    (hparams : m.paramsOverridden = true ∨ m.params = "") (hnul : Text.containsNul m.params = false)
    (s : Sys) : Txn.Sys.Can (service env) (fun s1 =>
      s1.sessions s.next = some { pid := s.next, phase := .idle (Creator.atTransaction m) } ∧
      s1.locks = s.locks ∧ s1.world.db = s.world.db ∧ ∀ e ∈ s.world.log, e ∈ s1.world.log) s := by
  refine .spawn (c := Call.triggerManual m) rfl fun s1 h1 hl1 => ?_
  have hcode : Call.code env .listed (.triggerManual m) = _ :=
    Creator.code_triggerManual hjob hop hparams hnul
  simp only [hcode] at h1
  refine .reply false h1 fun s2 h2 hl2 => ?_
  refine .reply true h2 fun s3 h3 hl3 => ?_
  refine .reply () h3 fun s4 h4 hl4 => .here ⟨h4.session, ?_, ?_, ?_⟩
  · rw [hl4, hl3, hl2, hl1]
  · rw [h4.world]; rfl
  · rw [h4.world]
    exact fun e he => List.mem_cons_of_mem _ (List.mem_cons_of_mem _ (List.mem_cons_of_mem _ he))

theorem Creator.can_return {pend : Db}
    (h : s.At sid sid (.idle (ignore (returning (.manual m) (pure r)))) w pend) :
    Txn.Sys.Can (service env) (fun s' => .act sid (.returned (.manual m r)) () ∈ s'.world.log) s :=
  .reply () h fun _ h' _ => .here (h'.world ▸ List.mem_cons_self)

theorem Creator.can_answer (hr : run env ms = some s)
    (hs : s.sessions sid = some { pid := sid, phase := .idle (Creator.atTransaction m) })
    (he : .commit q (.triggerManual m₀ id true) before writes ∈ s.world.log)
    (hjob : m.jobId = m₀.jobId) (hreq : m.requestId = m₀.requestId)
    (hkept : ¬ Deleted m.jobId s.world.db) (hlock : s.locks (jobRow m.jobId) = none) :
    Txn.Sys.Can (service env) (fun s' => .act sid (.returned (.manual m
      (if SameRequest m₀ m then .ok id else .error .requestConflict))) () ∈ s'.world.log) s := by
  have h := run_reached hr
  have hpend : s.pend sid = Store.empty :=
    ((run_sound hr).quiet sid (by simp [hs, Txn.Session.InTx])).1
  obtain ⟨i, hi, hfor, ho, hp⟩ := h.override_of_created he
  obtain ⟨_, j, hj⟩ := h.inv.created _ _ _ _ _ he
  rw [← hjob] at hj
  have hdel : j.deletedAt = none := by
    by_contra hn
    exact hkept ⟨j, hj, Option.isSome_iff_ne_none.mpr hn⟩
  obtain ⟨prior, hfind, rfl, hsame⟩ := h.findManual_eq hi
    ⟨hfor.1.trans hjob.symm, by rw [hfor.2, hreq]⟩
  rw [sameOverride_iff ho hp] at hsame
  refine .begin ⟨hs, rfl, hpend⟩ fun s1 h1 hlocks => ?_
  refine .lock h1 hj (hlocks ▸ hlock) fun s2 h2 => ?_
  simp only [Txn.Tx.ret_bind, hdel, Txn.Tx.pure_eq] at h2
  refine .select h2 fun s3 h3 => ?_
  have hview : findManual (normalized m).jobId (normalized m).requestId
      { rows := s.world.db.apply Store.empty, seq := s.world.seq, now := s.world.now } =
      some prior := hfind
  simp only [hview, Txn.Tx.ret_bind, Creator.replayTx, Creator.replay] at h3
  by_cases hs' : SameRequest m₀ m
  · rw [if_pos hs']
    simp only [hsame.mpr hs'] at h3
    refine .commit h3 fun s4 h4 => ?_
    exact Creator.can_return h4
  · have hdiff : Creator.sameRequest prior (normalized m) = false := by
      simpa using fun h => hs' (hsame.mp h)
    rw [if_neg hs']
    simp only [hdiff] at h3
    exact .throw h3 fun s4 h4 => Creator.can_return h4

end Standing

/--
The calls for one request of a job: at most one creates a round, and all that succeed return it.
Once there is a round, a call that reaches its transaction returns its id or the conflict, as the
override has it, and can always get there once the lock of the job is free. None of them writes
the row of a job.
-/
theorem manual_trigger_idempotent {ms : List Move} {s : Sys} (hr : run env ms = some s) (jobId : ℕ)
    (request : Uuid) :
    s.world.log.countP (Event.creates jobId request) ≤ 1 ∧
    (∀ id id' i i', s.world.db .instance id = some i → s.world.db .instance id' = some i' →
      i.jobId = jobId → i'.jobId = jobId → i.requestId = some request →
      i'.requestId = some request → id = id') ∧
    (∀ pid pid' m m' id id', .act pid (.returned (.manual m (.ok id))) () ∈ s.world.log →
      .act pid' (.returned (.manual m' (.ok id'))) () ∈ s.world.log → m.jobId = jobId →
      m'.jobId = jobId → m.requestId = request → m'.requestId = request → id = id') ∧
    (∀ q m₀ id before writes, .commit q (.triggerManual m₀ id true) before writes ∈ s.world.log →
      m₀.jobId = jobId → m₀.requestId = request → ¬ Deleted jobId s.world.db →
      ∀ m : ManualTrigger, m.jobId = jobId → m.requestId = request →
        (∀ pid r later between earlier,
          s.world.log = later ++ .act pid (.returned (.manual m r)) () ::
            (between ++ .act pid .entered () :: earlier) →
          .commit q (.triggerManual m₀ id true) before writes ∈ earlier →
          (∃ f, r = .error (.fault f)) ∨ (SameRequest m₀ m ∧ r = .ok id) ∨
            (¬ SameRequest m₀ m ∧ r = .error .requestConflict)) ∧
        ∀ sid, s.sessions sid = some { pid := sid, phase := .idle (Creator.atTransaction m) } →
          s.locks (jobRow jobId) = none → ∃ ms' s', s.run (service env) ms' = some s' ∧
            .act sid (.returned (.manual m (if SameRequest m₀ m then .ok id
              else .error .requestConflict))) () ∈ s'.world.log) ∧
    ∀ pid m id created before writes,
      .commit pid (.triggerManual m id created) before writes ∈ s.world.log →
      ∀ jobId', before.apply writes .job jobId' = before .job jobId' := by
  have h := run_reached hr
  refine ⟨h.created_once jobId request, ?_, ?_, ?_, ?_⟩
  · intro id id' i i' hi hi' hj hj' hq hq'
    exact h.request_unique hi hi' (hj.trans hj'.symm) hq hq'
  · rintro pid _ m _ id _ he he' rfl hj' rfl hq'
    obtain ⟨i, hi, hfor⟩ := h.returned_round he
    obtain ⟨_, hi', hfor'⟩ := h.returned_round he'
    exact h.request_unique hi hi' (hfor.1.trans (hj'.symm.trans hfor'.1.symm)) hfor.2
      (hfor'.2.trans (by rw [hq']))
  · rintro q _ id before writes he hj₀ hq₀ hkept m rfl rfl
    refine ⟨?_, ?_⟩
    · intro pid r later between earlier hlog hc
      exact h.answer hlog hc hj₀.symm hq₀.symm hkept
    · intro sid hs hlock
      exact Creator.can_answer hr hs he hj₀.symm hq₀.symm hkept hlock
  · intro pid m id created before writes he jobId'
    obtain ⟨_, _, rfl, heff, _⟩ := h.since he
    exact Store.apply_of_none heff.manual_job

theorem demo_request_repeated : ∃ ms s, run Demo.library (Demo.requested ++ ms) = some s ∧
    .act 3 (.returned (.manual Demo.request (.ok 1))) () ∈ s.world.log ∧
    s.world.log.countP (Event.creates 1 7) ≤ 1 := by
  obtain ⟨s, hs, hnext, hlock, hkept, hk⟩ : ∃ s ∈ run Demo.library Demo.requested, s.next = 3 ∧
      s.locks (jobRow 1) = none ∧ (∀ j ∈ s.world.db .job 1, j.deletedAt = none) ∧
      s.world.log.any (Event.commits fun op _ => op = .triggerManual Demo.request 1 true) = true := by
    decide +kernel
  simp only [any_commits, decide_eq_true_eq] at hk
  obtain ⟨q, _, before, writes, he, rfl⟩ := hk
  obtain ⟨ms₁, s₁, hs₁, hat, hlocks, hdb, hmem⟩ := Creator.can_enter Demo.library
    (m := Demo.request) (by decide) (by decide) (by decide) (by decide) s
  have hr₁ : run Demo.library (Demo.requested ++ ms₁) = some s₁ :=
    Txn.Sys.run_append.mpr ⟨s, hs, hs₁⟩
  have hundeleted : ¬ Deleted 1 s₁.world.db := by
    rintro ⟨j, hj, hdel⟩
    rw [hdb] at hj
    simp [hkept j hj] at hdel
  obtain ⟨_, _, _, hanswer, _⟩ := manual_trigger_idempotent hr₁ 1 7
  obtain ⟨_, hprogress⟩ := hanswer q Demo.request 1 before writes (hmem _ he) rfl rfl hundeleted
    Demo.request rfl rfl
  obtain ⟨ms₂, s₂, hs₂, hret⟩ := hprogress 3 (hnext.symm ▸ hat) (by rw [hlocks, hlock])
  have hr₂ : run Demo.library (Demo.requested ++ (ms₁ ++ ms₂)) = some s₂ :=
    Txn.Sys.run_append.mpr ⟨s, hs, Txn.Sys.run_append.mpr ⟨s₁, hs₁, hs₂⟩⟩
  exact ⟨ms₁ ++ ms₂, s₂, hr₂, hret,
    (manual_trigger_idempotent hr₂ 1 7).1⟩

end Dogx.Job
