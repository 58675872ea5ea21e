import Dogx.Executor.Step

/-!
# Where an activity is

Every activity is in exactly one place: in the queue, with one worker, or behind it. `Places` says
so, together with what its history is in each place and how the active map follows from it.
-/

namespace Dogx.Executor

open Function (update update_eq_self_iff update_of_ne update_self)

/-! ## Places -/

namespace Worker

def activity : Worker → Option ℕ
  | taken a | begun a | running a | returned a _ | handing a _ | waiting a _ _ => some a
  | absent | idle | exited => none

def executing : Worker → Option ℕ
  | taken a | begun a | running a | returned a _ => some a
  | handing .. | waiting .. | absent | idle | exited => none

theorem activity_of_executing {w : Worker} {a : ℕ} (h : w.executing = some a) :
    w.activity = some a := by
  cases w <;> simp_all [executing, activity]

end Worker

namespace Activity

/-- `execute` has given it a context. -/
def started (act : Activity) : Bool := act.ctx.isSome

structure Unstarted (act : Activity) : Prop where
  started : act.started = false
  invoked : act.invoked = 0
  returned : act.returned = 0
  handed : act.handed = 0
  discarded : act.discarded = 0

def Settled (act : Activity) : Prop :=
  act.Unstarted ∨ (act.invoked = 1 ∧ act.returned = 1 ∧ act.handed + act.discarded = 1)

end Activity

def Worker.Fits (act : Activity) : Worker → Prop
  | taken _ => act.Unstarted
  | begun _ => act.started = true ∧ act.invoked = 0 ∧ act.returned = 0 ∧ act.handed = 0 ∧
      act.discarded = 0
  | running _ => act.started = true ∧ act.invoked = 1 ∧ act.returned = 0 ∧ act.handed = 0 ∧
      act.discarded = 0
  | returned .. | handing .. | waiting .. => act.started = true ∧ act.invoked = 1 ∧
      act.returned = 1 ∧ act.handed = 0 ∧ act.discarded = 0
  | absent | idle | exited => True

namespace Activity

variable {act act' : Activity}

structure Alike (act act' : Activity) : Prop where
  invocation : act'.invocation = act.invocation
  started : act'.started = act.started
  invoked : act'.invoked = act.invoked
  returned : act'.returned = act.returned
  handed : act'.handed = act.handed
  discarded : act'.discarded = act.discarded

namespace Alike

theorem unstarted (h : act.Alike act') (hun : act.Unstarted) : act'.Unstarted :=
  ⟨h.started.trans hun.started, h.invoked.trans hun.invoked, h.returned.trans hun.returned,
    h.handed.trans hun.handed, h.discarded.trans hun.discarded⟩

theorem settled (h : act.Alike act') (hset : act.Settled) : act'.Settled := by
  refine hset.imp h.unstarted ?_
  rw [h.invoked, h.returned, h.handed, h.discarded]
  exact id

theorem fits (h : act.Alike act') {st : Worker} (hfit : st.Fits act) : st.Fits act' := by
  cases st with
  | taken => exact h.unstarted hfit
  | absent | idle | exited => trivial
  | _ =>
    simp only [Worker.Fits, h.started, h.invoked, h.returned, h.handed, h.discarded] at hfit ⊢
    exact hfit

end Alike

end Activity

namespace Runtime

theorem alike_cancelIn {s : Runtime} {instanceId : Int} {a : ℕ} {act : Activity} :
    act.Alike (s.cancelIn instanceId a act) := by
  unfold cancelIn
  split
  · exact ⟨rfl, by simp [Activity.started, Activity.cancel], rfl, rfl, rfl, rfl⟩
  · exact ⟨rfl, rfl, rfl, rfl, rfl, rfl⟩

def Busy (s : Runtime) (a : ℕ) : Prop := a ∈ s.queue ∨ ∃ w, (s.workers w).executing = some a

structure Places (s : Runtime) : Prop where
  fresh : ∀ a act, s.heap a = some act → a < s.next
  nodup : s.queue.Nodup
  queued : ∀ a ∈ s.queue, ∃ act, s.heap a = some act ∧ act.Unstarted
  held : ∀ w a, (s.workers w).activity = some a →
    a ∉ s.queue ∧ ∃ act, s.heap a = some act ∧ (s.workers w).Fits act
  once : ∀ w w' a, (s.workers w).activity = some a → (s.workers w').activity = some a → w = w'
  gone : ∀ a act, s.heap a = some act → a ∉ s.queue → (∀ w, (s.workers w).activity ≠ some a) →
    act.Settled
  active : ∀ key a, s.active key = some a →
    ∃ act, s.heap a = some act ∧ act.invocation.key = key ∧ s.Busy a
  busy : ∀ a act, s.heap a = some act → s.Busy a →
    s.active act.invocation.key = some a ∨ ∃ caller, s.admitting = some (caller, a)
  admitting : ∀ caller a, s.admitting = some (caller, a) →
    ∃ act, s.heap a = some act ∧ s.active act.invocation.key = none ∧
      (a ∈ s.queue ∨ ∃ w, s.workers w = .taken a)

theorem places_init : Places .init := by
  constructor <;> simp [init, Worker.activity]

variable {cfg : Config} {s s' : Runtime} {w a : ℕ} {act : Activity} {st : Worker} {queue : List ℕ}
  {active : AttemptKey → Option ℕ}

namespace Places

theorem congr (h : Places s) (hheap : s'.heap = s.heap) (hnext : s'.next = s.next)
    (hqueue : s'.queue = s.queue) (hactive : s'.active = s.active)
    (hadmitting : s'.admitting = s.admitting)
    (hworkers : ∀ v, s'.workers v = s.workers v ∨
      ((s'.workers v).activity = none ∧ (s.workers v).activity = none)) : Places s' := by
  have hactivity : ∀ v, (s'.workers v).activity = (s.workers v).activity := by
    intro v
    rcases hworkers v with hv | ⟨hv, hv'⟩
    · rw [hv]
    · rw [hv, hv']
  have hexec : ∀ v x, (s.workers v).executing = some x → s'.workers v = s.workers v := by
    intro v x hx
    rcases hworkers v with hv | ⟨-, hv'⟩
    · exact hv
    · cases (Worker.activity_of_executing hx).symm.trans hv'
  have hbusy : ∀ x, s'.Busy x ↔ s.Busy x := by
    intro x
    unfold Busy
    rw [hqueue]
    refine or_congr_right (exists_congr fun v => ⟨fun hx => ?_, fun hx => by rw [hexec v x hx, hx]⟩)
    rcases hworkers v with hv | ⟨hv, -⟩
    · rwa [hv] at hx
    · cases (Worker.activity_of_executing hx).symm.trans hv
  refine ⟨?_, hqueue ▸ h.nodup, ?_, ?_, ?_, ?_, ?_, ?_, ?_⟩
  · simpa only [hheap, hnext] using h.fresh
  · simpa only [hheap, hqueue] using h.queued
  · intro v x hx
    rcases hworkers v with hv | ⟨hv, -⟩
    · rw [hv] at hx ⊢
      simpa only [hheap, hqueue] using h.held v x hx
    · cases hv.symm.trans hx
  · simpa only [hactivity] using h.once
  · simpa only [hheap, hqueue, hactivity] using h.gone
  · simpa only [hheap, hactive, hbusy] using h.active
  · simpa only [hheap, hactive, hadmitting, hbusy] using h.busy
  · intro caller x hx
    rw [hadmitting] at hx
    obtain ⟨act, hact, hnone, hwhere⟩ := h.admitting caller x hx
    refine ⟨act, hheap ▸ hact, hactive ▸ hnone, hwhere.imp (hqueue ▸ ·) ?_⟩
    rintro ⟨v, hv⟩
    exact ⟨v, by rw [hexec v x (hv ▸ rfl), hv]⟩

theorem of_update (h : Places { s with heap := update s.heap a (some act) })
    (hact : s.heap a = some act) : Places s := by
  rw [update_eq_self_iff.mpr hact.symm] at h
  exact h

variable (h : Places s)
include h

theorem fits (hw : s.workers w = st) (ha : st.activity = some a) (hact : s.heap a = some act) :
    st.Fits act := by
  obtain ⟨-, act0, hact0, hfit⟩ := h.held w a (hw ▸ ha)
  cases hact.symm.trans hact0
  exact hw ▸ hfit

/-- One activity moves on, with its worker, the queue and the map. -/
theorem moved (st' : Worker) (act' : Activity) (hact : s.heap a = some act)
    (hinv : act'.invocation = act.invocation)
    (hown : ∀ v x, (s.workers v).activity = some x → (v = w ↔ x = a))
    (hqueue : ∀ x, x ∈ queue ↔ x ∈ s.queue ∧ x ≠ a) (hnodup : queue.Nodup)
    (hfit : (st'.activity = none ∧ act'.Settled) ∨ (st'.activity = some a ∧ st'.Fits act'))
    (hbusy : st'.executing = some a → s.Busy a) (hactive : ∀ key x, active key = some x ↔
      s.active key = some x ∧ (x = a → st'.executing = some a))
    (hadm : ∀ caller, s.admitting = some (caller, a) → st' = .taken a) :
    Places { s with
      heap := update s.heap a (some act'), queue, active
      workers := update s.workers w st' } := by
  have hself : ∀ x, st'.activity = some x → x = a ∧ st'.Fits act' := by
    intro x hx
    rcases hfit with ⟨hnone, -⟩ | ⟨hsome, hfit⟩
    · cases hnone.symm.trans hx
    · exact ⟨Option.some.inj (hx.symm.trans hsome), hfit⟩
  have hcases : ∀ v x, (update s.workers w st' v).activity = some x →
      (v = w ∧ x = a) ∨ (v ≠ w ∧ x ≠ a ∧ (s.workers v).activity = some x) := by
    intro v x hx
    by_cases hv : v = w
    · subst hv
      exact .inl ⟨rfl, (hself x (by simpa using hx)).1⟩
    · rw [update_of_ne hv] at hx
      exact .inr ⟨hv, fun e => hv ((hown v x hx).mpr e), hx⟩
  have hother : ∀ v x, x ≠ a → (s.workers v).activity = some x →
      update s.workers w st' v = s.workers v :=
    fun v x hxa hx => update_of_ne (fun e => hxa ((hown v x hx).mp e)) _ _
  have hbusy' : ∀ x, (x ∈ queue ∨ ∃ v, (update s.workers w st' v).executing = some x) ↔
      s.Busy x ∧ (x = a → st'.executing = some a) := by
    intro x
    constructor
    · rintro (hq | ⟨v, hv⟩)
      · obtain ⟨hq, hxa⟩ := (hqueue x).mp hq
        exact ⟨.inl hq, fun e => absurd e hxa⟩
      · rcases hcases v x (Worker.activity_of_executing hv) with ⟨rfl, rfl⟩ | ⟨hvw, hxa, -⟩
        · rw [update_self] at hv
          exact ⟨hbusy hv, fun _ => hv⟩
        · rw [update_of_ne hvw] at hv
          exact ⟨.inr ⟨v, hv⟩, fun e => absurd e hxa⟩
    · rintro ⟨hb, hexec⟩
      by_cases hxa : x = a
      · exact .inr ⟨w, by rw [update_self, hexec hxa, hxa]⟩
      · refine hb.imp (fun hq => (hqueue x).mpr ⟨hq, hxa⟩) ?_
        rintro ⟨v, hv⟩
        exact ⟨v, by rw [hother v x hxa (Worker.activity_of_executing hv), hv]⟩
  refine ⟨?_, hnodup, ?_, ?_, ?_, ?_, ?_, ?_, ?_⟩
  · intro x act0 hx0
    by_cases hxa : x = a
    · exact hxa ▸ h.fresh a act hact
    · exact h.fresh x act0 (by simpa [hxa] using hx0)
  · intro x hq
    obtain ⟨hq, hxa⟩ := (hqueue x).mp hq
    simpa [hxa] using h.queued x hq
  · intro v x hvx
    rcases hcases v x hvx with ⟨rfl, rfl⟩ | ⟨hv, hxa, hx⟩
    · refine ⟨fun hq => ((hqueue x).mp hq).2 rfl, act', by simp, ?_⟩
      simpa using (hself x (by simpa using hvx)).2
    · obtain ⟨hq, hheld⟩ := h.held v x hx
      exact ⟨fun hq' => hq ((hqueue x).mp hq').1, by simpa [hxa, hv] using hheld⟩
  · intro v v' x hv hv'
    rcases hcases v x hv with ⟨rfl, rfl⟩ | ⟨-, hxa, hv⟩
    · exact ((hcases v' x hv').elim And.left fun hne => absurd rfl hne.2.1).symm
    · exact h.once v v' x hv ((hcases v' x hv').elim (fun heq => absurd heq.2 hxa) fun hne => hne.2.2)
  · intro x act0 hx0 hq hno
    by_cases hxa : x = a
    · subst hxa
      obtain rfl : act' = act0 := by simpa using hx0
      exact hfit.elim And.right fun hsome => absurd hsome.1 (by simpa using hno w)
    · refine h.gone x act0 (by simpa [hxa] using hx0) (fun hq' => hq ((hqueue x).mpr ⟨hq', hxa⟩)) ?_
      exact fun v hv => hno v ((congrArg Worker.activity (hother v x hxa hv)).trans hv)
  · intro key x hk
    obtain ⟨hk, hexec⟩ := (hactive key x).mp hk
    obtain ⟨act0, hx0, hkey, hb⟩ := h.active key x hk
    by_cases hxa : x = a
    · subst hxa
      cases hact.symm.trans hx0
      exact ⟨act', by simp, by rw [hinv, hkey], (hbusy' x).mpr ⟨hb, hexec⟩⟩
    · exact ⟨act0, by simpa [hxa] using hx0, hkey, (hbusy' x).mpr ⟨hb, hexec⟩⟩
  · intro x act0 hx0 hb
    obtain ⟨hb, hexec⟩ := (hbusy' x).mp hb
    obtain ⟨act1, hx1, hkey⟩ : ∃ act1, s.heap x = some act1 ∧ act0.invocation = act1.invocation := by
      by_cases hxa : x = a
      · subst hxa
        obtain rfl : act' = act0 := by simpa using hx0
        exact ⟨act, hact, hinv⟩
      · exact ⟨act0, by simpa [hxa] using hx0, rfl⟩
    rw [hkey]
    exact (h.busy x act1 hx1 hb).imp_left fun hk => (hactive _ _).mpr ⟨hk, hexec⟩
  · intro caller x hadm'
    obtain ⟨act0, hx0, hnone, hwhere⟩ := h.admitting caller x hadm'
    have hnone' : active act0.invocation.key = none := by
      refine Option.eq_none_iff_forall_ne_some.mpr fun y hy => ?_
      cases (((hactive _ y).mp hy).1).symm.trans hnone
    by_cases hxa : x = a
    · subst hxa
      cases hact.symm.trans hx0
      exact ⟨act', by simp, by rw [hinv]; exact hnone', .inr ⟨w, by simp [hadm caller hadm']⟩⟩
    · refine ⟨act0, by simpa [hxa] using hx0, hnone', ?_⟩
      refine hwhere.imp (fun hq => (hqueue x).mpr ⟨hq, hxa⟩) ?_
      rintro ⟨v, hv⟩
      exact ⟨v, (hother v x hxa (hv ▸ rfl)).trans hv⟩

theorem owned (ha : (s.workers w).activity = some a) :
    (∀ v x, (s.workers v).activity = some x → (v = w ↔ x = a)) ∧
      ∀ x, x ∈ s.queue ↔ x ∈ s.queue ∧ x ≠ a := by
  refine ⟨fun v x hv => ⟨?_, ?_⟩, fun x => ⟨fun hq => ⟨hq, ?_⟩, And.left⟩⟩
  · rintro rfl
    exact Option.some.inj (hv.symm.trans ha)
  · rintro rfl
    exact h.once v w x hv ha
  · rintro rfl
    exact (h.held w x ha).1 hq

theorem advance (hw : s.workers w = st) (st' : Worker) (act' : Activity) (ha : st.activity = some a)
    (ha' : st'.activity = some a) (hx : st'.executing = st.executing)
    (hmu : st ≠ .taken a ∨ s.admitting = none) (hact : s.heap a = some act)
    (hinv : act'.invocation = act.invocation) (hfit : st'.Fits act') :
    Places ((s.setActivity a act').setWorker w st') := by
  subst hw
  obtain ⟨hown, hqueue⟩ := h.owned ha
  refine h.moved st' act' hact hinv hown hqueue h.nodup (.inr ⟨ha', hfit⟩) (fun he => ?_) ?_ ?_
  · exact .inr ⟨w, hx ▸ he⟩
  · intro key x
    refine ⟨fun hk => ⟨hk, ?_⟩, And.left⟩
    rintro rfl
    obtain ⟨-, -, -, hq | ⟨v, hv⟩⟩ := h.active key x hk
    · exact absurd hq (h.held w x ha).1
    · obtain rfl := (hown v x (Worker.activity_of_executing hv)).mpr rfl
      rw [hx, hv]
  · intro caller hc
    obtain ⟨-, -, -, hq | ⟨v, hv⟩⟩ := h.admitting caller a hc
    · exact absurd hq (h.held w a ha).1
    · obtain rfl := (hown v a (hv ▸ rfl)).mpr rfl
      rcases hmu with hne | hnone
      · exact absurd hv hne
      · cases hnone.symm.trans hc

theorem finish (hw : s.workers w = st) (st' : Worker) (act' : Activity) (ha : st.activity = some a)
    (hx : st'.executing = none) (hmu : s.admitting = none ∨ st.executing = none)
    (hact : s.heap a = some act) (hinv : act'.invocation = act.invocation)
    (hfit : (st'.activity = none ∧ act'.Settled) ∨ (st'.activity = some a ∧ st'.Fits act'))
    (hactive : ∀ key x, active key = some x ↔ s.active key = some x ∧ x ≠ a) :
    Places { s with
      heap := update s.heap a (some act'), active
      workers := update s.workers w st' } := by
  subst hw
  obtain ⟨hown, hqueue⟩ := h.owned ha
  refine h.moved st' act' hact hinv hown hqueue h.nodup hfit (fun he => ?_) (fun key x => ?_) ?_
  · cases hx.symm.trans he
  · rw [hx, hactive]
    simp
  · intro caller hc
    have hidle := hmu.resolve_left fun hnone => absurd (hnone.symm.trans hc) (by simp)
    obtain ⟨-, -, -, hq | ⟨v, hv⟩⟩ := h.admitting caller a hc
    · exact absurd hq (h.held w a ha).1
    · obtain rfl := (hown v a (hv ▸ rfl)).mpr rfl
      rw [hv] at hidle
      cases hidle

theorem send (caller : Caller) (inv : Invocation) (hmu : s.admitting = none)
    (hnew : s.active inv.key = none) (hopen : s.closed = false) : Places (s.send caller inv) := by
  have hnext : ∀ x act0, s.heap x = some act0 → x ≠ s.next := fun x act0 hx =>
    Nat.ne_of_lt (h.fresh x act0 hx)
  have hq : ∀ x ∈ s.queue, x ≠ s.next := fun x hx => by
    obtain ⟨act0, hx0, -⟩ := h.queued x hx
    exact hnext x act0 hx0
  have hheld : ∀ v x, (s.workers v).activity = some x → x ≠ s.next := fun v x hx => by
    obtain ⟨-, act0, hx0, -⟩ := h.held v x hx
    exact hnext x act0 hx0
  have hbusy : ∀ x, x ≠ s.next →
      ((x ∈ s.queue ++ [s.next] ∨ ∃ v, (s.workers v).executing = some x) ↔ s.Busy x) := by
    intro x hx
    simp [Busy, hx]
  simp only [Runtime.send, hopen, Bool.false_eq_true, if_false]
  refine ⟨?_, ?_, ?_, ?_, h.once, ?_, ?_, ?_, ?_⟩
  · intro x act0 hx0
    by_cases hx : x = s.next
    · exact hx ▸ Nat.lt_succ_self _
    · exact Nat.lt_succ_of_lt (h.fresh x act0 (by simpa [hx] using hx0))
  · exact List.nodup_append.mpr ⟨h.nodup, by simp, by simpa using hq⟩
  · intro x hx
    rcases List.mem_append.mp hx with hx | hx
    · simpa [hq x hx] using h.queued x hx
    · obtain rfl := List.mem_singleton.mp hx
      exact ⟨.new caller.call inv, by simp, ⟨rfl, rfl, rfl, rfl, rfl⟩⟩
  · intro v x hx
    simpa [hheld v x hx] using h.held v x hx
  · intro x act0 hx0 hno hworkers
    have hx : x ≠ s.next := fun e => hno (by simp [e])
    exact h.gone x act0 (by simpa [hx] using hx0) (fun hx' => hno (by simp [hx'])) hworkers
  · intro key x hk
    obtain ⟨act0, hx0, hkey, hb⟩ := h.active key x hk
    have hx := hnext x act0 hx0
    exact ⟨act0, by simpa [hx] using hx0, hkey, (hbusy x hx).mpr hb⟩
  · intro x act0 hx0 hb
    by_cases hx : x = s.next
    · exact .inr ⟨caller, by rw [hx]⟩
    · rcases h.busy x act0 (by simpa [hx] using hx0) ((hbusy x hx).mp hb) with hk | ⟨c, hc⟩
      · exact .inl hk
      · exact absurd (hmu.symm.trans hc) (by simp)
  · intro c x hx
    obtain rfl : s.next = x := congrArg Prod.snd (Option.some.inj hx)
    exact ⟨.new caller.call inv, by simp, hnew, .inl (by simp)⟩

theorem insert {caller : Caller} (hmu : s.admitting = some (caller, a)) (hact : s.heap a = some act)
    (replies : List Reply) :
    Places { s with
      active := update s.active act.invocation.key (some a), admitting := none, replies } := by
  obtain ⟨act0, hact0, hnone, hwhere⟩ := h.admitting caller a hmu
  cases hact.symm.trans hact0
  refine ⟨h.fresh, h.nodup, h.queued, h.held, h.once, h.gone, ?_, ?_, ?_⟩
  · intro key x hk
    by_cases hkey : key = act.invocation.key
    · obtain rfl : a = x := by simpa [hkey] using hk
      refine ⟨act, hact, hkey.symm, hwhere.imp id ?_⟩
      rintro ⟨v, hv⟩
      exact ⟨v, hv ▸ rfl⟩
    · exact h.active key x (by simpa [hkey] using hk)
  · intro x act0 hx0 hb
    rcases h.busy x act0 hx0 hb with hk | ⟨c, hc⟩
    · have hkey : act0.invocation.key ≠ act.invocation.key := by
        intro e
        rw [e, hnone] at hk
        cases hk
      exact .inl (by simpa [hkey] using hk)
    · obtain rfl : a = x := congrArg Prod.snd (Option.some.inj (hmu.symm.trans hc))
      cases hact.symm.trans hx0
      exact .inl (by simp)
  · intro c x hx
    cases hx

theorem cancel (instanceId : Int) : Places (s.cancel instanceId) := by
  have hmap : ∀ x act0, (s.cancel instanceId).heap x = some act0 →
      ∃ act1, s.heap x = some act1 ∧ act1.Alike act0 := by
    intro x act0 hx
    obtain ⟨act1, hx1, rfl⟩ := Option.map_eq_some_iff.mp hx
    exact ⟨act1, hx1, alike_cancelIn⟩
  have hheap : ∀ x act1, s.heap x = some act1 →
      ∃ act0, (s.cancel instanceId).heap x = some act0 ∧ act1.Alike act0 := by
    intro x act1 hx
    exact ⟨s.cancelIn instanceId x act1, by simp [Runtime.cancel, hx], alike_cancelIn⟩
  refine ⟨?_, h.nodup, ?_, ?_, h.once, ?_, ?_, ?_, ?_⟩
  · intro x act0 hx
    obtain ⟨act1, hx1, -⟩ := hmap x act0 hx
    exact h.fresh x act1 hx1
  · intro x hq
    obtain ⟨act1, hx1, hun⟩ := h.queued x hq
    obtain ⟨act0, hx0, halike⟩ := hheap x act1 hx1
    exact ⟨act0, hx0, halike.unstarted hun⟩
  · intro v x hv
    obtain ⟨hq, act1, hx1, hfit⟩ := h.held v x hv
    obtain ⟨act0, hx0, halike⟩ := hheap x act1 hx1
    exact ⟨hq, act0, hx0, halike.fits hfit⟩
  · intro x act0 hx hq hno
    obtain ⟨act1, hx1, halike⟩ := hmap x act0 hx
    exact halike.settled (h.gone x act1 hx1 hq hno)
  · intro key x hk
    obtain ⟨act1, hx1, hkey, hb⟩ := h.active key x hk
    obtain ⟨act0, hx0, halike⟩ := hheap x act1 hx1
    exact ⟨act0, hx0, by rw [halike.invocation, hkey], hb⟩
  · intro x act0 hx hb
    obtain ⟨act1, hx1, halike⟩ := hmap x act0 hx
    rw [halike.invocation]
    exact h.busy x act1 hx1 hb
  · intro caller x hadm
    obtain ⟨act1, hx1, hnone, hwhere⟩ := h.admitting caller x hadm
    obtain ⟨act0, hx0, halike⟩ := hheap x act1 hx1
    exact ⟨act0, hx0, by rw [halike.invocation]; exact hnone, hwhere⟩

theorem receive (hw : s.workers w = .idle) (hq : s.queue = a :: queue) :
    Places ({ s with queue }.setWorker w (.taken a)) := by
  obtain ⟨hnot, hnodup⟩ : a ∉ queue ∧ queue.Nodup := List.nodup_cons.mp (hq ▸ h.nodup)
  have hmem : a ∈ s.queue := by simp [hq]
  obtain ⟨act, hact, hun⟩ := h.queued a hmem
  have hsame : update s.heap a (some act) = s.heap := update_eq_self_iff.mpr hact.symm
  rw [← hsame]
  refine h.moved (.taken a) act hact rfl (fun v x hv => ?_) (fun x => ?_) hnodup (.inr ⟨rfl, hun⟩)
    (fun _ => .inl hmem) (fun _ _ => (and_iff_left fun _ => rfl).symm) fun _ _ => rfl
  · refine iff_of_false ?_ ?_
    · rintro rfl
      rw [hw] at hv
      cases hv
    · rintro rfl
      exact (h.held v x hv).1 hmem
  · rw [hq, List.mem_cons]
    refine ⟨fun hx => ⟨.inr hx, fun e => hnot (e ▸ hx)⟩, fun hx => hx.1.resolve_left hx.2⟩

theorem forget_iff (hact : s.heap a = some act) (hbusy : s.Busy a) (hmu : s.admitting = none)
    (key : AttemptKey) (x : ℕ) :
    update s.active act.invocation.key none key = some x ↔
      s.active key = some x ∧ x ≠ a := by
  have hown : s.active act.invocation.key = some a :=
    (h.busy a act hact hbusy).resolve_right fun ⟨_, hc⟩ => absurd (hmu.symm.trans hc) (by simp)
  by_cases hkey : key = act.invocation.key
  · simp only [hkey, hown, update_self]
    exact ⟨fun hx => (Option.some_ne_none x hx.symm).elim, fun hx => absurd (Option.some.inj hx.1).symm hx.2⟩
  · simp only [update_of_ne hkey, iff_self_and]
    rintro hk rfl
    obtain ⟨act0, hact0, hkey0, -⟩ := h.active key x hk
    cases hact.symm.trans hact0
    exact hkey hkey0.symm

theorem inactive_iff (hw : s.workers w = st) (ha : st.activity = some a) (hx : st.executing = none)
    (key : AttemptKey) (x : ℕ) : s.active key = some x ↔ s.active key = some x ∧ x ≠ a := by
  subst hw
  refine ⟨fun hk => ⟨hk, ?_⟩, And.left⟩
  rintro rfl
  obtain ⟨-, -, -, hq | ⟨v, hv⟩⟩ := h.active key x hk
  · exact (h.held w x ha).1 hq
  · obtain rfl := h.once v w x (Worker.activity_of_executing hv) ha
    cases hx.symm.trans hv

end Places

/-! ## The life of the process -/

structure Lifecycle (cfg : Config) (s : Runtime) : Prop where
  closed : s.closed = s.stopping
  room : s.queue.length ≤ cfg.limits.queueCapacity
  spawned : s.started = false → ∀ v, s.workers v = .absent
  watched : s.watch ≠ .absent → s.started = true
  done : s.done = true → s.watch = .finished ∨ (s.started = false ∧ s.stopping = true)
  calm : s.panicked = false

theorem lifecycle_init : Lifecycle cfg .init := by
  constructor <;> simp [init]

/-- One step keeps the order of start, stop and end. -/
theorem lifecycle_step (h : Lifecycle cfg s) (hc : Change cfg s s') : Lifecycle cfg s' := by
  -- a worker that is there has been started
  have hset : ∀ w (ws : ℕ → Worker), s.workers w ≠ .absent → s.started = false → ∀ v, ws v = .absent :=
    fun w _ hw hs => absurd (h.spawned hs w) hw
  cases hc with
  | started _ _ hstop hstart =>
    refine { h with spawned := nofun, watched := fun _ => rfl, done := fun hd => ?_ }
    rcases h.done hd with hw | hw
    · rw [h.watched (by simp [hw])] at hstart; cases hstart
    · rw [hw.2] at hstop; cases hstop
  | sent _ _ _ _ _ hstop _ hroom =>
    have hopen : s.closed = false := by rw [h.closed, hstop]
    have hlen := hroom.resolve_left (by simp [hopen])
    simp only [send, hopen]
    exact { h with closed := by simp [hstop], room := by simpa using Nat.succ_le_of_lt hlen }
  | stopped =>
    unfold stop
    split
    · exact h
    next hstop =>
      have hopen : s.closed = false := by simpa [h.closed] using hstop
      simp only [closeQueue, hopen, Bool.false_eq_true, if_false]
      split
      next hstart =>
        exact { h with
          closed := rfl
          spawned := fun hs => absurd (hstart.symm.trans hs) (by simp)
          watched := fun _ => hstart
          done := fun hd => (h.done hd).imp id fun hw => ⟨hw.1, rfl⟩ }
      next hstart =>
        have hstart : s.started = false := by simpa using hstart
        have hdone : s.done = false := by
          by_contra hd
          rcases h.done (by simpa using hd) with hw | hw
          · exact absurd (hstart.symm.trans (h.watched (by simp [hw]))) (by simp)
          · exact hstop hw.2
        simp only [hdone]
        exact { h with
          closed := rfl, spawned := fun _ => h.spawned hstart, done := fun _ => .inr ⟨hstart, rfl⟩ }
  | received w a _ hw hq =>
    have hroom := hq ▸ h.room
    exact { h with room := Nat.le_of_succ_le hroom, spawned := hset w _ (by simp [hw]) }
  | exited w hw | skipped w a act hmu hw | begun w a act hmu hw | called w a act hw
  | left w a act report hw | released w a act report hmu hw | handed w a act report now r hw
  | blocked w a report now changed hw | woken w a report changed hw =>
    exact { h with spawned := hset w _ (by simp [hw]) }
  | discarded w a _ _ hw =>
    refine { h with spawned := hset w _ ?_ }
    rcases hw with hw | ⟨_, hw⟩ <;> simp [hw]
  | workersDone hwatch =>
    have hstart := h.watched (by simp [hwatch])
    refine { h with watched := fun _ => hstart, done := fun hd => ?_ }
    rcases h.done hd with hw | hw
    · rw [hwatch] at hw; cases hw
    · rw [hstart] at hw; cases hw.1
  | reporterDone _ hwatch =>
    have hstart := h.watched (by simp [hwatch])
    have hdone : s.done = false := by
      by_contra hd
      rcases h.done (by simpa using hd) with hw | hw
      · rw [hwatch] at hw; cases hw
      · rw [hstart] at hw; cases hw.1
    simp only [hdone]
    exact { h with watched := fun _ => hstart, done := fun _ => .inl rfl }
  | _ => exact { h with }

/-! ## All places, in every run -/

/-- One step keeps every activity in its one place. -/
theorem places_step (hl : Lifecycle cfg s) (h : Places s) (hc : Change cfg s s') : Places s' := by
  cases hc with
  | reporterDone =>
    have hsame := sameWork_closeDone (s := { s with ctxDone := true, watch := .finished })
    exact h.congr hsame.heap hsame.next hsame.queue hsame.active hsame.admitting fun _ =>
      .inl (by rw [hsame.workers])
  | stopped =>
    have hsame := sameWork_stop (s := s)
    exact h.congr hsame.heap hsame.next hsame.queue hsame.active hsame.admitting fun _ =>
      .inl (by rw [hsame.workers])
  | started _ _ _ hstart =>
    refine h.congr rfl rfl rfl rfl rfl fun v => .inr ⟨?_, by rw [hl.spawned hstart v]; rfl⟩
    dsimp only
    split <;> rfl
  | sent _ inv _ hmu hnew hstop => exact h.send _ inv hmu hnew (by rw [hl.closed, hstop])
  | inserted _ a _ hmu hact => exact h.insert hmu hact _
  | cancelled instanceId => exact h.cancel instanceId
  | received w a _ hw hq => exact h.receive hw hq
  | exited w hw =>
    refine h.congr rfl rfl rfl rfl rfl fun v => ?_
    by_cases hv : v = w
    · subst hv
      exact .inr ⟨by simp [setWorker, Worker.activity], by simp [hw, Worker.activity]⟩
    · exact .inl (by simp [setWorker, hv])
  | skipped w a act hmu hw hact =>
    have hun : act.Unstarted := h.fits hw rfl hact
    have hbusy : s.Busy a := .inr ⟨w, hw ▸ rfl⟩
    exact (h.finish hw .idle act rfl rfl (.inl hmu) hact rfl (.inl ⟨rfl, .inl hun⟩)
      (h.forget_iff hact hbusy hmu)).of_update hact
  | begun w a act hmu hw hact =>
    have hun : act.Unstarted := h.fits hw rfl hact
    exact h.advance hw (.begun a) _ rfl rfl rfl (.inr hmu) hact rfl
      ⟨rfl, hun.invoked, hun.returned, hun.handed, hun.discarded⟩
  | called w a _ hw hact =>
    obtain ⟨hs, hi, hr, hh, hd⟩ := h.fits hw rfl hact
    exact h.advance hw (.running a) _ rfl rfl rfl (.inl nofun) hact rfl
      ⟨hs, by simp [hi], hr, hh, hd⟩
  | left w a _ report hw hact =>
    obtain ⟨_, hi, hr, hh, hd⟩ := h.fits hw rfl hact
    exact h.advance hw (.returned a report) _ rfl rfl rfl (.inl nofun) hact rfl
      ⟨rfl, hi, by simp [hr], hh, hd⟩
  | released w a act report hmu hw hact =>
    have hfit := h.fits hw rfl hact
    have hbusy : s.Busy a := .inr ⟨w, hw ▸ rfl⟩
    exact (h.finish hw (.handing a report) act rfl rfl (.inl hmu) hact rfl (.inr ⟨rfl, hfit⟩)
      (h.forget_iff hact hbusy hmu)).of_update hact
  | handed w a act _ _ _ hw hact =>
    obtain ⟨-, hi, hr, hh, hd⟩ := h.fits hw rfl hact
    exact (h.finish hw .idle { act with handed := act.handed + 1 } rfl rfl (.inr rfl) hact rfl
      (.inl ⟨rfl, .inr ⟨hi, hr, by simp [hh, hd]⟩⟩) (h.inactive_iff hw rfl rfl)).congr rfl rfl rfl rfl rfl
      fun _ => .inl rfl
  | discarded w a act report hw hact =>
    have discard : ∀ {st : Worker}, s.workers w = st → st.Fits act = (Worker.handing a report).Fits act →
        st.activity = some a → st.executing = none →
        Places ((s.setActivity a { act with discarded := act.discarded + 1 }).setWorker w .idle) := by
      intro st hw hsame ha hx
      obtain ⟨-, hi, hr, hh, hd⟩ := hsame ▸ h.fits hw ha hact
      exact h.finish hw .idle { act with discarded := act.discarded + 1 } ha rfl (.inr hx) hact rfl
        (.inl ⟨rfl, .inr ⟨hi, hr, by simp [hh, hd]⟩⟩) (h.inactive_iff hw ha hx)
    rcases hw with hw | ⟨_, hw⟩ <;> exact discard hw rfl rfl rfl
  | blocked w a report _ changed hw =>
    obtain ⟨act, hact, -⟩ := (h.held w a (hw ▸ rfl)).2
    have hfit := h.fits hw rfl hact
    have hplaces : Places (s.setWorker w (.waiting a report changed)) :=
      Places.of_update (h.advance hw _ act rfl rfl rfl (.inl nofun) hact rfl hfit) hact
    exact hplaces.congr rfl rfl rfl rfl rfl fun _ => .inl rfl
  | woken w a report _ hw =>
    obtain ⟨act, hact, -⟩ := (h.held w a (hw ▸ rfl)).2
    have hfit := h.fits hw rfl hact
    exact Places.of_update
      (h.advance hw _ act rfl rfl rfl (.inl nofun) hact rfl hfit) hact
  | _ =>
    exact h.congr rfl rfl rfl rfl rfl fun _ => .inl rfl

end Runtime

end Dogx.Executor
