import Dogx.InstanceStop.Queue
import Dogx.Machine.Run
import Dogx.Queue.Slots

/-!
# Turns of the stop queue

An ID that the queue retains waits or has its turn with one worker. A turn is a bounded number of
batches; with more to do at its end the ID goes behind everything that waits.
-/

namespace Dogx.InstanceStop

open Machine

variable {cfg : Config} {q q' : Queue} {m : QueueMove} {ms : List QueueMove} {i j : ℕ} {id id' : ℤ}

def stopQueue (cfg : Config) : Machine Queue QueueMove := { init := .init, step := Queue.step cfg }

def Worker.holds : Worker → Option ℤ
  | .turning id _ _ | .calling id _ _ | .completing id _ => some id
  | .ready | .exited => none

theorem Queue.setWorker_self (q : Queue) (i : ℕ) (w : Worker) : (q.setWorker i w).workers i = w :=
  Function.update_self ..

/-! ## Steps -/

inductive Turn (cfg : Config) : Worker → Worker → Prop where
  | ended (id : ℤ) (batches : ℕ) (limit : ℤ) : Turn cfg (.turning id batches limit) (.completing id false)
  | calls (id : ℤ) (batches : ℕ) (limit : ℤ) (room : batches < cfg.maxBatches) :
      Turn cfg (.turning id batches limit) (.calling id (batches + 1) limit)
  | spent (id : ℤ) (batches : ℕ) (limit : ℤ) : Turn cfg (.turning id batches limit) (.completing id true)
  | again (id : ℤ) (batches : ℕ) (limit : ℤ) :
      Turn cfg (.calling id batches limit) (.turning id batches limit)
  | leaves (id : ℤ) (batches : ℕ) (limit : ℤ) (more : Bool) :
      Turn cfg (.calling id batches limit) (.completing id more)

theorem Turn.holds_eq {w w' : Worker} (h : Turn cfg w w') : w'.holds = w.holds := by cases h <;> rfl

inductive Queue.Change (cfg : Config) (q : Queue) : QueueMove → Queue → Prop where
  | flags {m : QueueMove} {q' : Queue} (other : ∀ now i, m ≠ .take now i)
      (entries : q'.entries = q.entries) (pending : q'.pending = q.pending)
      (workers : q'.workers = q.workers) : Queue.Change cfg q m q'
  | admits (id : ℤ) (new : id ∉ q.entries) (room : q.entries.length ≠ cfg.capacity) :
      Queue.Change cfg q (.hint id) { q with entries := q.entries ++ [id], pending := q.pending ++ [id] }
  | takes (now : ℤ) (i : ℕ) (id : ℤ) (pending : List ℤ) (bound : i < cfg.concurrency)
      (free : q.workers i = .ready) (first : q.pending = id :: pending) :
      Queue.Change cfg q (.take now i)
        ({ q with pending }.setWorker i (.turning id 0 (now + cfg.runTimeout)))
  | exits (now : ℤ) (i : ℕ) (free : q.workers i = .ready) :
      Queue.Change cfg q (.take now i) (q.setWorker i .exited)
  | turns {m : QueueMove} (i : ℕ) (w : Worker) (other : ∀ now j, m ≠ .take now j)
      (turn : Turn cfg (q.workers i) w) : Queue.Change cfg q m (q.setWorker i w)
  | rotates (i : ℕ) (id : ℤ) (turn : q.workers i = .completing id true) (live : q.canceled = false) :
      Queue.Change cfg q (.complete i) ({ q with pending := q.pending ++ [id] }.setWorker i .ready)
  | releases (i : ℕ) (id : ℤ) (more : Bool) (turn : q.workers i = .completing id more) :
      Queue.Change cfg q (.complete i)
        ({ q with entries := q.entries.erase id, fullLogged := false }.setWorker i .ready)
  | finishes (exited : ∀ i < cfg.concurrency, q.workers i = .exited) :
      Queue.Change cfg q .finish { q with pending := [], entries := [], canceled := true, completed := true }

theorem Queue.Change.of_hint (id : ℤ) : Queue.Change cfg q (.hint id) (q.hint cfg id).2 := by
  unfold Queue.hint
  split
  · exact .flags nofun rfl rfl rfl
  split
  · exact .flags nofun rfl rfl rfl
  split
  · exact .flags nofun rfl rfl rfl
  · exact .admits id ‹_› ‹_›

theorem Queue.stop_frame (q : Queue) :
    q.stop.entries = q.entries ∧ q.stop.pending = q.pending ∧ q.stop.workers = q.workers := by
  unfold Queue.stop
  repeat' split
  all_goals exact ⟨rfl, rfl, rfl⟩

theorem Queue.Change.of_drain : Queue.Change cfg q .drain q.drain := by
  obtain ⟨hentries, hpending, hworkers⟩ := q.stop_frame
  unfold Queue.drain
  dsimp only
  split
  · exact .flags nofun hentries hpending hworkers
  · exact .flags nofun hentries hpending hworkers

/-- Every step of the queue is one of the changes. -/
theorem Queue.Change.of_step (h : q.step cfg m = some q') : Queue.Change cfg q m q' := by
  cases m with
  | start =>
    obtain ⟨-, h⟩ := Option.ite_none_left_eq_some.mp h
    cases h
    exact .flags nofun rfl rfl rfl
  | hint id =>
    cases h
    exact .of_hint id
  | stop =>
    cases h
    obtain ⟨hentries, hpending, hworkers⟩ := q.stop_frame
    exact .flags nofun hentries hpending hworkers
  | drain =>
    cases h
    exact .of_drain
  | expire =>
    obtain ⟨-, h⟩ := Option.ite_none_right_eq_some.mp h
    cases h
    exact .flags nofun rfl rfl rfl
  | take now i =>
    obtain ⟨hguard, h⟩ := Option.ite_none_right_eq_some.mp h
    simp only [Bool.and_eq_true, decide_eq_true_eq] at hguard
    unfold Queue.take at h
    split at h
    · cases h
      exact .exits now i hguard.2
    · split at h <;> cases h
      exact .takes now i _ _ hguard.1.2 hguard.2 ‹_›
  | batch i ended =>
    dsimp only [Queue.step] at h
    split at h
    · rename_i id batches limit hw
      split at h
      · cases h
        exact .turns i _ nofun (hw ▸ .ended id batches limit)
      · split at h <;> cases h
        · exact .turns i _ nofun (hw ▸ .calls id batches limit ‹_›)
        · exact .turns i _ nofun (hw ▸ .spent id batches limit)
    · cases h
  | processed _ i =>
    dsimp only [Queue.step] at h
    split at h
    · rename_i id batches limit hw
      cases h
      refine .turns i _ nofun ?_
      rw [hw]
      split
      · exact .leaves id batches limit true
      · exact .again id batches limit
    · rename_i id batches limit hw _
      cases h
      exact .turns i _ nofun (hw ▸ .leaves id batches limit false)
    · cases h
  | complete i =>
    dsimp only [Queue.step] at h
    split at h
    · rename_i id more hw
      cases h
      unfold Queue.complete
      split
      · rename_i hrotate
        simp only [Bool.and_eq_true, Bool.not_eq_true'] at hrotate
        obtain ⟨rfl, hlive⟩ := hrotate
        exact .rotates i id hw hlive
      · exact .releases i id more hw
    · cases h
  | finish =>
    obtain ⟨hguard, h⟩ := Option.ite_none_right_eq_some.mp h
    cases h
    simp only [Bool.and_eq_true, List.all_eq_true, List.mem_range, decide_eq_true_eq] at hguard
    exact .finishes hguard.2

/-! ## What always holds -/

def Worker.left (cfg : Config) : Worker → ℕ
  | .turning _ batches _ | .calling _ batches _ => cfg.maxBatches - batches
  | .completing _ _ | .ready | .exited => 0

structure Held (cfg : Config) (q : Queue) : Prop where
  slots : Queue.Slots cfg.concurrency q.workers Worker.holds q.pending q.entries
  bound : q.entries.length ≤ cfg.capacity

theorem Held.init : Held cfg .init := ⟨.empty fun _ => rfl, Nat.zero_le _⟩

/-- One step keeps entries and workers in agreement. -/
theorem Held.change (h : Held cfg q) (hc : Queue.Change cfg q m q') : Held cfg q' := by
  cases hc with
  | flags _ entries pending workers =>
    refine ⟨?_, ?_⟩
    · rw [entries, pending, workers]
      exact h.slots
    · rw [entries]
      exact h.bound
  | admits _ new room =>
    refine ⟨h.slots.add new, ?_⟩
    rw [List.length_append]
    exact Nat.lt_of_le_of_ne h.bound room
  | takes _ i _ _ bound free first =>
    exact ⟨h.slots.take bound (free ▸ rfl) rfl (.of_eq first), h.bound⟩
  | exits _ i free => exact ⟨h.slots.stay (free ▸ rfl), h.bound⟩
  | turns i w _ turn => exact ⟨h.slots.stay turn.holds_eq, h.bound⟩
  | rotates i _ turn =>
    refine ⟨h.slots.requeue (by rw [turn]; rfl) rfl ?_, h.bound⟩
    exact List.perm_append_comm
  | releases i id _ turn =>
    have hmem : id ∈ q.entries := h.slots.mem_held (by rw [turn]; rfl)
    refine ⟨h.slots.release (turn ▸ rfl) rfl (List.perm_cons_erase hmem), ?_⟩
    exact Nat.le_trans List.length_erase_le h.bound
  | finishes exited =>
    refine ⟨.empty fun i => ?_, Nat.zero_le _⟩
    -- nobody holds anything: the workers of the pool have exited
    by_contra hheld
    rw [exited i (h.slots.pool i hheld)] at hheld
    exact hheld rfl

theorem held (cfg : Config) : (stopQueue cfg).Invariant (Held cfg) where
  init := .init
  step := fun _ _ _ h hm => h.change (.of_step hm)

/-! ## Batches of a turn -/

def Worker.isCalling : Worker → Bool
  | .calling _ _ _ => true
  | _ => false

/-- How often worker `i` calls `ProcessBatch` in the run. -/
def calls (cfg : Config) (i : ℕ) (q : Queue) : List QueueMove → ℕ
  | [] => 0
  | m :: ms =>
    match q.step cfg m with
    | none => 0
    | some q' =>
      (!(q.workers i).isCalling && (q'.workers i).isCalling).toNat + calls cfg i q' ms

theorem Turn.left_add_call {w w' : Worker} (h : Turn cfg w w') :
    (!w.isCalling && w'.isCalling).toNat + w'.left cfg ≤ w.left cfg := by
  cases h with
  | calls =>
    simp only [Worker.isCalling, Worker.left, Bool.not_false, Bool.and_self, Bool.toNat_true]
    omega
  | _ => simp [Worker.isCalling, Worker.left]

theorem Queue.Change.worker (hc : Queue.Change cfg q m q') (hm : ∀ now, m ≠ .take now i) :
    q'.workers i = q.workers i ∨ Turn cfg (q.workers i) (q'.workers i) ∨ q'.workers i = .ready := by
  cases hc with
  | flags _ _ _ workers => exact .inl (by rw [workers])
  | admits | finishes => exact .inl rfl
  | takes now k | exits now k =>
    have hk : i ≠ k := by
      rintro rfl
      exact hm now rfl
    exact .inl (Function.update_of_ne hk _ _)
  | turns k w _ turn =>
    by_cases hk : i = k
    · subst hk
      exact .inr (.inl (by rw [Queue.setWorker_self]; exact turn))
    · exact .inl (Function.update_of_ne hk _ _)
  | rotates k | releases k =>
    by_cases hk : i = k
    · subst hk
      exact .inr (.inr (Queue.setWorker_self ..))
    · exact .inl (Function.update_of_ne hk _ _)

theorem Queue.Change.left_add_call (hc : Queue.Change cfg q m q') (hm : ∀ now, m ≠ .take now i) :
    (!(q.workers i).isCalling && (q'.workers i).isCalling).toNat + (q'.workers i).left cfg ≤
      (q.workers i).left cfg := by
  rcases hc.worker hm with hw | hturn | hw
  · simp [hw]
  · exact hturn.left_add_call
  · simp [hw, Worker.isCalling, Worker.left]

/-- A turn has no more calls than batches left. -/
theorem calls_le (hms : ∀ now, .take now i ∉ ms) : calls cfg i q ms ≤ (q.workers i).left cfg := by
  induction ms generalizing q with
  | nil => exact Nat.zero_le _
  | cons m _ ih =>
    unfold calls
    split
    · exact Nat.zero_le _
    · rename_i q' hm
      have hfirst : ∀ now, m ≠ .take now i := by
        rintro now rfl
        exact hms now List.mem_cons_self
      have hle := (Queue.Change.of_step hm).left_add_call hfirst
      have hrest := ih (q := q') fun now hmem => hms now (List.mem_cons_of_mem _ hmem)
      omega

/-! ## Order -/

def Takes (i : ℕ) (id : ℤ) (m : QueueMove) (q' : Queue) : Prop :=
  ∃ now, m = .take now i ∧ (q'.workers i).holds = some id

def Behind (cfg : Config) (id' id : ℤ) (q : Queue) : Prop :=
  (∃ front back, q.pending = front ++ id :: back ∧ id' ∈ front) ∨
    ∀ i < cfg.concurrency, q.workers i = .exited

theorem exited_of_set {w : Worker} (h : ∀ i < cfg.concurrency, q.workers i = .exited)
    (hw : q.workers j = .exited → w = .exited) :
    ∀ i < cfg.concurrency, (q.setWorker j w).workers i = .exited := by
  intro i hi
  by_cases hij : i = j
  · subst hij
    rw [Queue.setWorker_self]
    exact hw (h i hi)
  · exact (Function.update_of_ne hij _ _).trans (h i hi)

/-- The ID stays behind until the other one is taken. -/
theorem Behind.step (h : Behind cfg id' id q) (hc : Queue.Change cfg q m q') :
    Behind cfg id' id q' ∨ ∃ i, Takes i id' m q' := by
  have keep : ∀ {p : Queue} {w : Worker} {j : ℕ} (back' : List ℤ), p.pending = q.pending ++ back' →
      p.workers = q.workers → (q.workers j = .exited → w = .exited) →
      Behind cfg id' id (p.setWorker j w) := by
    intro p w j back' hpending hworkers hw
    rcases h with ⟨front, back, hq, hmem⟩ | hexited
    · exact .inl ⟨front, back ++ back', by simp [Queue.setWorker, hpending, hq], hmem⟩
    · refine .inr (exited_of_set ?_ ?_) <;> rw [hworkers]
      · exact hexited
      · exact hw
  cases hc with
  | flags _ _ pending workers =>
    refine .inl ?_
    unfold Behind
    rw [pending, workers]
    exact h
  | admits x =>
    refine .inl ?_
    rcases h with ⟨front, back, hq, hmem⟩ | hexited
    · exact .inl ⟨front, back ++ [x], by simp [hq], hmem⟩
    · exact .inr hexited
  | takes now i x _ bound free first =>
    rcases h with ⟨front, back, hq, hmem⟩ | hexited
    · cases front with
      | nil => cases hmem
      | cons y front =>
        rw [first] at hq
        obtain ⟨rfl, hpending⟩ := List.cons.inj hq
        rcases List.mem_cons.mp hmem with rfl | hmem
        · exact .inr ⟨i, now, rfl, by rw [Queue.setWorker_self]; rfl⟩
        · exact .inl (.inl ⟨front, back, hpending, hmem⟩)
    · cases (hexited i bound).symm.trans free
  | exits => exact .inl (keep [] (List.append_nil _).symm rfl fun _ => rfl)
  | turns i w _ turn =>
    refine .inl (keep [] (List.append_nil _).symm rfl fun hw => ?_)
    rw [hw] at turn
    cases turn
  | rotates i x turn =>
    refine .inl (keep [x] rfl rfl fun hw => ?_)
    cases hw.symm.trans turn
  | releases i x _ turn =>
    refine .inl (keep [] (List.append_nil _).symm rfl fun hw => ?_)
    cases hw.symm.trans turn
  | finishes exited => exact .inl (.inr exited)

theorem Behind.not_next (hh : Held cfg q) (h : Behind cfg id' id q) (hc : Queue.Change cfg q m q') :
    ¬ Takes i id m q' := by
  rintro ⟨now, rfl, hholds⟩
  cases hc with
  | flags other => exact other now i rfl
  | turns _ _ other => exact other now i rfl
  | exits =>
    rw [Queue.setWorker_self] at hholds
    cases hholds
  | takes _ _ x _ bound free first =>
    rw [Queue.setWorker_self] at hholds
    cases hholds
    rcases h with ⟨front, back, hq, hmem⟩ | hexited
    · cases front with
      | nil => cases hmem
      | cons =>
        -- the ID would wait twice
        have hnodup := hh.slots.nodup_waiting
        rw [hq] at hnodup
        rw [first] at hq
        obtain ⟨rfl, -⟩ := List.cons.inj hq
        rw [List.cons_append, List.nodup_cons] at hnodup
        exact hnodup.1 (List.mem_append_right _ List.mem_cons_self)
    · cases (hexited i bound).symm.trans free

theorem Queue.Change.holds_or_takes (hc : Queue.Change cfg q m q') (h : (q.workers i).holds ≠ some id) :
    (q'.workers i).holds ≠ some id ∨ Takes i id m q' := by
  by_cases hm : ∃ now, m = .take now i
  · obtain ⟨now, rfl⟩ := hm
    by_cases hholds : (q'.workers i).holds = some id
    · exact .inr ⟨now, rfl, hholds⟩
    · exact .inl hholds
  · refine .inl ?_
    rcases hc.worker fun now heq => hm ⟨now, heq⟩ with hw | hturn | hw
    · rw [hw]
      exact h
    · rw [hturn.holds_eq]
      exact h
    · rw [hw]
      nofun

theorem Queue.Change.released (hc : Queue.Change cfg q m q') (h : id ∈ q.entries) (h' : id ∉ q'.entries) :
    m = .finish ∨ ∃ i, m = .complete i ∧ (q.workers i).holds = some id := by
  cases hc with
  | flags _ entries => exact absurd (entries ▸ h) h'
  | admits => exact absurd (List.mem_append_left _ h) h'
  | releases i x _ turn =>
    refine .inr ⟨i, rfl, ?_⟩
    rw [turn]
    by_contra hne
    have hx : id ≠ x := fun heq => hne (heq ▸ rfl)
    exact h' ((List.mem_erase_of_ne hx).mpr h)
  | finishes => exact .inl rfl
  | _ => exact absurd h h'

/-! ## Whole runs -/

variable {q₀ q₁ : Queue}

theorem exists_takes (hr : (stopQueue cfg).runFrom q₀ ms = some q₁) (h0 : Held cfg q₀)
    (hfree : (q₀.workers i).holds ≠ some id) (hheld : (q₁.workers i).holds = some id) :
    ∃ t m t', (stopQueue cfg).StepIn q₀ ms q₁ t m t' ∧ Takes i id m t' := by
  refine ((Along.of_any hr).keeps_or (P := fun q => (q.workers i).holds ≠ some id)
    (held cfg) (fun _ _ _ _ hp hm _ => ?_) h0 hfree).resolve_left
    fun h => h hheld
  exact (Queue.Change.of_step hm).holds_or_takes hp

theorem taken_before (hr : (stopQueue cfg).runFrom q₀ ms = some q₁) (h0 : Held cfg q₀)
    (hbehind : Behind cfg id' id q₀) (hm : q₁.step cfg m = some q') (htakes : Takes i id m q') :
    ∃ t m t', (stopQueue cfg).StepIn q₀ ms q₁ t m t' ∧ ∃ j, Takes j id' m t' := by
  refine ((Along.of_any hr).keeps_or
    (held cfg)
    (fun _ _ _ _ hp hm _ => hp.step (.of_step hm)) h0 hbehind).resolve_left fun h => ?_
  exact h.not_next ((held cfg).runFrom h0 hr) (.of_step hm) htakes

/--
The stop queue. As long as its context lives, an ID with more to do at the end of its turn keeps its
place and waits behind all others.
-/
theorem stop_queue_turns (cfg : Config) (ms : List QueueMove) (q : Queue)
    (h : (stopQueue cfg).run ms = some q) :
    q.entries.length ≤ cfg.capacity ∧ q.entries.Nodup ∧
    (∀ id ∈ q.entries, (q.pending.count id = 1 ∧ ∀ i, (q.workers i).holds ≠ some id) ∨
      id ∉ q.pending ∧ ∃ i, (q.workers i).holds = some id ∧ ∀ j, (q.workers j).holds = some id → j = i) ∧
    -- the rest of a turn, from its begin and from an answer that ends it
    (∀ now i q₀ ms', q.step cfg (.take now i) = some q₀ → (∀ now, .take now i ∉ ms') →
      calls cfg i q₀ ms' ≤ cfg.maxBatches) ∧
    (∀ now i more q₀ ms', more ≠ some true → q.step cfg (.processed now i more) = some q₀ →
      (∀ now, .take now i ∉ ms') → calls cfg i q₀ ms' = 0) ∧
    -- the end of a turn with more to do
    (∀ i id q₀, q.workers i = .completing id true → q.canceled = false →
      q.step cfg (.complete i) = some q₀ →
      id ∈ q₀.entries ∧ q₀.pending = q.pending ++ [id] ∧
        ∀ ms' q₁ m q₂ j, (stopQueue cfg).runFrom q₀ ms' = some q₁ → q₁.step cfg m = some q₂ →
          Takes j id m q₂ → ∀ id' ∈ q.pending,
            ∃ t m t', (stopQueue cfg).StepIn q₀ ms' q₁ t m t' ∧ ∃ k, Takes k id' m t') ∧
    (∀ i id q₀, q.workers i = .completing id true → q.canceled = true →
      q.step cfg (.complete i) = some q₀ → id ∉ q₀.entries ∧ q₀.pending = q.pending) ∧
    -- an ID that is admitted after its release
    ∀ i id q₀ ms' q₁ m q₂, q.step cfg (.complete i) = some q₀ → id ∉ q₀.entries →
      (stopQueue cfg).runFrom q₀ ms' = some q₁ → id ∈ q₁.entries → q₁.step cfg m = some q₂ →
      id ∉ q₂.entries → m = .finish ∨ ∃ k, m = .complete k ∧
        ∃ t m' t', (stopQueue cfg).StepIn q₀ ms' q₁ t m' t' ∧ Takes k id m' t' := by
  have hheld := (held cfg).run h
  have next : ∀ {m q₀}, q.step cfg m = some q₀ → Held cfg q₀ := fun hm => hheld.change (.of_step hm)
  refine ⟨hheld.bound, hheld.slots.nodup, fun id => hheld.slots.once, ?_, ?_, ?_, ?_, ?_⟩
  · intro now i q₀ ms' hm hms
    refine Nat.le_trans (calls_le hms) ?_
    cases Queue.Change.of_step hm with
    | flags other | turns _ _ other => exact absurd rfl (other now i)
    | takes | exits =>
      rw [Queue.setWorker_self]
      simp [Worker.left]
  · intro now i more q₀ ms' hmore hm hms
    refine Nat.le_zero.mp (Nat.le_trans (calls_le hms) ?_)
    dsimp only [Queue.step] at hm
    split at hm
    · exact absurd rfl hmore
    · cases hm
      rw [Queue.setWorker_self]
      exact Nat.le_refl 0
    · cases hm
  · intro i id q₀ hw hlive hm
    have hmem : id ∈ q.entries := hheld.slots.mem_held (by rw [hw]; rfl)
    have hq₀ : q₀ = { q with pending := q.pending ++ [id] }.setWorker i .ready := by
      simpa [Queue.step, hw, Queue.complete, hlive] using hm.symm
    subst hq₀
    refine ⟨hmem, rfl, fun ms' q₁ m q₂ j hr hm₁ htakes id' hid' => ?_⟩
    exact taken_before hr (next hm) (.inl ⟨q.pending, [], rfl, hid'⟩) hm₁ htakes
  · intro i id q₀ hw hcanceled hm
    have hq₀ : q₀ = { q with entries := q.entries.erase id, fullLogged := false }.setWorker i .ready := by
      simpa [Queue.step, hw, Queue.complete, hcanceled] using hm.symm
    subst hq₀
    exact ⟨hheld.slots.nodup.not_mem_erase, rfl⟩
  · intro i id q₀ ms' q₁ m q₂ hm hnot hr hmem hm₁ hgone
    rcases (Queue.Change.of_step hm₁).released hmem hgone with hfinish | ⟨k, rfl, hk⟩
    · exact .inl hfinish
    · refine .inr ⟨k, rfl, exists_takes hr (next hm) (fun hk₀ => hnot ?_) hk⟩
      exact (next hm).slots.mem_held hk₀

/-! ## A turn that ends after the shutdown deadline -/

namespace Demo

def one : Config :=
  { capacity := 2, concurrency := 1, runTimeout := 1, maxBatches := 1, capacity_pos := Nat.two_pos,
    concurrency_pos := Nat.one_pos, runTimeout_pos := Int.one_pos, maxBatches_pos := Nat.one_pos }

/-- Two IDs, the first of which has more to do after its only batch. -/
def turn : List QueueMove :=
  [.start, .hint 1, .hint 2, .take 0 0, .batch 0 false, .processed 5 0 (some true)]

/-- The same, with a shutdown whose context ends during the batch. -/
def canceled : List QueueMove :=
  [.start, .hint 1, .hint 2, .take 0 0, .batch 0 false, .drain, .expire, .processed 5 0 (some true)]

end Demo

theorem demo_rotation : ∃ q q₀, (stopQueue Demo.one).run Demo.turn = some q ∧
    q.step Demo.one (.complete 0) = some q₀ ∧ q₀.pending = [2, 1] ∧ 1 ∈ q₀.entries := by
  obtain ⟨q, hr, hw, hlive, hpending, q₀, hm, -⟩ : ∃ q ∈ (stopQueue Demo.one).run Demo.turn,
      q.workers 0 = .completing 1 true ∧ q.canceled = false ∧ q.pending = [2] ∧
      ∃ q₀ ∈ q.step Demo.one (.complete 0), True := by decide +kernel
  obtain ⟨-, -, -, -, -, hrotates, -⟩ := stop_queue_turns Demo.one Demo.turn q hr
  obtain ⟨hmem, hpending₀, -⟩ := hrotates 0 1 q₀ hw hlive hm
  exact ⟨q, q₀, hr, hm, by rw [hpending₀, hpending]; rfl, hmem⟩

/-- After the end of the context an ID with more to do loses its place. -/
theorem canceled_turn_released : ∃ q q₀, (stopQueue Demo.one).run Demo.canceled = some q ∧
    q.workers 0 = .completing 1 true ∧ q.step Demo.one (.complete 0) = some q₀ ∧ 1 ∉ q₀.entries := by
  obtain ⟨q, hr, hw, q₀, hm, hgone⟩ : ∃ q ∈ (stopQueue Demo.one).run Demo.canceled,
      q.workers 0 = .completing 1 true ∧
      ∃ q₀ ∈ q.step Demo.one (.complete 0), 1 ∉ q₀.entries := by decide +kernel
  exact ⟨q, q₀, hr, hw, hm, hgone⟩

end Dogx.InstanceStop
