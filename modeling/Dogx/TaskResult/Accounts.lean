import Dogx.TaskResult.Queue
import Dogx.Queue.Ledger

/-!
# What the result queue retains

Every accepted report is retained until a save of it has been recorded: it waits, or one worker has it
in its hands, until the run context ends. So a shutdown without an error has saved all of them.
-/

namespace Dogx.TaskResult

open Function (update update_of_ne update_self forall_update_iff)

variable {ρ : Type}

def Worker.entry : Worker ρ → Option (RetainedResult ρ)
  | took e | bounding e _ | saving e | settling e _ => some e
  | absent | ready | exited => none

/-- The sequence number of the entry in a worker's hands. -/
def Worker.sequence (w : Worker ρ) : Option ℕ := w.entry.map RetainedResult.sequence

namespace Queue

variable {cfg : Config} {q q' : Queue ρ} {m : Move ρ} {w c n : ℕ} {st : Worker ρ}
  {e e' : RetainedResult ρ} {lost items : List ℕ}

theorem perm_push (e : RetainedResult ρ) (l : List (RetainedResult ρ)) : (push e l).Perm (e :: l) :=
  List.perm_orderedInsert _ e l

/-! ## What a step does -/

inductive Change (cfg : Config) (q : Queue ρ) : Move ρ → Queue ρ → Prop where
  | refuses {m : Move ρ} : Change cfg q m q
  | starts (new : q.started = false) (opening : q.stopping = false) :
      Change cfg q .start (q.launch cfg)
  | admits {expired : Bool} {now : ℕ} {report : ρ} (started : q.started = true)
      (opening : q.stopping = false) (room : q.retained ≠ cfg.capacity) :
      Change cfg q (.accept expired now report) (q.enroll now report)
  | stops : Change cfg q .stop q.stop
  | drains {c : ℕ} : Change cfg q (.drain c) (q.stop.setCall c .stopped)
  /-- A call of `Drain` goes on; it returns what `finish` left, or waits. -/
  | waits {c : ℕ} {st : DrainCall} {drainCtx : Option ℕ} (stopping : q.calls c ≠ .idle)
      (finishing : st = .finishing → q.completed = true)
      (returned : st = .returned none →
        (q.completed = true ∨ q.calls c = .finishing) ∧ q.drainErr = none) :
      Change cfg q (.drain c) { q.setCall c st with drainCtx }
  | givesUp {c : ℕ} {first : Bool} {e : CtxError} (stopping : q.calls c ≠ .idle) :
      Change cfg q (.abort c) (q.giveUp c first e)
  | expires {c : ℕ} {e : CtxError} :
      Change cfg q (.expire c e) { q with ended := update q.ended c (some e) }
  | cancels (drained : q.drainCtx ≠ none) :
      Change cfg q .afterFunc { q with canceled := true }
  | exits {w now : ℕ} (hw : q.workers w = .ready)
      (why : q.canceled = true ∨ q.stopping = true ∧ q.retained = 0) :
      Change cfg q (.take w now) (q.setWorker w .exited)
  | takes {w now : ℕ} {e : RetainedResult ρ} {es : List (RetainedResult ρ)}
      (hw : q.workers w = .ready) (first : q.pending = e :: es) :
      Change cfg q (.take w now) ({ q with pending := es }.setWorker w (.took e))
  /-- A worker goes on with its entry, short of a save that succeeds. -/
  | works {m : Move ρ} {w : ℕ} {e : RetainedResult ρ} {st : Worker ρ}
      (hw : (q.workers w).entry = some e) (hst : st.entry = some e) (ok : st ≠ .settling e true) :
      Change cfg q m (q.setWorker w st)
  | saves {w : ℕ} {e : RetainedResult ρ} (hw : q.workers w = .saving e) :
      Change cfg q (.save w .ok)
        ({ q with succeeded := q.succeeded ++ [e.sequence] }.setWorker w (.settling e true))
  | records {w finishedAt delay : ℕ} {e : RetainedResult ρ} (hw : q.workers w = .settling e true) :
      Change cfg q (.settle w finishedAt delay)
        ({ q with retained := q.retained - 1, saved := q.saved ++ [e.sequence] }.setWorker w .ready)
  | abandons {w finishedAt delay : ℕ} {e : RetainedResult ρ}
      (hw : q.workers w = .settling e false) (canceled : q.canceled = true) :
      Change cfg q (.settle w finishedAt delay) (q.setWorker w .ready)
  | retries {w finishedAt delay failures due : ℕ} {e : RetainedResult ρ}
      (hw : q.workers w = .settling e false) :
      Change cfg q (.settle w finishedAt delay)
        ({ q with pending := push { e with failures, due } q.pending }.setWorker w .ready)
  | finishes (started : q.started = true) (all : ∀ i < cfg.concurrency, q.workers i = .exited)
      (unfinished : q.finished = false) : Change cfg q .finish q.finish
  | completes (finished : q.finished = true) :
      Change cfg q .complete { q with completed := true }

namespace Change

theorem of_accept (expired : Bool) (now : ℕ) (report : ρ) :
    Change cfg q (.accept expired now report) (q.accept cfg expired now report).2 := by
  unfold accept
  split
  · exact .refuses
  split
  · exact .refuses
  next hready =>
    simp only [Bool.or_eq_true, Bool.not_eq_true', not_or, Bool.not_eq_false,
      Bool.not_eq_true] at hready
    split
    · exact .refuses
    next hroom => exact .admits hready.1 hready.2 hroom

theorem of_register (hc : q.calls c ≠ .idle) : Change cfg q (.drain c) (q.register c) := by
  unfold register
  split
  next hdone =>
    refine .waits hc nofun fun hret => ⟨.inl hdone, ?_⟩
    exact DrainCall.returned.inj hret
  · split
    · exact .waits hc nofun nofun
    · exact .waits hc nofun nofun

theorem of_drain (hs : q.drain c = some q') : Change cfg q (.drain c) q' := by
  unfold drain at hs
  split at hs
  next => cases hs; exact .drains
  next hc => cases hs; exact .of_register (by simp [hc])
  next first hc =>
    cases hs
    refine .waits (by simp [hc]) ?_ ?_
    · split
      · exact fun _ => ‹_›
      · exact nofun
    · split <;> exact nofun
  next hc =>
    obtain ⟨hdone, ⟨⟩⟩ := Option.ite_none_right_eq_some.mp hs
    exact .waits (by simp [hc]) (fun _ => hdone) nofun
  next hc =>
    cases hs
    refine .waits (by simp [hc]) nofun fun hret => ⟨.inr hc, ?_⟩
    exact DrainCall.returned.inj hret
  next => cases hs

theorem of_take {now : ℕ} (hw : q.workers w = .ready) (hs : q.take w now = some q') :
    Change cfg q (.take w now) q' := by
  unfold take at hs
  split at hs
  next hend =>
    cases hs
    exact .exits hw (by simpa using hend)
  next =>
    split at hs
    · cases hs
    next first =>
      obtain ⟨-, ⟨⟩⟩ := Option.ite_none_right_eq_some.mp hs
      exact .takes hw first

theorem of_save (outcome : SaveOutcome) (hw : q.workers w = .saving e) :
    Change cfg q (.save w outcome) (q.save w e outcome) := by
  cases outcome with
  | ok => exact .saves hw
  | failed | panicked => exact .works (hw ▸ rfl) rfl (by simp)

theorem of_settle {ok : Bool} (finishedAt delay : ℕ) (hw : q.workers w = .settling e ok) :
    Change cfg q (.settle w finishedAt delay) (q.settle w e ok finishedAt delay) := by
  unfold settle
  split
  next hok => exact .records (by rw [hw, hok])
  next hok =>
    rw [Bool.not_eq_true] at hok
    subst hok
    split
    next hcanceled => exact .abandons hw hcanceled
    next => exact .retries hw

end Change

theorem allExited_iff : q.allExited cfg = true ↔ ∀ i < cfg.concurrency, q.workers i = .exited := by
  simp only [allExited, List.all_eq_true, List.mem_range]
  refine forall₂_congr fun i _ => ?_
  cases q.workers i <;> simp

/-- Every step of the queue is one of the changes. -/
theorem change_of_step (hs : q.step cfg m = some q') : Change cfg q m q' := by
  cases m with
  | start =>
    obtain ⟨hnew, ⟨⟩⟩ := Option.ite_none_left_eq_some.mp hs
    simp only [Bool.or_eq_true, not_or, Bool.not_eq_true] at hnew
    exact .starts hnew.1 hnew.2
  | accept expired now report => cases hs; exact .of_accept expired now report
  | stop => cases hs; exact .stops
  | drain => exact .of_drain hs
  | abort =>
    simp only [step, abort] at hs
    split at hs
    next hc _ => cases hs; exact .givesUp (by simp [hc])
    · cases hs
  | expire =>
    obtain ⟨-, ⟨⟩⟩ := Option.ite_none_right_eq_some.mp hs
    exact .expires
  | afterFunc =>
    obtain ⟨hended, ⟨⟩⟩ := Option.ite_none_right_eq_some.mp hs
    exact .cancels fun hd => by simp [hd] at hended
  | take =>
    simp only [step] at hs
    split at hs
    next hw => exact .of_take hw hs
    · cases hs
  | bound =>
    simp only [step] at hs
    split at hs
    next e hw => cases hs; exact .works (hw ▸ rfl) rfl (by simp)
    · cases hs
  | call =>
    simp only [step] at hs
    split at hs
    next e bounded hw =>
      cases hs
      refine .works (e := e) (hw ▸ rfl) ?_ ?_
      · split <;> rfl
      · split <;> simp
    · cases hs
  | save w outcome =>
    simp only [step] at hs
    split at hs
    next hw => cases hs; exact .of_save outcome hw
    · cases hs
  | settle w finishedAt delay =>
    simp only [step] at hs
    split at hs
    next hw =>
      obtain ⟨-, ⟨⟩⟩ := Option.ite_none_right_eq_some.mp hs
      exact .of_settle finishedAt delay hw
    · cases hs
  | finish =>
    obtain ⟨hall, ⟨⟩⟩ := Option.ite_none_right_eq_some.mp hs
    simp only [Bool.and_eq_true, Bool.not_eq_true'] at hall
    exact .finishes hall.1.1 (allExited_iff.mp hall.1.2) hall.2
  | complete =>
    obtain ⟨hfin, ⟨⟩⟩ := Option.ite_none_right_eq_some.mp hs
    exact .completes (Bool.and_eq_true_iff.mp hfin).1

/-! ## Where the accepted reports are -/

structure Booked (cfg : Config) (q : Queue ρ) (lost items : List ℕ) : Prop where
  ledger : Queue.Ledger cfg.concurrency q.workers Worker.sequence
    (q.pending.map RetainedResult.sequence) lost q.saved items q.sequence
  total : q.finished = false → items.length = q.retained
  live : q.canceled = false → lost = []

structure Open (q : Queue ρ) : Prop where
  canceled : q.canceled = false
  workers : ∀ i, q.workers i ≠ .exited
  finished : q.finished = false
  completed : q.completed = false
  drainCtx : q.drainCtx = none
  calls : ∀ c, q.calls c = .idle

structure Gates (cfg : Config) (q : Queue ρ) : Prop where
  pool : ∀ i, cfg.concurrency ≤ i → q.workers i = .absent
  idle : q.started = false → ∀ i, q.workers i = .absent
  room : q.retained ≤ cfg.capacity
  opening : q.stopping = false → q.Open
  exited : q.finished = true → ∀ i < cfg.concurrency, q.workers i = .exited
  completed : q.completed = true → q.started = true → q.finished = true
  finishing : ∀ c, q.calls c = .finishing → q.completed = true
  returned : ∀ c, q.calls c = .returned none → q.completed = true ∧ q.drainErr = none
  clean : q.finished = false → q.drainErr = none
  succeeded : ∀ n ∈ q.saved, n ∈ q.succeeded
  settling : ∀ w e, q.workers w = .settling e true → e.sequence ∈ q.succeeded

theorem Gates.lt_of_present (h : Gates cfg q) (hw : q.workers w ≠ .absent) : w < cfg.concurrency := by
  by_contra hge
  exact hw (h.pool w (Nat.le_of_not_lt hge))

namespace Booked

theorem init : Booked cfg (Queue.init (ρ := ρ)) [] [] where
  ledger := .empty fun _ => rfl
  total _ := rfl
  live _ := rfl

variable (h : Booked cfg q lost items)
include h

theorem stay (hst : st.sequence = (q.workers w).sequence) :
    Booked cfg (q.setWorker w st) lost items :=
  { h with ledger := h.ledger.stay hst }

theorem start (hidle : ∀ i, q.workers i = .absent) : Booked cfg (q.launch cfg) lost items := by
  refine { h with ledger := h.ledger.launch (fun i => by rw [hidle i]; rfl) fun i => ?_ }
  dsimp only [launch]
  split <;> rfl

theorem enroll (now : ℕ) (report : ρ) :
    Booked cfg (q.enroll now report) lost (items ++ [q.sequence + 1]) :=
  { h with
    ledger := h.ledger.issue ((perm_push _ _).map RetainedResult.sequence)
    total := fun hf => by
      rw [List.length_append, h.total hf]
      rfl }

theorem take {es : List (RetainedResult ρ)} (hlt : w < cfg.concurrency) (hw : q.workers w = .ready)
    (hfirst : q.pending = e :: es) :
    Booked cfg ({ q with pending := es }.setWorker w (.took e)) lost items :=
  { h with ledger := h.ledger.take hlt (hw ▸ rfl) rfl (hfirst ▸ rfl) }

section

variable (hw : (q.workers w).sequence = some e.sequence)
include hw

theorem retry (failures due : ℕ) :
    Booked cfg ({ q with pending := push { e with failures, due } q.pending }.setWorker w .ready)
      lost items :=
  { h with ledger := h.ledger.requeue hw rfl ((perm_push _ _).map RetainedResult.sequence) }

theorem abandon (hcanceled : q.canceled = true) :
    Booked cfg (q.setWorker w .ready) (e.sequence :: lost) items where
  ledger := h.ledger.abandon hw rfl
  total := h.total
  live hlive := absurd (hlive.symm.trans hcanceled) (by simp)

theorem record :
    ∃ items', Booked cfg ({ q with retained := q.retained - 1, saved := q.saved ++ [e.sequence]
      }.setWorker w .ready) lost items' := by
  have hsaved : (q.saved ++ [e.sequence]).Perm (e.sequence :: q.saved) := List.perm_append_comm
  obtain ⟨items', hledger, hlength⟩ := h.ledger.close (w := .ready) hw rfl hsaved
  refine ⟨items', hledger, fun hf => ?_, h.live⟩
  rw [h.total hf] at hlength
  dsimp only [setWorker]
  omega

end

theorem finish : Booked cfg q.finish (q.pending.map RetainedResult.sequence ++ lost) items where
  ledger := h.ledger.clear
  total := nofun
  live := nofun

theorem stop : Booked cfg q.stop lost items := by
  unfold Queue.stop
  split
  · exact { h with live := nofun }
  · exact { h with }

theorem step (hg : Gates cfg q) (hc : Change cfg q m q') :
    ∃ lost' items', Booked cfg q' lost' items' := by
  cases hc with
  | refuses => exact ⟨lost, items, h⟩
  | starts new => exact ⟨lost, items, h.start (hg.idle new)⟩
  | @admits _ now report => exact ⟨lost, _, h.enroll now report⟩
  | stops => exact ⟨lost, items, h.stop⟩
  | drains => exact ⟨lost, items, { h.stop with }⟩
  | givesUp =>
    exact ⟨lost, items, { h with live := fun hc => h.live (Bool.or_eq_false_iff.mp hc).1 }⟩
  | cancels => exact ⟨lost, items, { h with live := nofun }⟩
  | exits hw => exact ⟨lost, items, h.stay (hw ▸ rfl)⟩
  | takes hw first => exact ⟨lost, items, h.take (hg.lt_of_present (by simp [hw])) hw first⟩
  | works hw hst => exact ⟨lost, items, h.stay (by rw [Worker.sequence, Worker.sequence, hw, hst])⟩
  | @saves w e hw =>
    have hstay : Booked cfg (q.setWorker w (.settling e true)) lost items := h.stay (hw ▸ rfl)
    exact ⟨lost, items, { hstay with }⟩
  | records hw => exact ⟨lost, h.record (hw ▸ rfl)⟩
  | abandons hw canceled => exact ⟨_, items, h.abandon (by rw [hw]; rfl) canceled⟩
  | retries hw => exact ⟨lost, items, h.retry (hw ▸ rfl) _ _⟩
  | finishes => exact ⟨_, items, h.finish⟩
  | _ => exact ⟨lost, items, { h with }⟩

end Booked

/-! ## The order in which the queue is closed -/

namespace Gates

theorem init : Gates cfg (Queue.init (ρ := ρ)) where
  pool _ _ := rfl
  idle _ _ := rfl
  room := Nat.zero_le _
  opening _ := ⟨rfl, fun _ => nofun, rfl, rfl, rfl, fun _ => rfl⟩
  exited := nofun
  completed := nofun
  finishing _ := nofun
  returned _ := nofun
  clean _ := rfl
  succeeded := nofun
  settling _ _ := nofun

variable (h : Gates cfg q)
include h

theorem stopping_of_call (hc : q.calls c ≠ .idle) : q.stopping = true := by
  by_contra hopen
  exact hc ((h.opening (by simpa using hopen)).calls c)

theorem present_started (hw : q.workers w ≠ .absent) : q.started = true := by
  by_contra hnew
  exact hw (h.idle (by simpa using hnew) w)

theorem set (hw : q.workers w ≠ .absent ∧ q.workers w ≠ .exited)
    (hst : st = .exited → q.stopping = true) {retained : ℕ} {pending : List (RetainedResult ρ)}
    {saved succeeded : List ℕ} (hretained : retained ≤ q.retained)
    (hsaved : ∀ n ∈ saved, n ∈ succeeded) (hsub : ∀ n ∈ q.succeeded, n ∈ succeeded)
    (hsettling : ∀ e, st = .settling e true → e.sequence ∈ succeeded) :
    Gates cfg ({ q with retained, pending, saved, succeeded }.setWorker w st) := by
  refine { h with
    pool := fun i hi => ?_
    idle := fun hs => absurd (h.present_started hw.1) (by rw [show q.started = false from hs]; simp)
    room := Nat.le_trans hretained h.room
    opening := fun hopen => { h.opening hopen with workers := ?_ }
    exited := fun hf => absurd (h.exited hf w (h.lt_of_present hw.1)) hw.2
    succeeded := hsaved
    settling := fun i e he => ?_ }
  · dsimp only [setWorker]
    rw [update_of_ne (by have := h.lt_of_present hw.1; omega)]
    exact h.pool i hi
  · refine (forall_update_iff q.workers fun _ st => st ≠ .exited).mpr ⟨fun heq => ?_, fun i _ => ?_⟩
    · exact absurd (hst heq) (by rw [show q.stopping = false from hopen]; simp)
    · exact (h.opening hopen).workers i
  · dsimp only [setWorker] at he
    by_cases hi : i = w
    · rw [hi, update_self] at he
      exact hsettling e he
    · rw [update_of_ne hi] at he
      exact hsub _ (h.settling i e he)

theorem start (hopen : q.stopping = false) : Gates cfg (q.launch cfg) := by
  have hold := h.opening hopen
  refine { h with
    pool := fun i hi => if_neg (Nat.not_lt.mpr hi)
    idle := nofun
    opening := fun _ => { hold with workers := fun i => ?_ }
    exited := fun hf => absurd (hf.symm.trans hold.finished) (by simp)
    completed := fun hdone => absurd (hdone.symm.trans hold.completed) (by simp)
    settling := fun i e he => ?_ }
  · dsimp only [launch]
    split <;> nofun
  · dsimp only [launch] at he
    split at he <;> cases he

theorem enroll (hroom : q.retained ≠ cfg.capacity) (now : ℕ) (report : ρ) :
    Gates cfg (q.enroll now report) :=
  { h with
    room := Nat.lt_of_le_of_ne h.room hroom
    opening := fun hopen => { h.opening hopen with } }

theorem stop : Gates cfg q.stop := by
  unfold Queue.stop
  split
  next hnew =>
    have hnew : q.started = false := by simpa using (Bool.and_eq_true_iff.mp hnew).1
    exact { h with
      opening := nofun
      completed := fun _ hs => absurd (hs.symm.trans hnew) (by simp)
      finishing := fun c _ => rfl
      returned := fun c hc => ⟨rfl, (h.returned c hc).2⟩ }
  next => exact { h with opening := nofun }

theorem call (hstop : q.stopping = true) {st : DrainCall} {drainCtx : Option ℕ} {canceled : Bool}
    (hfinishing : st = .finishing → q.completed = true)
    (hreturned : st = .returned none → q.completed = true ∧ q.drainErr = none) :
    Gates cfg { q.setCall c st with drainCtx, canceled } :=
  { h with
    opening := fun hopen => absurd (hstop.symm.trans hopen) (by simp)
    finishing := (forall_update_iff q.calls fun _ st => st = .finishing → q.completed = true).mpr
      ⟨hfinishing, fun d _ => h.finishing d⟩
    returned := (forall_update_iff q.calls fun _ st => st = .returned none →
      q.completed = true ∧ q.drainErr = none).mpr ⟨hreturned, fun d _ => h.returned d⟩ }

theorem finish (hstarted : q.started = true) (hall : ∀ i < cfg.concurrency, q.workers i = .exited)
    (hunfinished : q.finished = false) : Gates cfg q.finish := by
  refine { h with
    room := Nat.zero_le _
    opening := fun hopen => absurd (hall 0 cfg.concurrency_pos) ((h.opening hopen).workers 0)
    exited := fun _ => hall
    completed := fun _ _ => rfl
    returned := fun c hc => ?_
    clean := nofun }
  -- no call has returned before the workers are through
  have hdone := (h.returned c hc).1
  exact absurd ((h.completed hdone hstarted).symm.trans hunfinished) (by simp)

theorem step (hc : Change cfg q m q') : Gates cfg q' := by
  cases hc with
  | refuses => exact h
  | starts _ opening => exact h.start opening
  | admits _ _ room => exact h.enroll room _ _
  | stops => exact h.stop
  | drains =>
    have hstop : q.stop.stopping = true := by unfold Queue.stop; split <;> rfl
    exact h.stop.call hstop nofun nofun
  | @waits c st drainCtx stopping finishing returned =>
    refine h.call (h.stopping_of_call stopping) finishing fun hret => ?_
    obtain ⟨hdone, herr⟩ := returned hret
    exact ⟨hdone.elim id (h.finishing c), herr⟩
  | givesUp stopping => exact h.call (h.stopping_of_call stopping) nofun nofun
  | expires => exact { h with opening := fun hopen => { h.opening hopen with } }
  | cancels drained =>
    exact { h with opening := fun hopen => absurd (h.opening hopen).drainCtx drained }
  | exits hw why =>
    refine h.set (by simp [hw]) (fun _ => ?_) (Nat.le_refl _) h.succeeded (fun _ => id) (by simp)
    -- the run context ends only after admission has been closed
    refine why.elim (fun hcanceled => ?_) And.left
    by_contra hopen
    exact absurd (h.opening (by simpa using hopen)).canceled (by rw [hcanceled]; simp)
  | takes hw | abandons hw | retries hw =>
    exact h.set (by simp [hw]) (by simp) (Nat.le_refl _) h.succeeded (fun _ => id) (by simp)
  | works hw hst ok =>
    refine h.set ⟨fun habsent => ?_, fun hexited => ?_⟩ (fun hexited => ?_) (Nat.le_refl _)
      h.succeeded (fun _ => id) fun f hf => ?_
    · rw [habsent] at hw; cases hw
    · rw [hexited] at hw; cases hw
    · rw [hexited] at hst; cases hst
    · subst hf
      cases hst
      exact absurd rfl ok
  | saves hw =>
    refine h.set (by simp [hw]) (by simp) (Nat.le_refl _) (fun n hn => ?_) (fun n hn => ?_) ?_
    · exact List.mem_append_left _ (h.succeeded n hn)
    · exact List.mem_append_left _ hn
    · rintro f ⟨⟩
      exact List.mem_append_right _ List.mem_cons_self
  | @records w _ _ e hw =>
    refine h.set (by simp [hw]) (by simp) (Nat.sub_le _ _) (fun n hn => ?_) (fun _ => id) (by simp)
    rcases List.mem_append.mp hn with hn | hn
    · exact h.succeeded n hn
    · rw [List.mem_singleton.mp hn]
      exact h.settling w e hw
  | finishes started all unfinished => exact h.finish started all unfinished
  | completes finished =>
    exact { h with
      opening := fun hopen => absurd ((h.opening hopen).finished.symm.trans finished) (by simp)
      completed := fun _ _ => finished
      finishing := fun _ _ => rfl
      returned := fun c hc => ⟨rfl, (h.returned c hc).2⟩ }

end Gates

/-! ## The verdict of a shutdown -/

theorem Change.frame (hc : Change cfg q m q') :
    q' = q.finish ∧ q.finished = false ∨
      q'.finished = q.finished ∧ q'.drainErr = q.drainErr ∧
      (q.stopping = false ∨ q'.sequence = q.sequence) ∧ ∀ n ∈ q.saved, n ∈ q'.saved := by
  cases hc with
  | finishes _ _ unfinished => exact .inl ⟨rfl, unfinished⟩
  | admits _ opening => exact .inr ⟨rfl, rfl, .inl opening, fun _ => id⟩
  | records => exact .inr ⟨rfl, rfl, .inr rfl, fun _ => List.mem_append_left _⟩
  | stops | drains =>
    refine .inr ?_
    simp only [Queue.stop]
    split <;> exact ⟨rfl, rfl, .inr rfl, fun _ => id⟩
  | refuses | starts | waits | givesUp | expires | cancels | exits | takes | works | saves | abandons
  | retries | completes => exact .inr ⟨rfl, rfl, .inr rfl, fun _ => id⟩

structure Sound (cfg : Config) (q : Queue ρ) : Prop where
  gates : Gates cfg q
  booked : ∃ lost items, Booked cfg q lost items
  verdict : q.finished = true → q.drainErr = none → ∀ n ∈ List.range' 1 q.sequence, n ∈ q.saved

theorem Booked.all_saved (h : Booked cfg q lost items) (hunfinished : q.finished = false)
    (hretained : q.retained = 0) (hn : n ∈ List.range' 1 q.sequence) : n ∈ q.saved := by
  have hitems : items = [] := List.eq_nil_of_length_eq_zero ((h.total hunfinished).trans hretained)
  have hperm := h.ledger.perm
  rw [hitems, List.append_nil] at hperm
  exact hperm.mem_iff.mp hn

theorem Sound.step (h : Sound cfg q) (hc : Change cfg q m q') : Sound cfg q' := by
  obtain ⟨_, _, hbooked⟩ := h.booked
  refine ⟨h.gates.step hc, hbooked.step h.gates hc, fun hf herr n hn => ?_⟩
  rcases hc.frame with ⟨rfl, hunfinished⟩ | ⟨hfinished, hdrainErr, hseq, hsaved⟩
  · refine hbooked.all_saved hunfinished ?_ hn
    by_contra hne
    simp [finish, hne] at herr
  · rw [hfinished] at hf
    rw [hdrainErr] at herr
    refine hsaved n (h.verdict hf herr n ?_)
    rcases hseq with hopen | hseq
    · exact absurd ((h.gates.opening hopen).finished.symm.trans hf) (by simp)
    · rwa [← hseq]

theorem sound (ρ : Type) (cfg : Config) : (resultQueue ρ cfg).Invariant (Sound cfg) where
  init := ⟨.init, ⟨[], [], .init⟩, nofun⟩
  step _ _ _ h hs := h.step (change_of_step hs)

/-! ## Reading the books -/

variable (h : Booked cfg q lost items)
include h

theorem Booked.nodup_all : (q.saved ++ items).Nodup :=
  h.ledger.perm.nodup_iff.mp List.nodup_range'

theorem Booked.length_unsaved :
    ((List.range' 1 q.sequence).filter (· ∉ q.saved)).length = items.length := by
  have hdisjoint := List.disjoint_of_nodup_append h.nodup_all
  have hfilter : (q.saved ++ items).filter (· ∉ q.saved) = items := by
    rw [List.filter_append, List.filter_eq_nil_iff.mpr (by simp), List.nil_append,
      List.filter_eq_self.mpr]
    intro n hn
    simpa using fun hmem => hdisjoint hmem hn
  rw [(h.ledger.perm.filter _).length_eq, hfilter]

theorem Booked.once (hlive : q.canceled = false) (hn : n ∈ List.range' 1 q.sequence)
    (hunsaved : n ∉ q.saved) :
    ((q.pending.map RetainedResult.sequence).count n = 1 ∧ ∀ i, (q.workers i).sequence ≠ some n) ∨
      n ∉ q.pending.map RetainedResult.sequence ∧
        ∃ i, (q.workers i).sequence = some n ∧ ∀ j, (q.workers j).sequence = some n → j = i := by
  have hitem : n ∈ items := (List.mem_append.mp (h.ledger.perm.mem_iff.mp hn)).resolve_left hunsaved
  have honce := h.ledger.slots.once hitem
  rw [h.live hlive, List.append_nil] at honce
  exact honce

theorem Booked.saving_unique {w' : ℕ} (hw : q.workers w = .saving e)
    (hw' : q.workers w' = .saving e') (heq : e.sequence = e'.sequence) : w = w' := by
  refine h.ledger.slots.holder_unique (b := e.sequence) ?_ ?_
  · rw [hw]; rfl
  · rw [hw', heq]; rfl

end Queue

namespace Queue

variable {cfg : Config} {q q' : Queue ρ} {m : Move ρ} {ms : List (Move ρ)} {w : ℕ} {st : Worker ρ}
  {e e' : RetainedResult ρ} {reports : List ρ}

/-! ## Which report an entry is -/

def accepts (cfg : Config) (q : Queue ρ) : Move ρ → Option ρ
  | .accept expired now report =>
    match (q.accept cfg expired now report).1 with
    | .ok true => some report
    | _ => none
  | _ => none

/-- The reports that `Accept` takes in a run from `q`, in the order of their calls. -/
def accepted (cfg : Config) (q : Queue ρ) : List (Move ρ) → List ρ
  | [] => []
  | m :: ms => (q.accepts cfg m).toList ++ ((q.step cfg m).map (accepted cfg · ms)).getD []

def Has (q : Queue ρ) (e : RetainedResult ρ) : Prop :=
  e ∈ q.pending ∨ ∃ w, (q.workers w).entry = some e

/-- The entries are numbered as the reports have been accepted. -/
structure Numbered (q : Queue ρ) (reports : List ρ) : Prop where
  sequence : q.sequence = reports.length
  entries : ∀ e, q.Has e → ∃ n, e.sequence = n + 1 ∧ reports[n]? = some e.report

theorem has_setWorker (h : (q.setWorker w st).Has e) : q.Has e ∨ st.entry = some e := by
  rcases h with h | ⟨i, hi⟩
  · exact .inl (.inl h)
  · by_cases heq : i = w
    · subst heq
      exact .inr (by simpa [setWorker] using hi)
    · exact .inl (.inr ⟨i, by simpa [setWorker, update_of_ne heq] using hi⟩)

/-- A step other than `Accept` makes no entry of its own. -/
theorem Change.has (hc : Change cfg q m q') (hm : ∀ expired now report, m ≠ .accept expired now report)
    (h : q'.Has e') : ∃ e, q.Has e ∧ e.sequence = e'.sequence ∧ e.report = e'.report := by
  cases hc with
  | admits => exact absurd rfl (hm _ _ _)
  | starts =>
    rcases h with h | ⟨i, hi⟩
    · exact ⟨e', .inl h, rfl, rfl⟩
    · dsimp only [launch] at hi
      split at hi <;> cases hi
  | stops | drains =>
    refine ⟨e', ?_, rfl, rfl⟩
    unfold stop at h
    split at h <;> exact h
  | finishes =>
    rcases h with h | h
    · cases h
    · exact ⟨e', .inr h, rfl, rfl⟩
  | exits | records | abandons =>
    rcases has_setWorker h with h | h
    · exact ⟨e', h, rfl, rfl⟩
    · cases h
  | takes hw first =>
    rcases has_setWorker h with (h | h) | ⟨⟨⟩⟩
    · exact ⟨e', .inl (first ▸ List.mem_cons_of_mem _ h), rfl, rfl⟩
    · exact ⟨e', .inr h, rfl, rfl⟩
    · exact ⟨_, .inl (first ▸ List.mem_cons_self), rfl, rfl⟩
  | works hw hst =>
    rcases has_setWorker h with h | h
    · exact ⟨e', h, rfl, rfl⟩
    · exact ⟨e', .inr ⟨_, hw.trans (hst.symm.trans h)⟩, rfl, rfl⟩
  | saves hw =>
    rcases has_setWorker h with h | ⟨⟨⟩⟩
    · exact ⟨e', h, rfl, rfl⟩
    · exact ⟨_, .inr ⟨_, congrArg Worker.entry hw⟩, rfl, rfl⟩
  | @retries w _ _ _ _ e hw =>
    rcases has_setWorker h with (h | h) | ⟨⟨⟩⟩
    · rcases List.mem_cons.mp ((perm_push _ _).mem_iff.mp h) with rfl | h
      · exact ⟨e, .inr ⟨w, congrArg Worker.entry hw⟩, rfl, rfl⟩
      · exact ⟨e', .inl h, rfl, rfl⟩
    · exact ⟨e', .inr h, rfl, rfl⟩
  | _ => exact ⟨e', h, rfl, rfl⟩

theorem Change.sequence (hc : Change cfg q m q')
    (hm : ∀ expired now report, m ≠ .accept expired now report) : q'.sequence = q.sequence := by
  cases hc with
  | admits => exact absurd rfl (hm _ _ _)
  | stops | drains =>
    unfold stop
    split <;> rfl
  | _ => rfl

theorem Numbered.enroll (h : Numbered q reports) (now : ℕ) (report : ρ) :
    Numbered (q.enroll now report) (reports ++ [report]) where
  sequence := by simp [Queue.enroll, h.sequence]
  entries := by
    have hold : ∀ e, q.Has e → ∃ n, e.sequence = n + 1 ∧ (reports ++ [report])[n]? = some e.report := by
      intro e he
      obtain ⟨n, hn, hget⟩ := h.entries e he
      have hlt := (List.getElem?_eq_some_iff.mp hget).1
      exact ⟨n, hn, (List.getElem?_append_left hlt).trans hget⟩
    rintro e (he | he)
    · rcases List.mem_cons.mp ((perm_push _ _).mem_iff.mp he) with rfl | he
      · exact ⟨q.sequence, rfl, by simp [h.sequence]⟩
      · exact hold e (.inl he)
    · exact hold e (.inr he)

/-- One step numbers what it accepts. -/
theorem Numbered.step (h : Numbered q reports) (hs : q.step cfg m = some q') :
    Numbered q' (reports ++ (q.accepts cfg m).toList) := by
  by_cases hm : ∀ expired now report, m ≠ .accept expired now report
  · have hnone : q.accepts cfg m = none := by
      cases m with
      | accept => exact absurd rfl (hm _ _ _)
      | _ => rfl
    rw [hnone, Option.toList_none, List.append_nil]
    refine ⟨((change_of_step hs).sequence hm).trans h.sequence, fun e' he' => ?_⟩
    obtain ⟨e, he, hseq, hreport⟩ := (change_of_step hs).has hm he'
    rw [← hseq, ← hreport]
    exact h.entries e he
  · push Not at hm
    obtain ⟨expired, now, report, rfl⟩ := hm
    cases hs
    simp only [accepts, accept]
    split
    · simpa using h
    split
    · simpa using h
    split
    · simpa using h
    · exact h.enroll now report

/-- In every run, the entries are numbered in the order of acceptance. -/
theorem Numbered.run (h : Numbered q reports) (hr : (resultQueue ρ cfg).runFrom q ms = some q') :
    Numbered q' (reports ++ q.accepted cfg ms) := by
  induction ms generalizing q reports with
  | nil =>
    cases hr
    simpa [accepted] using h
  | cons m ms ih =>
    obtain ⟨t, hm, hr⟩ := Machine.runFrom_cons.mp hr
    have hstep : q.step cfg m = some t := hm
    rw [accepted, hstep, Option.map_some, Option.getD_some, ← List.append_assoc]
    exact ih (h.step hstep) hr

end Queue

/-! ## The queue over whole runs -/

/--
The entries of the result queue are numbered as their reports have been accepted. It retains exactly the accepted reports without a recorded save, at most `capacity` of
them, each waiting or in the hands of one worker, until the run context ends. A `Drain` of a started
queue that returns nil has seen a successful `Save` of every accepted report.
-/
theorem result_queue_accounts {ρ : Type} {cfg : Config} {ms : List (Move ρ)} {q : Queue ρ}
    (h : (resultQueue ρ cfg).run ms = some q) :
    q.Numbered (Queue.init.accepted cfg ms) ∧ q.retained ≤ cfg.capacity ∧
      (q.allExited cfg = false →
        q.retained = ((List.range' 1 q.sequence).filter (· ∉ q.saved)).length) ∧
      (q.canceled = false → ∀ n ∈ List.range' 1 q.sequence, n ∉ q.saved →
        ((q.pending.map RetainedResult.sequence).count n = 1 ∧
          ∀ i, (q.workers i).sequence ≠ some n) ∨
        n ∉ q.pending.map RetainedResult.sequence ∧
          ∃ i, (q.workers i).sequence = some n ∧ ∀ j, (q.workers j).sequence = some n → j = i) ∧
      (∀ w w' e e', q.workers w = .saving e → q.workers w' = .saving e' →
        e.sequence = e'.sequence → w = w') ∧
      (∀ c, q.started = true → q.calls c = .returned none →
        ∀ n ∈ List.range' 1 q.sequence, n ∈ q.succeeded) := by
  have hsound := (Queue.sound ρ cfg).run h
  obtain ⟨_, _, hbooked⟩ := hsound.booked
  have hnumbered : Queue.init.Numbered ([] : List ρ) := ⟨rfl, by rintro _ (⟨⟨⟩⟩ | ⟨_, ⟨⟩⟩)⟩
  refine ⟨hnumbered.run h, hsound.gates.room, fun hworking => ?_, fun hlive n => hbooked.once hlive,
    fun w w' e e' => hbooked.saving_unique, fun c hstarted hc n hn => ?_⟩
  · rw [hbooked.length_unsaved, hbooked.total]
    by_contra hfinished
    have hall := hsound.gates.exited (by simpa using hfinished)
    exact absurd (Queue.allExited_iff.mpr hall) (by rw [hworking]; simp)
  · obtain ⟨hdone, herr⟩ := hsound.gates.returned c hc
    have hfinished := hsound.gates.completed hdone hstarted
    exact hsound.gates.succeeded n (hsound.verdict hfinished herr n hn)

namespace Demo

/-- A queue with one worker, for up to two reports. -/
def config : Config :=
  { capacity := 2, concurrency := 1, capacity_pos := Nat.two_pos, concurrency_pos := Nat.one_pos }

def pass (now : ℕ) (outcome : Queue.SaveOutcome) (delay : ℕ) : List (Move String) :=
  [.take 0 now, .bound 0, .call 0 false, .save 0 outcome, .settle 0 now delay]

/-- A save panics and is repeated; `Drain` waits for it and for a second report. -/
def drained : List (Move String) :=
  [.start, .accept false 0 "first", .accept false 1 "second"] ++ pass 0 .panicked 1000000000 ++
    pass 1 .ok 1000000000 ++ [.drain 5, .drain 5, .drain 5] ++
    pass 1000000000 .ok 2000000000 ++ [.take 0 0, .finish, .complete, .drain 5, .drain 5]

end Demo

theorem demo_drained :
    ∃ q, (resultQueue String Demo.config).run Demo.drained = some q ∧ q.started = true ∧
      q.calls 5 = .returned none ∧ q.sequence = 2 ∧ q.saved = [2, 1] ∧
      (∀ n ∈ List.range' 1 q.sequence, n ∈ q.succeeded) := by
  obtain ⟨q, hrun, hstarted, hreturned, hseq, hsaved⟩ :
      ∃ q ∈ (resultQueue String Demo.config).run Demo.drained, q.started = true ∧
        q.calls 5 = .returned none ∧ q.sequence = 2 ∧ q.saved = [2, 1] := by decide +kernel
  exact ⟨q, hrun, hstarted, hreturned, hseq, hsaved,
    (result_queue_accounts hrun).2.2.2.2.2 5 hstarted hreturned⟩

end Dogx.TaskResult
