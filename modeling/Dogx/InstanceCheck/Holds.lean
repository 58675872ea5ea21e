import Dogx.InstanceCheck.Queue
import Dogx.Machine.Run
import Dogx.Queue.Slots

/-!
# Hints of the check queue

An ID that the queue retains waits for its due time or is checked by one worker. A hint that is
accepted is not lost: the ID waits, or the check in progress has a follow-up reserved.
-/

namespace Dogx.InstanceCheck

open Machine

/-! ## The queue and its callers -/

def QueueMove.reading : QueueMove → ℤ
  | .hint now _ | .take now _ => now
  | _ => 0

/-- A move of the queue, or one turn of a recovery call that does not wait. -/
inductive CallMove where
  | queue (m : QueueMove)
  | hintRecovery (now : ℤ) (expired : Bool) (id : ℤ)

/-- No reading of the clock is before Go's zero time. -/
def Queue.call (cfg : Config) (q : Queue) : CallMove → Option Queue
  | .queue m => if 0 ≤ m.reading then q.step cfg m else none
  | .hintRecovery now expired id =>
    if 0 ≤ now then
      match q.hintRecovery cfg now expired id with
      | .failed => some q
      | .done q => some q
      | .full => none
    else none

def checkQueue (cfg : Config) : Machine Queue CallMove := { init := .init, step := Queue.call cfg }

/-- `Hint` or `HintRecovery` reports that the ID is accepted. -/
inductive Queue.Accepts (cfg : Config) (q : Queue) (id : ℤ) : CallMove → Queue → Prop where
  | hint (now : ℤ) (q' : Queue) (h : q.hint cfg now id = (true, q')) :
      Queue.Accepts cfg q id (.queue (.hint now id)) q'
  | recovery (now : ℤ) (expired : Bool) (q' : Queue)
      (h : q.hintRecovery cfg now expired id = .done q') :
      Queue.Accepts cfg q id (.hintRecovery now expired id) q'

variable {cfg : Config} {q q' : Queue} {m : CallMove} {ms : List CallMove} {i k : ℕ} {id now : ℤ}
  {e : CheckEntry} {f : CheckEntry → CheckEntry} {expired : Bool}

def Worker.holds : Worker → Option ℤ
  | .checking id => some id
  | .ready | .exited => none

def Queue.ids (q : Queue) : List ℤ := q.entries.map CheckEntry.id

/-! ## Entries -/

namespace Queue

theorem mem_update : e ∈ (q.update id f).entries ↔
    ∃ e0 ∈ q.entries, (if e0.id = id then f e0 else e0) = e := List.mem_map

theorem ids_update (hf : ∀ e, (f e).id = e.id) : (q.update id f).ids = q.ids := by
  unfold ids update
  rw [List.map_map]
  refine List.map_congr_left fun e _ => ?_
  simp only [Function.comp_apply]
  split
  · exact hf e
  · rfl

theorem ids_addLocked : (q.addLocked now id).ids = q.ids ++ [id] := List.map_append

theorem isSome_entry? : (q.entryAt id).isSome ↔ id ∈ q.ids := by
  simp [entryAt, ids]

def reserve (now : ℤ) (e : CheckEntry) : CheckEntry :=
  if e.processing && e.nextDue == 0 then { e with nextDue := now + mergeWindow } else e

theorem reserve_id (now : ℤ) (e : CheckEntry) : (reserve now e).id = e.id := by
  unfold reserve
  split <;> rfl

theorem reserve_processing (now : ℤ) (e : CheckEntry) : (reserve now e).processing = e.processing := by
  unfold reserve
  split <;> rfl

theorem reserve_of_waiting (h : e.processing = false) : reserve now e = e := by
  simp [reserve, h]

theorem nextDue_reserve (hnow : 0 ≤ now) (h : e.processing = true) : (reserve now e).nextDue ≠ 0 := by
  unfold reserve
  split
  · unfold mergeWindow
    dsimp only
    omega
  · next hnot =>
    simpa [h] using hnot

def begin (e : CheckEntry) : CheckEntry := { e with processing := true }

def again (e : CheckEntry) : CheckEntry := { e with processing := false, due := e.nextDue, nextDue := 0 }

theorem mergeLocked_eq : q.mergeLocked now id =
    if id ∈ q.ids then some (q.update id (reserve now)) else none :=
  if_congr isSome_entry? rfl rfl

theorem hint_accepts (h : q.hint cfg now id = (true, q')) :
    id ∈ q.ids ∧ q' = q.update id (reserve now) ∨ id ∉ q.ids ∧ q' = q.addLocked now id := by
  unfold hint at h
  split at h
  · cases h
  rw [mergeLocked_eq] at h
  by_cases hold : id ∈ q.ids
  · rw [if_pos hold] at h
    cases h
    exact .inl ⟨hold, rfl⟩
  · rw [if_neg hold] at h
    dsimp only at h
    split at h <;> cases h
    exact .inr ⟨hold, rfl⟩

theorem hintRecovery_accepts (h : q.hintRecovery cfg now expired id = .done q') :
    id ∈ q.ids ∧ q' = q.update id (reserve now) ∨
      id ∉ q.ids ∧ q.entries.length < max 1 (cfg.capacity / 2) ∧ q' = q.addLocked now id := by
  unfold hintRecovery waitRecovery at h
  split at h
  · cases h
  split at h
  · cases h
  split at h
  · cases h
  have hpos : 0 < id := Int.not_le.mp ‹_›
  rw [if_pos hpos, mergeLocked_eq] at h
  by_cases hold : id ∈ q.ids
  · rw [if_pos hold] at h
    cases h
    exact .inl ⟨hold, rfl⟩
  · rw [if_neg hold] at h
    dsimp only at h
    split at h <;> cases h
    exact .inr ⟨hold, ‹_›, rfl⟩

end Queue

/-! ## Steps -/

def CallMove.isHint : CallMove → Bool
  | .queue (.hint _ _) | .hintRecovery _ _ _ => true
  | _ => false

inductive Queue.Change (cfg : Config) (q : Queue) : CallMove → Queue → Prop where
  | flags {m : CallMove} {q' : Queue} (entries : q'.entries = q.entries)
      (pending : q'.pending = q.pending) (workers : q'.workers = q.workers)
      (canceled : q.canceled = true → q'.canceled = true) : Queue.Change cfg q m q'
  | merges {m : CallMove} (hint : m.isHint = true) (now id : ℤ) (clock : 0 ≤ now) (old : id ∈ q.ids) :
      Queue.Change cfg q m (q.update id (Queue.reserve now))
  | adds {m : CallMove} (hint : m.isHint = true) (now id : ℤ) (new : id ∉ q.ids)
      (room : q.entries.length < cfg.capacity)
      (recovery : ∀ now expired id, m = .hintRecovery now expired id →
        q.entries.length < max 1 (cfg.capacity / 2)) :
      Queue.Change cfg q m (q.addLocked now id)
  | takes (now : ℤ) (i : ℕ) (id : ℤ) (bound : i < cfg.concurrency) (free : q.workers i = .ready)
      (waits : id ∈ q.pending) :
      Queue.Change cfg q (.queue (.take now i))
        { q with
          entries := (q.update id Queue.begin).entries
          pending := q.pending.erase id
          workers := Function.update q.workers i (.checking id) }
  | exits (now : ℤ) (i : ℕ) (free : q.workers i = .ready) :
      Queue.Change cfg q (.queue (.take now i)) { q with workers := Function.update q.workers i .exited }
  | follows (i : ℕ) (id : ℤ) (checks : q.workers i = .checking id) (live : q.canceled = false) :
      Queue.Change cfg q (.queue (.checked i false))
        { q with
          entries := (q.update id Queue.again).entries
          pending := q.pending ++ [id]
          workers := Function.update q.workers i .ready }
  | releases (i : ℕ) (id : ℤ) (terminal : Bool) (checks : q.workers i = .checking id)
      (last : terminal = false → q.canceled = false → ∀ e, q.entryAt id = some e → e.nextDue = 0) :
      Queue.Change cfg q (.queue (.checked i terminal))
        { q with
          entries := q.entries.filter (·.id ≠ id)
          fullLogged := false
          workers := Function.update q.workers i .ready }
  | finishes (exited : ∀ i < cfg.concurrency, q.workers i = .exited) :
      Queue.Change cfg q (.queue .finish)
        { q with pending := [], entries := [], canceled := true, completed := true }

theorem Queue.stop_frame (q : Queue) : q.stop.entries = q.entries ∧ q.stop.pending = q.pending ∧
    q.stop.workers = q.workers ∧ (q.canceled = true → q.stop.canceled = true) := by
  unfold Queue.stop
  repeat' split
  all_goals exact ⟨rfl, rfl, rfl, fun h => by simp [h]⟩

namespace Queue.Change

theorem of_hint (hbound : q.entries.length ≤ cfg.capacity) (hnow : 0 ≤ now) :
    Queue.Change cfg q (.queue (.hint now id)) (q.hint cfg now id).2 := by
  unfold Queue.hint
  split
  · exact .flags rfl rfl rfl fun h => h
  rw [Queue.mergeLocked_eq]
  by_cases hold : id ∈ q.ids
  · rw [if_pos hold]
    exact .merges rfl now id hnow hold
  · rw [if_neg hold]
    dsimp only
    split
    · exact .flags rfl rfl rfl fun h => h
    · exact .adds rfl now id hold (Nat.lt_of_le_of_ne hbound ‹_›) nofun

theorem of_recovery (hnow : 0 ≤ now) (h : q.hintRecovery cfg now expired id = .done q') :
    Queue.Change cfg q (.hintRecovery now expired id) q' := by
  rcases Queue.hintRecovery_accepts h with ⟨hold, rfl⟩ | ⟨hnew, hroom, rfl⟩
  · exact .merges rfl now id hnow hold
  · refine .adds rfl now id hnew ?_ fun _ _ _ _ => hroom
    have := cfg.capacity_pos
    omega

/-- Every move of the queue is one of the changes. -/
theorem of_call (hbound : q.entries.length ≤ cfg.capacity) (h : q.call cfg m = some q') :
    Queue.Change cfg q m q' := by
  cases m with
  | hintRecovery =>
    obtain ⟨hnow, h⟩ := Option.ite_none_right_eq_some.mp h
    split at h
    · cases h
      exact .flags rfl rfl rfl fun h => h
    · cases h
      exact of_recovery hnow ‹_›
    · cases h
  | queue m =>
    obtain ⟨hnow, h⟩ := Option.ite_none_right_eq_some.mp h
    cases m with
    | start =>
      obtain ⟨-, h⟩ := Option.ite_none_left_eq_some.mp h
      cases h
      exact .flags rfl rfl rfl fun h => h
    | hint =>
      cases h
      exact of_hint hbound hnow
    | stop =>
      cases h
      obtain ⟨hentries, hpending, hworkers, hcanceled⟩ := q.stop_frame
      exact .flags hentries hpending hworkers hcanceled
    | drain =>
      cases h
      obtain ⟨hentries, hpending, hworkers, hcanceled⟩ := q.stop_frame
      unfold Queue.drain
      dsimp only
      split
      · exact .flags hentries hpending hworkers hcanceled
      · exact .flags hentries hpending hworkers hcanceled
    | expire =>
      obtain ⟨-, h⟩ := Option.ite_none_right_eq_some.mp h
      cases h
      exact .flags rfl rfl rfl fun _ => rfl
    | take now i =>
      obtain ⟨hguard, h⟩ := Option.ite_none_right_eq_some.mp h
      simp only [Bool.and_eq_true, decide_eq_true_eq] at hguard
      unfold Queue.take at h
      split at h
      · cases h
        exact .exits now i hguard.2
      · split at h <;> cases h
        exact .takes now i _ hguard.1.2 hguard.2 (List.mem_of_find?_eq_some ‹_›)
    | checked i terminal =>
      dsimp only [Queue.step] at h
      split at h
      · rename_i id hw
        cases h
        unfold Queue.complete
        split
        · rename_i hfollow
          simp only [Bool.and_eq_true, Bool.not_eq_true'] at hfollow
          obtain ⟨⟨rfl, -⟩, hlive⟩ := hfollow
          exact .follows i id hw hlive
        · rename_i hnot
          refine .releases i id terminal hw fun hterm hlive e he => ?_
          simpa [hterm, hlive, he] using hnot
      · cases h
    | finish =>
      obtain ⟨hguard, h⟩ := Option.ite_none_right_eq_some.mp h
      cases h
      simp only [Bool.and_eq_true, List.all_eq_true, List.mem_range, decide_eq_true_eq] at hguard
      exact .finishes hguard.2

end Queue.Change

/-! ## What always holds -/

structure Held (cfg : Config) (q : Queue) : Prop where
  slots : Queue.Slots cfg.concurrency q.workers Worker.holds q.pending q.ids
  bound : q.entries.length ≤ cfg.capacity
  processing : ∀ e ∈ q.entries, e.processing = true ↔ ∃ i, q.workers i = .checking e.id

theorem Held.init : Held cfg .init := ⟨.empty fun _ => rfl, Nat.zero_le _, by simp [Queue.init]⟩

theorem Held.waiting (h : Held cfg q) (he : e ∈ q.entries) (hw : e.id ∈ q.pending) :
    e.processing = false := by
  rw [← Bool.not_eq_true, h.processing e he]
  rintro ⟨i, hi⟩
  exact h.slots.notMem_waiting (by rw [hi]; rfl) hw

theorem checking_update {ws : ℕ → Worker} {w : Worker} (hold : ws i ≠ .checking id)
    (hnew : w ≠ .checking id) :
    (∃ j, Function.update ws i w j = .checking id) ↔ ∃ j, ws j = .checking id := by
  constructor
  · rintro ⟨j, hj⟩
    by_cases hji : j = i
    · rw [hji, Function.update_self] at hj
      exact absurd hj hnew
    · rw [Function.update_of_ne hji] at hj
      exact ⟨j, hj⟩
  · rintro ⟨j, hj⟩
    have hji : j ≠ i := by
      rintro rfl
      exact hold hj
    exact ⟨j, by rw [Function.update_of_ne hji, hj]⟩

theorem Held.not_checking_of_ready (h : Held cfg q) (hi : q.workers i = .checking id) :
    ¬ ∃ j, Function.update q.workers i .ready j = .checking id := by
  rintro ⟨j, hj⟩
  by_cases hji : j = i
  · rw [hji, Function.update_self] at hj
    cases hj
  · rw [Function.update_of_ne hji] at hj
    exact hji (h.slots.holder_unique (by rw [hj]; rfl) (by rw [hi]; rfl))

/-- One step keeps entries, workers and heap in agreement. -/
theorem Held.change (h : Held cfg q) (hc : Queue.Change cfg q m q') : Held cfg q' := by
  cases hc with
  | flags entries pending workers =>
    refine ⟨?_, ?_, ?_⟩
    · unfold Queue.ids
      rw [entries, pending, workers]
      exact h.slots
    · rw [entries]
      exact h.bound
    · rw [entries, workers]
      exact h.processing
  | merges _ now =>
    refine ⟨?_, ?_, ?_⟩
    · rw [Queue.ids_update (Queue.reserve_id now)]
      exact h.slots
    · rw [Queue.update, List.length_map]
      exact h.bound
    · intro e he
      obtain ⟨e0, he0, rfl⟩ := Queue.mem_update.mp he
      split
      · rw [Queue.reserve_processing, Queue.reserve_id]
        exact h.processing e0 he0
      · exact h.processing e0 he0
  | adds _ _ id new room =>
    refine ⟨?_, ?_, ?_⟩
    · rw [Queue.ids_addLocked]
      exact h.slots.add new
    · rw [Queue.addLocked, List.length_append]
      exact room
    · intro e he
      rcases List.mem_append.mp he with he | he
      · exact h.processing e he
      · cases List.mem_singleton.mp he
        refine ⟨nofun, fun ⟨i, hi⟩ => absurd ?_ new⟩
        exact h.slots.mem_held (by rw [show q.workers i = .checking id from hi]; rfl)
  | takes _ i id bound free waits =>
    refine ⟨?_, Nat.le_trans (Nat.le_of_eq (List.length_map _)) h.bound, fun e he => ?_⟩
    · have hids : (q.update id Queue.begin).ids = q.ids := Queue.ids_update fun _ => rfl
      refine (?_ : Queue.Slots _ _ _ _ (q.update id Queue.begin).ids)
      rw [hids]
      exact h.slots.take bound (free ▸ rfl) rfl (List.perm_cons_erase waits)
    · obtain ⟨e0, he0, rfl⟩ := Queue.mem_update.mp he
      by_cases hid : e0.id = id
      · rw [if_pos hid]
        refine ⟨fun _ => ⟨i, ?_⟩, fun _ => rfl⟩
        rw [← hid]
        exact Function.update_self ..
      · have hfree : q.workers i ≠ .checking e0.id := by
          rw [free]
          nofun
        rw [if_neg hid, h.processing e0 he0, ← checking_update hfree]
        rintro ⟨⟩
        exact hid rfl
  | exits _ i free =>
    refine ⟨h.slots.stay (free ▸ rfl), h.bound, fun e he => ?_⟩
    have hfree : q.workers i ≠ .checking e.id := by
      rw [free]
      nofun
    rw [h.processing e he, ← checking_update hfree (w := .exited) nofun]
  | follows i id checks =>
    have hheld : (q.workers i).holds = some id := checks ▸ rfl
    refine ⟨?_, Nat.le_trans (Nat.le_of_eq (List.length_map _)) h.bound, fun e he => ?_⟩
    · have hids : (q.update id Queue.again).ids = q.ids := Queue.ids_update fun _ => rfl
      refine (?_ : Queue.Slots _ _ _ _ (q.update id Queue.again).ids)
      rw [hids]
      exact h.slots.requeue hheld rfl List.perm_append_comm
    · obtain ⟨e0, he0, rfl⟩ := Queue.mem_update.mp he
      by_cases hid : e0.id = id
      · rw [if_pos hid]
        exact ⟨nofun, fun hj => absurd (hid ▸ hj) (h.not_checking_of_ready checks)⟩
      · have hother : q.workers i ≠ .checking e0.id := by
          rw [checks]
          rintro ⟨⟩
          exact hid rfl
        rw [if_neg hid, h.processing e0 he0, ← checking_update hother (w := .ready) nofun]
  | releases i id _ checks =>
    have hheld : (q.workers i).holds = some id := checks ▸ rfl
    refine ⟨?_, Nat.le_trans (List.length_filter_le ..) h.bound, fun e he => ?_⟩
    · refine h.slots.release hheld rfl ?_
      have herase : (q.entries.filter (·.id ≠ id)).map CheckEntry.id = q.ids.erase id := by
        rw [h.slots.nodup.erase_eq_filter, Queue.ids, List.filter_map]
        refine congrArg _ (List.filter_congr fun e _ => ?_)
        rw [Bool.eq_iff_iff]
        simp
      unfold Queue.ids at herase ⊢
      rw [herase]
      exact List.perm_cons_erase (h.slots.mem_held hheld)
    · obtain ⟨he, hid⟩ := List.mem_filter.mp he
      have hother : q.workers i ≠ .checking e.id := by
        rw [checks]
        rintro ⟨⟩
        simp at hid
      rw [h.processing e he, ← checking_update hother (w := .ready) nofun]
  | finishes exited =>
    refine ⟨.empty fun i => ?_, Nat.zero_le _, by simp⟩
    by_contra hheld
    rw [exited i (h.slots.pool i hheld)] at hheld
    exact hheld rfl

theorem held (cfg : Config) : (checkQueue cfg).Invariant (Held cfg) where
  init := .init
  step := fun _ _ _ h hm => h.change (.of_call h.bound hm)

/-! ## Accepted hints -/

def Takes (id : ℤ) (m : CallMove) (q' : Queue) : Prop :=
  ∃ now i, m = .queue (.take now i) ∧ q'.workers i = .checking id

def Reserved (k : ℕ) (id : ℤ) (q : Queue) : Prop :=
  q.workers k = .checking id ∧ ∃ e ∈ q.entries, e.id = id ∧ e.nextDue ≠ 0

theorem Held.entryAt_eq (h : Held cfg q) (he : e ∈ q.entries) : q.entryAt e.id = some e := by
  have hnodup : (q.entries.map CheckEntry.id).Nodup := h.slots.nodup
  unfold Queue.entryAt
  cases hfind : q.entries.find? (·.id == e.id) with
  | none =>
    have := List.find?_eq_none.mp hfind e he
    simp at this
  | some e' =>
    have hid : e'.id = e.id := by simpa using List.find?_some hfind
    rw [List.inj_on_of_nodup_map hnodup (List.mem_of_find?_eq_some hfind) he hid]

theorem Queue.Change.canceled (hc : Queue.Change cfg q m q') (h : q.canceled = true) :
    q'.canceled = true := by
  cases hc with
  | flags _ _ _ canceled => exact canceled h
  | finishes => rfl
  | _ => exact h

theorem Queue.Change.waits (hc : Queue.Change cfg q m q') (hw : id ∈ q.pending) :
    id ∈ q'.pending ∨ q'.canceled = true ∨ Takes id m q' := by
  cases hc with
  | flags _ pending => exact .inl (pending ▸ hw)
  | adds | follows => exact .inl (List.mem_append_left _ hw)
  | finishes => exact .inr (.inl rfl)
  | takes now i x =>
    by_cases hx : id = x
    · subst hx
      exact .inr (.inr ⟨now, i, rfl, Function.update_self ..⟩)
    · exact .inl ((List.mem_erase_of_ne hx).mpr hw)
  | _ => exact .inl hw

/-- A follow-up lasts until it waits, its check ends the round, or the queue is canceled. -/
theorem Held.reserved_step (h : Held cfg q) (hres : Reserved k id q) (hc : Queue.Change cfg q m q') :
    Reserved k id q' ∨ id ∈ q'.pending ∨ m = .queue (.checked k true) ∨ q'.canceled = true := by
  obtain ⟨hk, e, he, hid, hdue⟩ := hres
  have stays : ∀ {f : CheckEntry → CheckEntry} {x : ℤ}, (∀ e, (f e).id = e.id) →
      (x = id → (f e).nextDue ≠ 0) → ∃ e' ∈ (q.update x f).entries, e'.id = id ∧ e'.nextDue ≠ 0 := by
    intro f x hf hx
    refine ⟨_, Queue.mem_update.mpr ⟨e, he, rfl⟩, ?_⟩
    split
    · next hex => exact ⟨(hf e).trans hid, hx (hex.symm.trans hid)⟩
    · exact ⟨hid, hdue⟩
  have other : ∀ {i : ℕ} {w : Worker}, q.workers i ≠ .checking id →
      Function.update q.workers i w k = .checking id := by
    intro i w hi
    have hki : k ≠ i := by
      rintro rfl
      exact hi hk
    rw [Function.update_of_ne hki, hk]
  cases hc with
  | flags entries _ workers => exact .inl ⟨workers ▸ hk, e, entries ▸ he, hid, hdue⟩
  | merges _ now x clock =>
    refine .inl ⟨hk, stays (Queue.reserve_id now) fun hx => ?_⟩
    exact Queue.nextDue_reserve clock ((h.processing e he).mpr ⟨k, hid ▸ hk⟩)
  | adds => exact .inl ⟨hk, e, List.mem_append_left _ he, hid, hdue⟩
  | takes _ i x _ free =>
    refine .inl ⟨other (by rw [free]; nofun), stays (fun _ => rfl) fun _ => hdue⟩
  | exits _ i free => exact .inl ⟨other (by rw [free]; nofun), e, he, hid, hdue⟩
  | follows i x checks =>
    by_cases hx : x = id
    · subst hx
      exact .inr (.inl (List.mem_append_right _ (List.mem_singleton_self _)))
    · refine .inl ⟨other ?_, stays (fun _ => rfl) fun heq => absurd heq hx⟩
      rw [checks]
      rintro ⟨⟩
      exact hx rfl
  | releases i x terminal checks last =>
    by_cases hx : x = id
    · subst hx
      have hik : i = k := h.slots.holder_unique (by rw [checks]; rfl) (by rw [hk]; rfl)
      subst hik
      cases terminal with
      | true => exact .inr (.inr (.inl rfl))
      | false =>
        cases hlive : q.canceled with
        | true => exact .inr (.inr (.inr rfl))
        | false => exact absurd (last rfl hlive e (hid ▸ h.entryAt_eq he)) hdue
    · have hother : q.workers i ≠ .checking id := by
        rw [checks]
        rintro ⟨⟩
        exact hx rfl
      refine .inl ⟨other hother, e, List.mem_filter.mpr ⟨he, ?_⟩, hid, hdue⟩
      rw [hid]
      simpa using Ne.symm hx
  | finishes => exact .inr (.inr (.inr rfl))

/-- An accepted ID waits, or its worker will leave a follow-up. -/
theorem Held.accepts (h : Held cfg q) {q₀ : Queue} (ha : q.Accepts cfg id m q₀)
    (hm : q.call cfg m = some q₀) : id ∈ q₀.pending ∨ ∃ k, Reserved k id q₀ := by
  have merged : ∀ {now : ℤ}, 0 ≤ now → id ∈ q.ids →
      id ∈ q.pending ∨ ∃ k, Reserved k id (q.update id (Queue.reserve now)) := by
    intro now hnow hold
    rcases List.mem_append.mp (h.slots.perm.mem_iff.mp hold) with hw | hheld
    · exact .inl hw
    · obtain ⟨k, -, hk⟩ := Machine.Pool.mem_collect.mp hheld
      obtain ⟨e, he, rfl⟩ := List.mem_map.mp hold
      have hk : q.workers k = .checking e.id := by
        cases hw : q.workers k <;> rw [hw] at hk <;> cases hk
        rfl
      refine .inr ⟨k, hk, Queue.reserve now e, Queue.mem_update.mpr ⟨e, he, if_pos rfl⟩,
        Queue.reserve_id now e, Queue.nextDue_reserve hnow ((h.processing e he).mpr ⟨k, hk⟩)⟩
  cases ha with
  | hint _ _ ha =>
    obtain ⟨hnow, -⟩ := Option.ite_none_right_eq_some.mp hm
    rcases Queue.hint_accepts ha with ⟨hold, rfl⟩ | ⟨-, rfl⟩
    · exact merged hnow hold
    · exact .inl (List.mem_append_right _ (List.mem_singleton_self _))
  | recovery _ _ _ ha =>
    obtain ⟨hnow, -⟩ := Option.ite_none_right_eq_some.mp hm
    rcases Queue.hintRecovery_accepts ha with ⟨hold, rfl⟩ | ⟨-, -, rfl⟩
    · exact merged hnow hold
    · exact .inl (List.mem_append_right _ (List.mem_singleton_self _))

/-! ## Whole runs -/

variable {q₀ q₁ : Queue}

/-- What has become of an ID whose hint was accepted in `q₀`. -/
inductive Kept (cfg : Config) (id : ℤ) (q₀ : Queue) (ms : List CallMove) (q₁ : Queue) : Prop where
  | retained (h : id ∈ q₁.ids)
  | canceled (h : q₁.canceled = true)
  | taken {t t' : Queue} {m : CallMove} (step : (checkQueue cfg).StepIn q₀ ms q₁ t m t')
      (takes : Takes id m t')
  /-- The check that was in progress has reported a terminal instance. -/
  | terminal {k : ℕ} {before after : List CallMove} (checks : q₀.workers k = .checking id)
      (split : ms = before ++ .queue (.checked k true) :: after)
      (first : ∀ terminal, .queue (.checked k terminal) ∉ before)

theorem canceled_run (h0 : Held cfg q₀) (hr : (checkQueue cfg).runFrom q₀ ms = some q₁)
    (hc : q₀.canceled = true) : q₁.canceled = true :=
  (held cfg).keep
    (fun _ _ _ h hp hm => (Queue.Change.of_call h.bound hm).canceled hp) h0 hc hr

theorem kept_of_waits (h0 : Held cfg q₀) (hr : (checkQueue cfg).runFrom q₀ ms = some q₁)
    (hw : id ∈ q₀.pending) : Kept cfg id q₀ ms q₁ := by
  have hkeeps := (Along.of_any hr).keeps_or (P := fun q => id ∈ q.pending ∨ q.canceled = true)
    (D := fun _ m t' => Takes id m t') (held cfg) (fun s m s' h hp hm _ => ?_) h0 (.inl hw)
  · rcases hkeeps with (hw | hc) | ⟨t, m, t', hin, htakes⟩
    · exact .retained (((held cfg).runFrom h0 hr).slots.mem_waiting hw)
    · exact .canceled hc
    · exact .taken hin htakes
  · have hchange := Queue.Change.of_call h.bound hm
    rcases hp with hw | hc
    · rcases hchange.waits hw with hw | hc | htakes
      · exact .inl (.inl hw)
      · exact .inl (.inr hc)
      · exact .inr htakes
    · exact .inl (.inr (hchange.canceled hc))

theorem Kept.cons (hm : (checkQueue cfg).step q₀ m = some q) (hk : ∀ k, q.workers k = .checking id →
    q₀.workers k = .checking id ∧ ∀ terminal, m ≠ .queue (.checked k terminal))
    (h : Kept cfg id q ms q₁) : Kept cfg id q₀ (m :: ms) q₁ := by
  cases h with
  | retained h => exact .retained h
  | canceled h => exact .canceled h
  | taken step takes => exact .taken (step.cons hm) takes
  | @terminal k before after checks split first =>
    obtain ⟨hk0, hother⟩ := hk k checks
    have hsplit : m :: ms = m :: before ++ .queue (.checked k true) :: after := split ▸ rfl
    refine .terminal hk0 hsplit fun terminal hmem => ?_
    rcases List.mem_cons.mp hmem with heq | hmem
    · exact hother terminal heq.symm
    · exact first terminal hmem

theorem checking_of_checked {terminal : Bool}
    (h : (checkQueue cfg).step q (.queue (.checked k terminal)) = some q') :
    q'.workers k ≠ .checking id := by
  dsimp only [checkQueue, Queue.call] at h
  obtain ⟨-, h⟩ := Option.ite_none_right_eq_some.mp h
  dsimp only [Queue.step] at h
  split at h <;> cases h
  dsimp only
  rw [Function.update_self]
  nofun

theorem kept_of_reserved (h0 : Held cfg q₀) (hr : (checkQueue cfg).runFrom q₀ ms = some q₁)
    (hres : Reserved k id q₀) : Kept cfg id q₀ ms q₁ := by
  induction ms generalizing q₀ with
  | nil =>
    cases hr
    exact .retained (h0.slots.mem_held (by rw [hres.1]; rfl))
  | cons m _ ih =>
    obtain ⟨q, hm, hr⟩ := runFrom_cons.mp hr
    have hchange := Queue.Change.of_call h0.bound hm
    have hq := h0.change hchange
    rcases h0.reserved_step hres hchange with hres' | hw | rfl | hc
    · -- the check goes on
      refine Kept.cons hm (fun j hj => ?_) (ih hq hr hres')
      obtain rfl : j = k := hq.slots.holder_unique (by rw [hj]; rfl) (by rw [hres'.1]; rfl)
      refine ⟨hres.1, ?_⟩
      rintro terminal rfl
      exact checking_of_checked hm hj
    · refine Kept.cons hm (fun j hj => ?_) (kept_of_waits hq hr hw)
      exact absurd hw (hq.slots.notMem_waiting (by rw [hj]; rfl))
    · exact .terminal hres.1 (List.nil_append _).symm nofun
    · exact .canceled (canceled_run hq hr hc)

/--
The check queue. IDs are retained within the capacity, each of them in one place; an accepted hint
is followed by a check, unless the check in progress finds the instance terminal; and a hint does
not move the due time of an entry that waits.
-/
theorem check_queue_hints (cfg : Config) (ms : List CallMove) (q : Queue)
    (h : (checkQueue cfg).run ms = some q) :
    q.entries.length ≤ cfg.capacity ∧
    (∀ now expired id q₀, q.call cfg (.hintRecovery now expired id) = some q₀ →
      q₀.ids ≠ q.ids → q.entries.length < max 1 (cfg.capacity / 2)) ∧
    q.ids.Nodup ∧
    (∀ id ∈ q.ids, (q.pending.count id = 1 ∧ ∀ i, (q.workers i).holds ≠ some id) ∨
      id ∉ q.pending ∧ ∃ i, (q.workers i).holds = some id ∧ ∀ j, (q.workers j).holds = some id → j = i) ∧
    (∀ i j id, q.workers i = .checking id → q.workers j = .checking id → i = j) ∧
    (∀ m id q₀ ms' q₁, q.Accepts cfg id m q₀ → q.call cfg m = some q₀ →
      (checkQueue cfg).runFrom q₀ ms' = some q₁ → Kept cfg id q₀ ms' q₁) ∧
    ∀ m q₀, m.isHint = true → q.call cfg m = some q₀ →
      ∀ e ∈ q.entries, e.id ∈ q.pending → e ∈ q₀.entries := by
  have hheld := (held cfg).run h
  refine ⟨hheld.bound, ?_, hheld.slots.nodup, fun id => hheld.slots.once, ?_, ?_, ?_⟩
  · intro now expired id q₀ hm hnew
    cases Queue.Change.of_call hheld.bound hm with
    | flags entries => exact absurd (congrArg (List.map CheckEntry.id) entries) hnew
    | merges _ now' => exact absurd (Queue.ids_update (Queue.reserve_id now')) hnew
    | adds _ _ _ _ _ recovery => exact recovery now expired id rfl
  · intro i j id hi hj
    exact hheld.slots.holder_unique (by rw [hi]; rfl) (by rw [hj]; rfl)
  · intro m id q₀ ms' q₁ ha hm hr
    have hq₀ := hheld.change (.of_call hheld.bound hm)
    rcases hheld.accepts ha hm with hw | ⟨k, hres⟩
    · exact kept_of_waits hq₀ hr hw
    · exact kept_of_reserved hq₀ hr hres
  · intro m q₀ hint hm e he hw
    cases Queue.Change.of_call hheld.bound hm with
    | flags entries => exact entries ▸ he
    | merges =>
      refine Queue.mem_update.mpr ⟨e, he, ?_⟩
      rw [Queue.reserve_of_waiting (hheld.waiting he hw), ite_self]
    | adds => exact List.mem_append_left _ he
    | _ => cases hint

/-! ## A hint during a check -/

namespace Demo

def one : Config :=
  { capacity := 1, concurrency := 1, capacity_pos := Nat.one_pos, concurrency_pos := Nat.one_pos }

def checking : List CallMove := [.queue .start, .queue (.hint 0 7), .queue (.take mergeWindow 0)]

end Demo

theorem demo_follow_up : ∃ q q₀ q₁, (checkQueue Demo.one).run Demo.checking = some q ∧
    q.Accepts Demo.one 7 (.queue (.hint mergeWindow 7)) q₀ ∧
      Kept Demo.one 7 q₀ [.queue (.checked 0 false)] q₁ := by
  obtain ⟨q, hr, htrue, q₁, hr₁, -⟩ : ∃ q ∈ (checkQueue Demo.one).run Demo.checking,
      (q.hint Demo.one mergeWindow 7).1 = true ∧
      ∃ q₁ ∈ (checkQueue Demo.one).runFrom (q.hint Demo.one mergeWindow 7).2
        [.queue (.checked 0 false)], True := by decide +kernel
  have haccepts : q.Accepts Demo.one 7 (.queue (.hint mergeWindow 7)) (q.hint Demo.one mergeWindow 7).2 :=
    .hint mergeWindow _ (by rw [← htrue])
  obtain ⟨-, -, -, -, -, hkept, -⟩ := check_queue_hints Demo.one Demo.checking q hr
  exact ⟨q, _, q₁, hr, haccepts, hkept _ 7 _ _ q₁ haccepts rfl hr₁⟩

end Dogx.InstanceCheck
