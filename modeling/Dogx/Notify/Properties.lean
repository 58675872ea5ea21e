import Dogx.Notify.Accounts

/-!
# The notifier over whole runs

The books of the notifier agree in every state until the last worker has exited, and what they say of
released entries and queued addresses remains true after that.
-/

namespace Dogx.Notify

namespace Notifier

variable {cfg : Config} {s s' : Notifier} {id w now : ℕ} {e e' : Entry} {t : Target} {st : Sender}
  {ended : List ℕ}

/-! ## The order in which a notifier is closed -/

structure Gates (cfg : Config) (s : Notifier) : Prop where
  canceled : s.canceled = true → s.stopping = true
  reader : s.reader = .exited → s.stopping = true
  housekeeper : s.housekeeper = .exited → s.stopping = true
  senders : ∀ w, s.senders w = .exited → s.stopping = true
  idle : s.started = false →
    s.reader = .absent ∧ s.housekeeper = .absent ∧ ∀ w, s.senders w = .absent
  completed : s.completed = true → s.stopping = true
  finished : s.completed = true → s.started = true → s.allExited cfg = true

structure Frame (s s' : Notifier) : Prop where
  started : s'.started = s.started
  stopping : s'.stopping = s.stopping
  completed : s'.completed = s.completed
  canceled : s'.canceled = s.canceled
  reader : s'.reader = s.reader
  housekeeper : s'.housekeeper = s.housekeeper
  senders : s'.senders = s.senders

namespace Frame

theorem refl (s : Notifier) : Frame s s := ⟨rfl, rfl, rfl, rfl, rfl, rfl, rfl⟩

theorem trans {s'' : Notifier} (h : Frame s s') (h' : Frame s' s'') : Frame s s'' :=
  ⟨h'.started.trans h.started, h'.stopping.trans h.stopping, h'.completed.trans h.completed,
    h'.canceled.trans h.canceled, h'.reader.trans h.reader, h'.housekeeper.trans h.housekeeper,
    h'.senders.trans h.senders⟩

theorem releaseLocked (s : Notifier) (id : ℕ) : Frame s (s.releaseLocked id) := by
  unfold Notifier.releaseLocked
  split
  · exact .refl s
  · split <;> exact ⟨rfl, rfl, rfl, rfl, rfl, rfl, rfl⟩

theorem foldl {α : Type} {f : Notifier → α → Notifier} (hf : ∀ s a, Frame s (f s a)) (l : List α)
    (s : Notifier) : Frame s (l.foldl f s) := by
  induction l generalizing s with
  | nil => exact .refl s
  | cons a l ih => exact (hf s a).trans (ih (f s a))

theorem sweep (s : Notifier) (now : ℕ) (ended : List ℕ) : Frame s (s.sweep now ended) := by
  refine ((foldl (fun s p => ?_) _ _).trans (foldl (fun s t => ?_) _ _)).trans
    (foldl (fun s p => ?_) _ _)
  · unfold expireEntry
    split
    · exact .refl s
    · split <;> exact ⟨rfl, rfl, rfl, rfl, rfl, rfl, rfl⟩
  · unfold dropTarget
    split <;> exact ⟨rfl, rfl, rfl, rfl, rfl, rfl, rfl⟩
  · unfold releaseEntry
    split
    · exact .releaseLocked s p.2
    · exact .refl s

end Frame

namespace Gates

theorem init : Gates cfg .init where
  canceled := nofun
  reader := nofun
  housekeeper := nofun
  senders _ := nofun
  idle _ := ⟨rfl, rfl, fun _ => rfl⟩
  completed := nofun
  finished := nofun

variable (h : Gates cfg s)
include h

theorem congr (hf : Frame s s') : Gates cfg s' := by
  refine ⟨?_, ?_, ?_, ?_, ?_, ?_, ?_⟩
  · rw [hf.canceled, hf.stopping]; exact h.canceled
  · rw [hf.reader, hf.stopping]; exact h.reader
  · rw [hf.housekeeper, hf.stopping]; exact h.housekeeper
  · rw [hf.senders, hf.stopping]; exact h.senders
  · rw [hf.started, hf.reader, hf.housekeeper, hf.senders]; exact h.idle
  · rw [hf.completed, hf.stopping]; exact h.completed
  · unfold allExited
    rw [hf.completed, hf.started, hf.reader, hf.housekeeper, hf.senders]
    exact h.finished

theorem work (hstarted : s.started = true) (hopen : s.completed = false) {reader : Reader}
    {housekeeper : Housekeeper} {senders : ℕ → Sender}
    (hreader : reader = .exited → s.stopping = true)
    (hhousekeeper : housekeeper = .exited → s.stopping = true)
    (hsenders : ∀ w, senders w = .exited → s.stopping = true) :
    Gates cfg { s with reader, housekeeper, senders } where
  canceled := h.canceled
  reader := hreader
  housekeeper := hhousekeeper
  senders := hsenders
  idle hs := absurd (hstarted.symm.trans hs) (by simp)
  completed := h.completed
  finished hc := absurd (hopen.symm.trans hc) (by simp)

theorem stopping_of_over (hover : s.atEnd = true) : s.stopping = true := by
  simp only [atEnd, Bool.or_eq_true, Bool.and_eq_true] at hover
  exact hover.elim h.canceled And.left

theorem running
    (hpresent : s.reader = .absent → s.housekeeper = .absent → ∃ w, s.senders w ≠ .absent)
    (hwork : s.allExited cfg = false) : s.started = true ∧ s.completed = false := by
  have hstarted : s.started = true := by
    by_contra hnew
    obtain ⟨hreader, hhousekeeper, hsenders⟩ := h.idle (by simpa using hnew)
    obtain ⟨w, hw⟩ := hpresent hreader hhousekeeper
    exact hw (hsenders w)
  refine ⟨hstarted, ?_⟩
  by_contra hdone
  have hall := h.finished (by simpa using hdone) hstarted
  cases hwork.symm.trans hall

theorem running_reader (hr : s.reader ≠ .absent) (hr' : s.reader ≠ .exited) :
    s.started = true ∧ s.completed = false :=
  h.running (fun habsent => absurd habsent hr) (by simp [allExited, hr'])

theorem running_housekeeper (hk : s.housekeeper = .running) :
    s.started = true ∧ s.completed = false :=
  h.running (fun _ habsent => by rw [hk] at habsent; cases habsent) (by simp [allExited, hk])

theorem running_sender (hlt : w < cfg.concurrency) (hw : s.senders w ≠ .absent)
    (hw' : s.senders w ≠ .exited) : s.started = true ∧ s.completed = false := by
  refine h.running (fun _ _ => ⟨w, hw⟩) ?_
  rw [← Bool.not_eq_true]
  intro hall
  simp only [allExited, Bool.and_eq_true, List.all_eq_true, List.mem_range, decide_eq_true_eq] at hall
  exact hw' (hall.2 w hlt)

end Gates

/-! ## Runs -/

structure Reached (cfg : Config) (s : Notifier) : Prop where
  gates : Gates cfg s
  sound : s.completed = false ∨ s.started = false → Sound cfg s
  tidy : Tidy s
  last : ∃ t, Sound cfg t ∧ t.heap = s.heap ∧ t.released = s.released ∧ t.queued = s.queued ∧
    t.senders = s.senders

namespace Reached

theorem of_sound (hg : Gates cfg s) (h : Sound cfg s) (htidy : Tidy s) : Reached cfg s :=
  ⟨hg, fun _ => h, htidy, s, h, rfl, rfl, rfl, rfl⟩

variable (h : Reached cfg s)
include h

theorem sound_of_opening (hopen : s.stopping = false) : Sound cfg s := by
  refine h.sound (.inl ?_)
  by_contra hdone
  have hstop := h.gates.completed (by simpa using hdone)
  cases hopen.symm.trans hstop

theorem sound_of_working (hwork : s.allExited cfg = false) : Sound cfg s := by
  refine h.sound ?_
  by_contra hdone
  simp only [not_or, Bool.not_eq_false] at hdone
  have hall := h.gates.finished hdone.1 hdone.2
  cases hwork.symm.trans hall

theorem start (hs : s.start cfg = some s') : Reached cfg s' := by
  obtain ⟨hnew, ⟨⟩⟩ := Option.ite_none_left_eq_some.mp hs
  simp only [Bool.or_eq_true, not_or, Bool.not_eq_true] at hnew
  obtain ⟨hreader, -, hsenders⟩ := h.gates.idle hnew.1
  have hsound := h.sound_of_opening hnew.2
  refine .of_sound ?_ (hsound.start hreader hsenders) h.tidy
  refine ⟨h.gates.canceled, nofun, nofun, fun w hw => ?_, nofun, h.gates.completed, fun hdone => ?_⟩
  · dsimp only at hw
    split at hw <;> cases hw
  · have hstop := h.gates.completed hdone
    cases hnew.2.symm.trans hstop

theorem hint (now : ℕ) (n : Notification) : Reached cfg (s.hint cfg now n).2 := by
  by_cases hstop : s.stopping = true
  · have hsame : (s.hint cfg now n).2 = s := by simp [Notifier.hint, hstop]
    rw [hsame]
    exact h
  · have hsound := h.sound_of_opening (by simpa using hstop)
    refine .of_sound (h.gates.congr ?_) (hsound.hint now n) (h.tidy.hint now n)
    unfold Notifier.hint
    split
    · exact .refl s
    split
    · exact .refl s
    · split <;> exact ⟨rfl, rfl, rfl, rfl, rfl, rfl, rfl⟩

theorem stop : Reached cfg s.stop := by
  unfold Notifier.stop
  split
  · exact h
  next hopen =>
    have hsound := h.sound_of_opening (by simpa using hopen)
    split
    next hnew =>
      have hnew : s.started = false := by simpa using hnew
      refine .of_sound ⟨fun _ => rfl, fun _ => rfl, fun _ => rfl, fun _ _ => rfl, h.gates.idle,
        fun _ => rfl, fun _ hstarted => ?_⟩ hsound.flags h.tidy
      exact absurd (hstarted.symm.trans hnew) (by simp)
    next =>
      exact .of_sound ⟨fun _ => rfl, fun _ => rfl, fun _ => rfl, fun _ _ => rfl, h.gates.idle,
        fun _ => rfl, h.gates.finished⟩ hsound.flags h.tidy

theorem cancel (hstop : s.stopping = true) : Reached cfg { s with canceled := true } :=
  ⟨⟨fun _ => hstop, h.gates.reader, h.gates.housekeeper, h.gates.senders, h.gates.idle,
    h.gates.completed, h.gates.finished⟩, fun hopen => (h.sound hopen).flags, h.tidy, h.last⟩

theorem read (hr : s.reader ≠ .absent) (hr' : s.reader ≠ .exited)
    (hflags : Frame { s with reader := s'.reader } s') (hexit : s'.reader = .exited → s.atEnd = true)
    (hsound : Sound cfg s → Sound cfg s' ∧ Tidy s') : Reached cfg s' := by
  obtain ⟨hstarted, hopen⟩ := h.gates.running_reader hr hr'
  obtain ⟨hsound, htidy⟩ := hsound (h.sound (.inl hopen))
  refine .of_sound (Gates.congr ?_ hflags) hsound htidy
  exact h.gates.work hstarted hopen (fun hx => h.gates.stopping_of_over (hexit hx))
    h.gates.housekeeper h.gates.senders

theorem takeEnumeration (hr : s.reader = .ready) (hs : s.takeEnumeration cfg = some s') :
    Reached cfg s' := by
  unfold Notifier.takeEnumeration at hs
  split at hs
  next hover =>
    cases hs
    refine h.read (by simp [hr]) (by simp [hr]) (.refl _) (fun _ => hover) fun hsound => ?_
    exact ⟨hsound.setReader (hr ▸ rfl) nofun, h.tidy⟩
  next =>
    split at hs
    · split at hs
      · cases hs
      next id rest hfirst =>
        obtain ⟨e, he, ⟨⟩⟩ := Option.bind_eq_some_iff.mp hs
        exact h.read (by simp [hr]) (by simp [hr]) ⟨rfl, rfl, rfl, rfl, rfl, rfl, rfl⟩ nofun
          fun hsound => ⟨hsound.takeEntry hr hfirst he, h.tidy.setEntry rfl rfl fun _ => nofun⟩
    · cases hs

theorem answer {page : Option (List String)} (hr : s.reader = .querying id)
    (he : s.heap id = some e) (hpage : page.all (lawful cfg e.cursor) = true) :
    Reached cfg (s.answer cfg id page) := by
  refine h.read (by simp [hr]) (by simp [hr]) ?_ ?_ fun hsound => ⟨hsound.answer hr he hpage, ?_⟩
  all_goals
    unfold Notifier.answer
    repeat' split
  all_goals first
    | exact ⟨rfl, rfl, rfl, rfl, rfl, rfl, rfl⟩
    | exact h.tidy
    | exact nofun

theorem offer {ended : Bool} {address : String} {rest : List String}
    (hr : s.reader = .offering id (address :: rest)) (he : s.heap id = some e)
    (hs : s.offer cfg now ended id e address rest = some s') : Reached cfg s' := by
  have hsound : Tidy s' → Sound cfg s → Sound cfg s' ∧ Tidy s' := fun htidy hsound =>
    ⟨hsound.offer hr he hs, htidy⟩
  unfold Notifier.offer at hs
  split at hs
  · cases hs
    exact h.read (by simp [hr]) (by simp [hr]) (.refl _) nofun (hsound h.tidy)
  split at hs
  · cases hs
    exact h.read (by simp [hr]) (by simp [hr]) (.refl _) nofun (hsound h.tidy)
  · obtain ⟨-, ⟨⟩⟩ := Option.ite_none_right_eq_some.mp hs
    refine h.read (by simp [hr]) (by simp [hr]) ⟨rfl, rfl, rfl, rfl, rfl, rfl, rfl⟩ (fun hx => ?_)
      (hsound (h.tidy.setEntry rfl rfl fun _ _ => Nat.succ_ne_zero _))
    cases rest <;> cases hx

theorem finishEnumeration {ended complete : Bool} (hr : s.reader = .finishing id complete)
    (he : s.heap id = some e) : Reached cfg (s.finishEnumeration now ended id e complete) := by
  have hframe := Frame.releaseLocked
    (s.endPage id e (e.enumerated || complete || ended || !(now < e.deadline))) id
  have hpage : ∀ b, Frame { s with reader := .ready } (s.endPage id e b) := by
    intro b
    unfold endPage
    split <;> exact ⟨rfl, rfl, rfl, rfl, rfl, rfl, rfl⟩
  have hready : (s.finishEnumeration now ended id e complete).reader = .ready :=
    hframe.reader.trans (hpage _).reader
  refine h.read (by simp [hr]) (by simp [hr]) ?_ (by rw [hready]; nofun) fun hsound =>
    ⟨hsound.finishEnumeration (hr ▸ rfl) he, h.tidy.finishEnumeration hsound (hr ▸ rfl) he⟩
  rw [hready]
  exact (hpage _).trans hframe

/-! ### Sender workers -/

theorem send (hw : s.senders w ≠ .absent) (hw' : s.senders w ≠ .exited)
    (hflags : Frame (s.setSender w st) s') (hexit : st = .exited → s.atEnd = true)
    (hsound : Sound cfg s → Sound cfg s' ∧ Tidy s') : Reached cfg s' := by
  obtain ⟨t, ht, -, -, -, hsenders⟩ := h.last
  have hlt : w < cfg.concurrency := ht.lt_of_present (hsenders ▸ hw)
  obtain ⟨hstarted, hopen⟩ := h.gates.running_sender hlt hw hw'
  obtain ⟨hsound, htidy⟩ := hsound (h.sound (.inl hopen))
  refine .of_sound (Gates.congr ?_ hflags) hsound htidy
  refine h.gates.work hstarted hopen h.gates.reader h.gates.housekeeper fun i hi => ?_
  by_cases hiw : i = w
  · rw [hiw, Function.update_self] at hi
    exact h.gates.stopping_of_over (hexit hi)
  · rw [Function.update_of_ne hiw] at hi
    exact h.gates.senders i hi

theorem takeTarget (hw : s.senders w = .ready) (hs : s.takeTarget w = some s') :
    Reached cfg s' := by
  unfold Notifier.takeTarget at hs
  split at hs
  next hover =>
    cases hs
    exact h.send (by simp [hw]) (by simp [hw]) (.refl _) (fun _ => hover)
      fun hsound => ⟨hsound.exitSender hw, h.tidy⟩
  next =>
    split at hs
    · cases hs
    next t ts hfirst =>
      cases hs
      exact h.send (by simp [hw]) (by simp [hw]) ⟨rfl, rfl, rfl, rfl, rfl, rfl, rfl⟩ (by simp)
        fun hsound => ⟨hsound.takeTarget hw hfirst, h.tidy⟩

theorem sent (hw : s.senders w = .sending t) : Reached cfg (s.sent w t) := by
  have hrelease := Frame.releaseLocked ((s.setSender w .ready).uncount t) t.entry
  have hframe : Frame (s.setSender w .ready) (s.sent w t) :=
    ⟨hrelease.started, hrelease.stopping, hrelease.completed, hrelease.canceled, hrelease.reader,
      hrelease.housekeeper, hrelease.senders⟩
  exact h.send (by simp [hw]) (by simp [hw]) hframe nofun fun hsound =>
    ⟨hsound.sent hw, h.tidy.sent hsound hw⟩

/-! ### Housekeeping and completion -/

theorem expire (hk : s.housekeeper = .running) : Reached cfg (s.expire now ended) := by
  obtain ⟨hstarted, hopen⟩ := h.gates.running_housekeeper hk
  have hframe := Frame.sweep s now ended
  have hgates := h.gates.congr hframe
  have hsound : Sound cfg (s.sweep now ended) := (h.sound (.inl hopen)).sweep
  have htidy : Tidy (s.sweep now ended) := (h.sound (.inl hopen)).sweep_tidy
  unfold Notifier.expire
  dsimp only
  split
  next hover =>
    refine .of_sound ?_ hsound.flags htidy
    exact hgates.work (hframe.started.trans hstarted) (hframe.completed.trans hopen) hgates.reader
      (fun _ => hgates.stopping_of_over hover) hgates.senders
  next => exact .of_sound hgates hsound htidy

theorem finish (hall : s.allExited cfg = true) (hopen : s.completed = false) :
    Reached cfg s.finish := by
  have hreader : s.reader = .exited := by
    simp only [allExited, Bool.and_eq_true, decide_eq_true_eq] at hall
    exact hall.1.1
  have hstop := h.gates.reader hreader
  have hstarted : s.started = true := by
    by_contra hnew
    have hidle := (h.gates.idle (by simpa using hnew)).1
    cases hreader.symm.trans hidle
  refine ⟨⟨fun _ => hstop, h.gates.reader, h.gates.housekeeper, h.gates.senders, h.gates.idle,
    fun _ => hstop, fun _ _ => hall⟩, fun hor => ?_, nofun, s, h.sound (.inl hopen), rfl, rfl, rfl, rfl⟩
  rcases hor with hor | hor
  · cases hor
  · exact absurd (hstarted.symm.trans hor) (by simp)

end Reached

/-- The accounts are right in every run of the notifier. -/
theorem reached (cfg : Config) : (notifier cfg).Invariant (Reached cfg) where
  init := .of_sound .init .init nofun
  step s m s' h hs := by
    cases m with
    | start => exact h.start hs
    | hint now n => cases hs; exact h.hint now n
    | stop => cases hs; exact h.stop
    | cancel =>
      obtain ⟨hstop, ⟨⟩⟩ := Option.ite_none_right_eq_some.mp hs
      exact h.cancel hstop
    | takeEnumeration =>
      simp only [notifier, step] at hs
      split at hs
      next hr => exact h.takeEnumeration hr hs
      · cases hs
    | answer =>
      simp only [notifier, step] at hs
      split at hs
      next hr =>
        obtain ⟨e, he, hs⟩ := Option.bind_eq_some_iff.mp hs
        obtain ⟨hpage, ⟨⟩⟩ := Option.ite_none_right_eq_some.mp hs
        exact h.answer hr he hpage
      · cases hs
    | offer =>
      simp only [notifier, step] at hs
      split at hs
      next hr =>
        obtain ⟨e, he, hs⟩ := Option.bind_eq_some_iff.mp hs
        exact h.offer hr he hs
      · cases hs
    | finishEnumeration =>
      simp only [notifier, step] at hs
      split at hs
      next hr =>
        obtain ⟨e, he, ⟨⟩⟩ := Option.map_eq_some_iff.mp hs
        exact h.finishEnumeration hr he
      · cases hs
    | takeTarget =>
      simp only [notifier, step] at hs
      split at hs
      next hw => exact h.takeTarget hw hs
      · cases hs
    | sent =>
      simp only [notifier, step] at hs
      split at hs
      next hw => cases hs; exact h.sent hw
      · cases hs
    | expire =>
      simp only [notifier, step] at hs
      split at hs
      next hk => cases hs; exact h.expire hk
      · cases hs
    | finish =>
      obtain ⟨hall, ⟨⟩⟩ := Option.ite_none_right_eq_some.mp hs
      simp only [Bool.and_eq_true, Bool.not_eq_true'] at hall
      exact h.finish hall.1 hall.2

end Notifier

/-! ## The notifier over whole runs -/

/--
Until the last worker has exited, the counters of the notifier are the targets queued and in
progress, the entries listed for enumeration are those to be read, and the entries retained are
those admitted and not released. No entry is released twice or too early, and none is retained that
is to be released; the addresses queued for an entry are strictly increasing.
-/
theorem notifier_books {cfg : Config} {ms : List Move} {s : Notifier}
    (h : (notifier cfg).run ms = some s) :
    (s.allExited cfg = false →
      s.targetCount = s.targets.length + (s.inProgress cfg).length ∧
      s.targetCount ≤ cfg.targetCapacity ∧
      (∀ id e, s.heap id = some e → e.outstanding =
        (s.targets.map Target.entry).count id + ((s.inProgress cfg).map Target.entry).count id) ∧
      (∀ id ∈ s.entries.map Prod.snd, ∃ e, s.heap id = some e ∧
        (id ∈ s.enumerating ↔ e.reading = false ∧ e.enumerated = false)) ∧
      (∀ id, id ∈ s.entries.map Prod.snd ↔ id < s.admitted ∧ id ∉ s.released)) ∧
    s.released.Nodup ∧
    (∀ id ∈ s.released, ∃ e, s.heap id = some e ∧
      e.enumerated = true ∧ e.reading = false ∧ e.outstanding = 0) ∧
    (∀ id ∈ s.entries.map Prod.snd, ∀ e, s.heap id = some e →
      ¬ (e.enumerated = true ∧ e.reading = false ∧ e.outstanding = 0)) ∧
    (∀ id, (s.queued id).Pairwise (fun a b => cfg.collation.lt a b = true) ∧ (s.queued id).Nodup) := by
  have hreached := (Notifier.reached cfg).run h
  obtain ⟨t, ht, hheap, hreleased, hqueued, -⟩ := hreached.last
  refine ⟨fun hwork => ?_, hreleased ▸ ht.kept.once, fun id hid => ?_,
    fun id hid e he hidle => hreached.tidy id hid ⟨e, he, hidle⟩, fun id => ?_⟩
  · have hsound := hreached.sound_of_working hwork
    refine ⟨?_, hsound.counts.room, fun id e he => ?_, fun id hid => ?_, hsound.kept.retained⟩
    · rw [hsound.counts.total, Notifier.inFlight, List.length_append]
    · have hown := hsound.counts.own id
      rwa [Notifier.view_of_heap he, Notifier.inFlight, List.map_append, List.count_append] at hown
    · obtain ⟨e, he⟩ := Option.isSome_iff_exists.mp
        ((hsound.made id).mpr ((hsound.kept.retained id).mp hid).1)
      have hlisted := hsound.listing.listed id
      rw [Notifier.view_of_heap he, Notifier.view_of_heap he] at hlisted
      exact ⟨e, he, hlisted.trans (and_iff_right hid)⟩
  · rw [← hreleased] at hid
    obtain ⟨e, he⟩ := Option.isSome_iff_exists.mp ((ht.made id).mpr (ht.kept.lt id hid))
    have hsettled := ht.settled id hid
    rw [Notifier.view_of_heap he, Notifier.view_of_heap he, Notifier.view_of_heap he] at hsettled
    exact ⟨e, hheap ▸ he, hsettled⟩
  · have hincreasing := ht.ordered.increasing id
    rw [hqueued] at hincreasing
    refine ⟨hincreasing, hincreasing.imp fun hlt heq => ?_⟩
    rw [heq, cfg.collation.irrefl] at hlt
    cases hlt

namespace Demo

def config : Config where
  instanceCapacity := 1
  pageSize := 2
  targetCapacity := 1
  concurrency := 1
  instanceTimeout := 10
  collation := .codePoints
  instanceCapacity_pos := by decide
  pageSize_pos := by decide
  pageSize_le := by decide
  targetCapacity_pos := by decide
  concurrency_pos := by decide
  instanceTimeout_pos := by decide

def decision : Notification := { instanceId := 7, executorGroupId := 1, reason := .manualStop }

/-- Two addresses, one page, and room for one target at a time; then the instance is admitted again. -/
def notified : List Move :=
  [.start, .hint 0 decision, .takeEnumeration, .answer (some ["a", "b"]), .offer 1 false,
    .takeTarget 0, .sent 0, .offer 2 false, .finishEnumeration 2 false, .takeTarget 0, .sent 0,
    .takeEnumeration, .answer (some []), .finishEnumeration 3 false, .hint 4 decision]

end Demo

theorem demo_notified :
    ∃ s, (notifier Demo.config).run Demo.notified = some s ∧ s.released = [0] ∧
      s.queued 0 = ["a", "b"] ∧ s.entries = [(7, 1)] ∧
      (∀ id, id ∈ s.entries.map Prod.snd ↔ id < s.admitted ∧ id ∉ s.released) := by
  obtain ⟨s, hrun, hreleased, hqueued, hentries, hwork⟩ :
      ∃ s ∈ (notifier Demo.config).run Demo.notified, s.released = [0] ∧ s.queued 0 = ["a", "b"] ∧
        s.entries = [(7, 1)] ∧ s.allExited Demo.config = false := by decide +kernel
  exact ⟨s, hrun, hreleased, hqueued, hentries, ((notifier_books hrun).1 hwork).2.2.2.2⟩

end Dogx.Notify
