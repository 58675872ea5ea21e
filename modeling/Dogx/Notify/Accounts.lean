import Dogx.Notify.Books

/-!
# What the notifier retains

Every critical section of the notifier keeps its books.
-/

namespace Dogx.Notify

open Function (update update_eq_self update_of_ne update_self)

def Reader.entry : Reader → Option ℕ
  | querying id | offering id _ | finishing id _ => some id
  | absent | ready | exited => none

def Sender.target : Sender → Option Target
  | sending t => some t
  | absent | ready | exited => none

namespace Notifier

variable {cfg : Config} {s s' : Notifier} {id w now : ℕ} {e e' : Entry} {t : Target} {st : Sender}
  {ended : List ℕ} {ts : List Target} {address : String} {rest : List String}

def inProgress (cfg : Config) (s : Notifier) : List Target :=
  Machine.Pool.collect cfg.concurrency s.senders Sender.target

def inFlight (cfg : Config) (s : Notifier) : List Target := s.targets ++ s.inProgress cfg

def view {β : Type} (f : Entry → β) (d : β) (s : Notifier) (id : ℕ) : β := ((s.heap id).map f).getD d

section View

variable {β : Type} {f : Entry → β} {d : β}

theorem view_of_heap (h : s.heap id = some e) : s.view f d id = f e := by
  rw [view, h]
  rfl

theorem view_setEntry : (s.setEntry id e).view f d = update (s.view f d) id (f e) := by
  funext j
  by_cases hj : j = id
  · subst hj
    simp [view, setEntry]
  · simp [view, setEntry, update_of_ne hj]

theorem update_view (h : s.heap id = some e) :
    update (s.view f d) id (f e) = s.view f d := by
  rw [← view_of_heap (f := f) h, update_eq_self]

end View

theorem isSome_setEntry (h : s.heap id = some e) (j : ℕ) :
    ((s.setEntry id e').heap j).isSome = (s.heap j).isSome := by
  by_cases hj : j = id
  · subst hj
    simp [setEntry, h]
  · simp [setEntry, update_of_ne hj]

/-! ## The books -/

structure Sound (cfg : Config) (s : Notifier) : Prop where
  counts : Counts cfg.targetCapacity s.targetCount (s.inFlight cfg) (s.view Entry.outstanding 0)
  kept : Kept s.entries s.admitted s.released (s.view (fun e => e.notification.instanceId) 0)
  listing : Listing s.enumerating s.reader.entry (s.entries.map Prod.snd)
    (s.view Entry.position false) (s.view Entry.reading false) (s.view Entry.enumerated false)
  ordered : Ordered cfg s.queued (s.view Entry.cursor "")
  made : ∀ id, (s.heap id).isSome = true ↔ id < s.admitted
  settled : ∀ id ∈ s.released, s.view Entry.enumerated false id = true ∧
    s.view Entry.reading false id = false ∧ s.view Entry.outstanding 0 id = 0
  page : ∀ id rest, s.reader = .offering id rest →
    lawful cfg (s.view Entry.cursor "" id) rest = true
  pool : ∀ i, cfg.concurrency ≤ i → s.senders i = .absent

namespace Sound

theorem init : Sound cfg .init where
  counts := by
    have hflight : Notifier.init.inFlight cfg = [] := List.filterMap_eq_nil_iff.mpr fun _ _ => rfl
    rw [hflight]
    exact ⟨rfl, Nat.zero_le _, fun _ => rfl⟩
  kept := ⟨.nil, nofun, fun id => by simp [Notifier.init], .nil, nofun⟩
  listing := by
    refine ⟨.nil, fun id => ?_, fun id => ?_, fun id => ?_⟩
    all_goals simp [Notifier.init, view, Reader.entry]
  ordered := ⟨fun _ => .nil, fun _ => nofun⟩
  made id := by simp [Notifier.init]
  settled := nofun
  page _ _ := nofun
  pool _ _ := rfl

variable (h : Sound cfg s)
include h

theorem view_reading (hr : s.reader.entry = some id) :
    s.view Entry.reading false id = true := (h.listing.reading id).mpr hr

theorem retained_of_busy
    (hbusy : s.view Entry.reading false id = true ∨ 0 < s.view Entry.outstanding 0 id) :
    id ∈ s.entries.map Prod.snd := by
  refine (h.kept.retained id).mpr ⟨(h.made id).mp ?_, fun hrel => ?_⟩
  · rw [Option.isSome_iff_ne_none]
    intro hnone
    simp [view, hnone] at hbusy
  · obtain ⟨-, hreading, hout⟩ := h.settled id hrel
    rw [hreading, hout] at hbusy
    simp at hbusy

theorem release (hid : id ∈ s.entries.map Prod.snd) : Sound cfg (s.releaseLocked id) := by
  unfold releaseLocked
  split
  · exact h
  next e he =>
    split
    · exact h
    next hidle =>
      simp only [Bool.or_eq_true, Bool.not_eq_true', decide_eq_true_eq, not_or, Bool.not_eq_false,
        Bool.not_eq_true, not_not] at hidle
      obtain ⟨⟨henumerated, hreading⟩, hout⟩ := hidle
      have hinstance : e.notification.instanceId =
          s.view (fun e => e.notification.instanceId) 0 id := by
        rw [view_of_heap he]
      have hview : s.view Entry.enumerated false id = true := (view_of_heap he).trans henumerated
      rw [hinstance]
      refine ⟨h.counts, h.kept.release hid, h.listing.release hview (h.kept.mem_filter hid), h.ordered,
        h.made, fun j hj => ?_, h.page, h.pool⟩
      rcases List.mem_append.mp hj with hj | hj
      · exact h.settled j hj
      · rw [List.mem_singleton.mp hj]
        exact ⟨hview, (view_of_heap he).trans hreading, (view_of_heap he).trans hout⟩

/-- One entry changes, with its pages and its sends. -/
theorem setEntry {s1 : Notifier} (he : s.heap id = some e) (hheap : s1.heap = s.heap)
    (hentries : s1.entries = s.entries) (hadmitted : s1.admitted = s.admitted)
    (hreleased : s1.released = s.released)
    (hpool : ∀ i, cfg.concurrency ≤ i → s1.senders i = .absent)
    (hnotification : e'.notification = e.notification)
    (hcounts : Counts cfg.targetCapacity s1.targetCount (s1.inFlight cfg)
      (update (s.view Entry.outstanding 0) id e'.outstanding))
    (hlisting : Listing s1.enumerating s1.reader.entry (s.entries.map Prod.snd)
      (update (s.view Entry.position false) id e'.position)
      (update (s.view Entry.reading false) id e'.reading)
      (update (s.view Entry.enumerated false) id e'.enumerated))
    (hordered : Ordered cfg s1.queued (update (s.view Entry.cursor "") id e'.cursor))
    (hsettled : id ∈ s.released → e'.enumerated = true ∧ e'.reading = false ∧ e'.outstanding = 0)
    (hpage : ∀ j rest, s1.reader = .offering j rest →
      lawful cfg (update (s.view Entry.cursor "") id e'.cursor j) rest = true) :
    Sound cfg (s1.setEntry id e') := by
  have hview : ∀ {β : Type} (f : Entry → β) (d : β),
      (s1.setEntry id e').view f d = update (s.view f d) id (f e') := by
    intro β f d
    rw [view_setEntry]
    unfold view
    rw [hheap]
  refine ⟨?_, ?_, ?_, ?_, fun j => ?_, fun j hj => ?_, fun j rest hj => ?_, hpool⟩
  · rw [hview]; exact hcounts
  · rw [hview, hnotification, ← view_of_heap (f := fun e => e.notification.instanceId) he,
      update_eq_self]
    change Kept s1.entries s1.admitted s1.released _
    rw [hentries, hadmitted, hreleased]
    exact h.kept
  · rw [hview, hview, hview]
    change Listing s1.enumerating s1.reader.entry (s1.entries.map Prod.snd) _ _ _
    rw [hentries]
    exact hlisting
  · rw [hview]; exact hordered
  · rw [isSome_setEntry (hheap ▸ he), hheap]
    change _ ↔ j < s1.admitted
    rw [hadmitted]
    exact h.made j
  · change j ∈ s1.released at hj
    rw [hreleased] at hj
    rw [hview, hview, hview]
    by_cases hjid : j = id
    · subst hjid
      simp only [update_self]
      exact hsettled hj
    · simp only [update_of_ne hjid]
      exact h.settled j hj
  · rw [hview]; exact hpage j rest hj

/-! ## Housekeeping -/

/-- The housekeeper ends an entry. -/
theorem expireEntry (p : ℤ × ℕ) : Sound cfg (s.expireEntry now ended p) := by
  unfold Notifier.expireEntry
  split
  · exact h
  next e he =>
    split
    next =>
      have herase : (if e.position then s.enumerating.erase p.2 else s.enumerating) =
          s.enumerating.erase p.2 := by
        split
        · rfl
        next hposition =>
          refine (List.erase_of_not_mem fun hmem => hposition ?_).symm
          rw [← view_of_heap (f := Entry.position) he]
          exact (h.listing.position p.2).mpr hmem
      rw [herase]
      refine h.setEntry he rfl rfl rfl rfl h.pool rfl ?_ ?_ ?_ (fun hrel => ?_) ?_
      · dsimp only
        rw [update_view he]
        exact h.counts
      · dsimp only
        rw [update_view he]
        exact h.listing.expire p.2
      · dsimp only
        rw [update_view he]
        exact h.ordered
      · obtain ⟨-, hreading, hout⟩ := h.settled p.2 hrel
        rw [view_of_heap he] at hreading hout
        exact ⟨rfl, hreading, hout⟩
      · dsimp only
        rw [update_view he]
        exact h.page
    · exact h

/-- A target is sent, and its entry counts one less. -/
theorem uncount {ws : ℕ → Sender} (hpool : ∀ i, cfg.concurrency ≤ i → ws i = .absent)
    (hflight : (s.inFlight cfg).Perm
      (t :: (ts ++ Machine.Pool.collect cfg.concurrency ws Sender.target))) :
    Sound cfg ({ s with targets := ts, senders := ws }.uncount t) := by
  have hpos := h.counts.outstanding_pos (hflight.mem_iff.mpr List.mem_cons_self)
  obtain ⟨e, he⟩ : ∃ e, s.heap t.entry = some e := by
    refine Option.ne_none_iff_exists'.mp fun hnone => ?_
    simp [view, hnone] at hpos
  have huncount : { s with targets := ts, senders := ws }.uncount t =
      { s with targets := ts, senders := ws, targetCount := s.targetCount - 1 }.setEntry t.entry
        { e with outstanding := e.outstanding - 1 } := by
    simp [Notifier.uncount, Notifier.setEntry, he]
  rw [huncount]
  refine h.setEntry he rfl rfl rfl rfl hpool rfl ?_ ?_ ?_ (fun hrel => ?_) ?_
  · have hcounts := h.counts.remove hflight
    rwa [view_of_heap he] at hcounts
  · dsimp only
    rw [update_view he, update_view he, update_view he]
    exact h.listing
  · dsimp only
    rw [update_view he]
    exact h.ordered
  · exact absurd (h.settled _ hrel).2.2 (Nat.ne_of_gt hpos)
  · dsimp only
    rw [update_view he]
    exact h.page

theorem dropTarget (ht : t ∈ s.targets) : Sound cfg (s.dropTarget t) := by
  unfold Notifier.dropTarget
  split
  · refine h.uncount h.pool ?_
    exact (List.perm_cons_erase ht).append_right _
  · exact h

theorem expireEntries (now : ℕ) (ended : List ℕ) (ps : List (ℤ × ℕ)) :
    Sound cfg (ps.foldl (Notifier.expireEntry now ended) s) := by
  induction ps generalizing s with
  | nil => exact h
  | cons p _ ih => exact ih (h.expireEntry p)

theorem dropTargets (hts : ts.Subperm s.targets) : Sound cfg (ts.foldl Notifier.dropTarget s) := by
  induction ts generalizing s with
  | nil => exact h
  | cons t ts ih =>
    have ht : t ∈ s.targets := hts.subset List.mem_cons_self
    refine ih (h.dropTarget ht) ?_
    unfold Notifier.dropTarget
    split
    · have herase := hts.erase t
      rwa [List.erase_cons_head] at herase
    · exact (List.sublist_cons_self t ts).subperm.trans hts

theorem releaseEntries (ps : List (ℤ × ℕ)) : Sound cfg (ps.foldl Notifier.releaseEntry s) := by
  induction ps generalizing s with
  | nil => exact h
  | cons p _ ih =>
    refine ih ?_
    unfold Notifier.releaseEntry
    split
    next hp =>
      have hp : p ∈ s.entries := by simpa using hp
      exact h.release (List.mem_map_of_mem hp)
    · exact h

theorem sweep : Sound cfg (s.sweep now ended) := by
  have hexpired := h.expireEntries now ended s.entries
  have hdropped := hexpired.dropTargets (List.Subperm.refl _)
  exact hdropped.releaseEntries _

/-! ## The reader -/

theorem setReader {reader : Reader} (hentry : reader.entry = s.reader.entry)
    (hpage : ∀ id rest, reader = .offering id rest →
      lawful cfg (s.view Entry.cursor "" id) rest = true) : Sound cfg { s with reader } := by
  refine ⟨h.counts, h.kept, ?_, h.ordered, h.made, h.settled, hpage, h.pool⟩
  rw [hentry]
  exact h.listing

theorem takeEntry {rest : List ℕ} (hready : s.reader = .ready) (hfirst : s.enumerating = id :: rest)
    (he : s.heap id = some e) :
    Sound cfg ({ s with enumerating := rest, reader := .querying id }.setEntry id
      { e with position := false, reading := true }) := by
  have hlisting := h.listing
  rw [hfirst, hready] at hlisting
  refine h.setEntry he rfl rfl rfl rfl h.pool rfl ?_ ?_ ?_ (fun hrel => ?_) nofun
  · dsimp only
    rw [update_view he]
    exact h.counts
  · dsimp only
    rw [update_view he]
    exact hlisting.take
  · dsimp only
    rw [update_view he]
    exact h.ordered
  · have hmem := ((h.listing.listed id).mp (hfirst ▸ List.mem_cons_self)).1
    exact absurd hrel ((h.kept.retained id).mp hmem).2

/-- The reader puts an address into the queue. -/
theorem accept (hreader : s.reader = .offering id (address :: rest)) (he : s.heap id = some e)
    (hroom : s.targetCount < cfg.targetCapacity) :
    Sound cfg ({ s with reader := afterOffer id rest }.accept id e address) := by
  have hpage := h.page _ _ hreader
  rw [view_of_heap he, lawful, Bool.and_eq_true] at hpage
  have hentry : (afterOffer id rest).entry = s.reader.entry := by
    rw [hreader]
    cases rest <;> rfl
  have hreading : s.view Entry.reading false id = true := h.view_reading (hreader ▸ rfl)
  refine h.setEntry he rfl rfl rfl rfl h.pool rfl ?_ ?_ ?_ (fun hrel => ?_) fun j rest' hj => ?_
  · have hflight : (s.targets ++ [Target.mk id address] ++ s.inProgress cfg).Perm
        (Target.mk id address :: s.inFlight cfg) := by
      rw [List.append_assoc]
      exact List.perm_middle
    have hcounts := h.counts.add hroom hflight
    rwa [view_of_heap he] at hcounts
  · dsimp only
    rw [update_view he, update_view he, update_view he, hentry]
    exact h.listing
  · exact h.ordered.queue (by rw [view_of_heap he]; exact hpage.1)
  · have hidle := (h.settled id hrel).2.1
    cases hreading.symm.trans hidle
  · cases rest with
    | nil => cases hj
    | cons =>
      cases hj
      rw [update_self]
      exact hpage.2

/-- The reader is done with a page. -/
theorem endPage {enumerated : Bool} (hreader : s.reader.entry = some id) (he : s.heap id = some e)
    (henumerated : enumerated = false → e.enumerated = false) :
    Sound cfg (s.endPage id e enumerated) := by
  have hreading := h.view_reading hreader
  have hretained := h.retained_of_busy (.inl hreading)
  have hlisting := h.listing
  rw [hreader] at hlisting
  have hrel : id ∉ s.released := ((h.kept.retained id).mp hretained).2
  unfold Notifier.endPage
  split
  next =>
    refine h.setEntry he rfl rfl rfl rfl h.pool rfl ?_ ?_ ?_ (fun h => absurd h hrel) nofun
    · dsimp only
      rw [update_view he]
      exact h.counts
    · dsimp only
      rw [update_view he]
      exact hlisting.complete
    · dsimp only
      rw [update_view he]
      exact h.ordered
  next hmore =>
    have hmore := henumerated (by simpa using hmore)
    refine h.setEntry he rfl rfl rfl rfl h.pool rfl ?_ ?_ ?_ (fun h => absurd h hrel) nofun
    · dsimp only
      rw [update_view he]
      exact h.counts
    · dsimp only
      rw [update_view he]
      exact hlisting.putBack hretained ((view_of_heap he).trans hmore)
    · dsimp only
      rw [update_view he]
      exact h.ordered

theorem finishEnumeration {ended complete : Bool} (hreader : s.reader.entry = some id)
    (he : s.heap id = some e) : Sound cfg (s.finishEnumeration now ended id e complete) := by
  have hretained := h.retained_of_busy (.inl (h.view_reading hreader))
  refine (h.endPage hreader he fun hmore => ?_).release ?_
  · simp only [Bool.or_eq_false_iff] at hmore
    exact hmore.1.1.1
  · have hentries : ∀ b, (s.endPage id e b).entries = s.entries := by
      intro b
      unfold Notifier.endPage
      split <;> rfl
    rw [hentries]
    exact hretained

/-! ## Sender workers -/

theorem lt_of_present (hw : s.senders w ≠ .absent) : w < cfg.concurrency := by
  by_contra hge
  exact hw (h.pool w (Nat.le_of_not_lt hge))

theorem pool_update (hw : s.senders w ≠ .absent) (st : Sender) :
    ∀ i, cfg.concurrency ≤ i → update s.senders w st i = .absent := by
  intro i hi
  have hlt := h.lt_of_present hw
  rw [update_of_ne (by omega)]
  exact h.pool i hi

theorem exitSender (hw : s.senders w = .ready) : Sound cfg (s.setSender w .exited) := by
  refine ⟨?_, h.kept, h.listing, h.ordered, h.made, h.settled, h.page, h.pool_update (by simp [hw]) _⟩
  refine h.counts.perm (List.Perm.append_left _ ?_)
  rw [inProgress, Notifier.setSender, Machine.Pool.collect_update_of_eq (hw ▸ rfl)]
  exact .refl _

theorem takeTarget (hw : s.senders w = .ready) (hfirst : s.targets = t :: ts) :
    Sound cfg ({ s with targets := ts }.setSender w (.sending t)) := by
  have hpresent : s.senders w ≠ .absent := by simp [hw]
  refine ⟨?_, h.kept, h.listing, h.ordered, h.made, h.settled, h.page, h.pool_update hpresent _⟩
  refine h.counts.perm ?_
  have hcollect : (((s.senders w).target).toList ++ Machine.Pool.collect cfg.concurrency
      (update s.senders w (.sending t)) Sender.target).Perm
      ((Sender.sending t).target.toList ++ s.inProgress cfg) :=
    Machine.Pool.collect_update (h.lt_of_present hpresent) (Sender.sending t)
  rw [hw] at hcollect
  rw [inFlight, inFlight, hfirst]
  exact (hcollect.append_left ts).trans List.perm_middle

theorem counted_off (hw : s.senders w = .sending t) :
    Sound cfg ((s.setSender w .ready).uncount t) ∧ t.entry ∈ s.entries.map Prod.snd := by
  have hpresent : s.senders w ≠ .absent := by simp [hw]
  have hcollect : (((s.senders w).target).toList ++ Machine.Pool.collect cfg.concurrency
      (update s.senders w .ready) Sender.target).Perm
      (Sender.ready.target.toList ++ s.inProgress cfg) :=
    Machine.Pool.collect_update (h.lt_of_present hpresent) Sender.ready
  rw [hw] at hcollect
  have hflight : (s.inFlight cfg).Perm (t :: (s.targets ++ Machine.Pool.collect cfg.concurrency
      (update s.senders w .ready) Sender.target)) :=
    (hcollect.symm.append_left s.targets).trans List.perm_middle
  have hpos := h.counts.outstanding_pos (hflight.mem_iff.mpr List.mem_cons_self)
  exact ⟨h.uncount (h.pool_update hpresent .ready) hflight, h.retained_of_busy (.inr hpos)⟩

theorem sent (hw : s.senders w = .sending t) : Sound cfg (s.sent w t) :=
  (h.counted_off hw).1.release (h.counted_off hw).2

/-! ## Admission and lifecycle -/

theorem notMem_keys_of_find {k : ℤ} (hfind : s.find k = none) : k ∉ s.entries.map Prod.fst := by
  intro hmem
  obtain ⟨p, hp, rfl⟩ := List.mem_map.mp hmem
  rcases Option.bind_eq_none_iff.mp hfind with hfind
  cases hq : s.entries.find? fun q => q.1 = p.1 with
  | none => simpa using List.find?_eq_none.mp hq p hp
  | some q =>
    have hmade := (h.made q.2).mpr
      ((h.kept.retained q.2).mp (List.mem_map_of_mem (List.mem_of_find?_eq_some hq))).1
    rw [hfind q hq] at hmade
    cases hmade

/-- A new instance is admitted. -/
theorem enroll (now : ℕ) {n : Notification} (hfind : s.find n.instanceId = none) :
    Sound cfg (s.enroll cfg now n) := by
  have hnone : s.heap s.admitted = none := by
    rw [← Option.not_isSome_iff_eq_none, h.made]
    exact Nat.lt_irrefl _
  have hview : ∀ {β : Type} (f : Entry → β) (d : β), (s.enroll cfg now n).view f d =
      update (s.view f d) s.admitted (f
        { notification := n, deadline := now + cfg.instanceTimeout, position := true }) :=
    fun f d => view_setEntry
  have hblank : ∀ {β : Type} (f : Entry → β) (d : β),
      update (s.view f d) s.admitted d = s.view f d := by
    intro β f d
    have hd : s.view f d s.admitted = d := by rw [view, hnone]; rfl
    calc update (s.view f d) s.admitted d
      _ = update (s.view f d) s.admitted (s.view f d s.admitted) := by rw [hd]
      _ = s.view f d := update_eq_self _ _
  have hnew : s.admitted ∉ s.entries.map Prod.snd := fun hmem =>
    Nat.lt_irrefl _ ((h.kept.retained _).mp hmem).1
  have hreader : s.reader.entry ≠ some s.admitted := fun hr => by
    have hreading := h.view_reading hr
    rw [view, hnone] at hreading
    cases hreading
  refine ⟨?_, ?_, ?_, ?_, fun j => ?_, fun j hj => ?_, fun j rest hj => ?_, h.pool⟩
  · rw [hview, hblank]
    exact h.counts
  · rw [hview]
    exact h.kept.enroll (h.notMem_keys_of_find hfind)
  · rw [hview, hview, hview]
    change Listing (s.enumerating ++ [s.admitted]) s.reader.entry
      ((s.entries ++ [(n.instanceId, s.admitted)]).map Prod.snd) _ _ _
    rw [List.map_append]
    exact h.listing.enroll hnew hreader
  · rw [hview, hblank]
    exact h.ordered
  · change (update s.heap s.admitted _ j).isSome = true ↔ j < s.admitted + 1
    have hmade := h.made j
    by_cases hj : j = s.admitted
    · simp [hj]
    · rw [update_of_ne hj, hmade]
      omega
  · have hne : j ≠ s.admitted := Nat.ne_of_lt (h.kept.lt j hj)
    rw [hview, hview, hview]
    simp only [update_of_ne hne]
    exact h.settled j hj
  · rw [hview, hblank]
    exact h.page j rest hj

theorem start (hreader : s.reader = .absent) (hsenders : ∀ w, s.senders w = .absent) :
    Sound cfg { s with
      started := true
      reader := .ready
      senders := fun i => if i < cfg.concurrency then .ready else .absent
      housekeeper := .running } := by
  refine ⟨?_, h.kept, ?_, h.ordered, h.made, h.settled, nofun, fun i hi => if_neg (Nat.not_lt.mpr hi)⟩
  · refine h.counts.perm (List.Perm.append_left _ ?_)
    rw [inProgress, inProgress, Machine.Pool.collect_congr fun i hi => ?_]
    dsimp only
    rw [if_pos hi, hsenders i]
    rfl
  · have hlisting := h.listing
    rw [hreader] at hlisting
    exact hlisting

theorem flags {started stopping completed canceled fullLogged : Bool} {housekeeper : Housekeeper} :
    Sound cfg { s with started, stopping, completed, canceled, fullLogged, housekeeper } :=
  { h with }

theorem hint (now : ℕ) (n : Notification) : Sound cfg (s.hint cfg now n).2 := by
  unfold Notifier.hint
  split
  · exact h
  split
  · exact h
  next hfind =>
    split
    · exact h.flags
    · exact h.enroll now hfind

theorem answer {page : Option (List String)} (hreader : s.reader = .querying id)
    (he : s.heap id = some e) (hpage : page.all (lawful cfg e.cursor) = true) :
    Sound cfg (s.answer cfg id page) := by
  unfold Notifier.answer
  split
  · exact h.setReader (hreader ▸ rfl) nofun
  · exact h.setReader (hreader ▸ rfl) nofun
  next addresses _ =>
    split
    · exact h.setReader (hreader ▸ rfl) nofun
    · refine h.setReader (hreader ▸ rfl) ?_
      rintro j _ ⟨⟩
      rw [view_of_heap he]
      simpa using hpage

theorem offer {ended : Bool} (hreader : s.reader = .offering id (address :: rest))
    (he : s.heap id = some e) (hs : s.offer cfg now ended id e address rest = some s') :
    Sound cfg s' := by
  unfold Notifier.offer at hs
  split at hs
  · cases hs
    exact h.setReader (hreader ▸ rfl) nofun
  split at hs
  · cases hs
    exact h.setReader (hreader ▸ rfl) nofun
  · obtain ⟨hroom, ⟨⟩⟩ := Option.ite_none_right_eq_some.mp hs
    exact h.accept hreader he hroom

end Sound

/-! ## Released in time -/

def Idle (s : Notifier) (id : ℕ) : Prop :=
  ∃ e, s.heap id = some e ∧ e.enumerated = true ∧ e.reading = false ∧ e.outstanding = 0

theorem idle_congr (h : s'.heap = s.heap) : s'.Idle id ↔ s.Idle id := by
  rw [Idle, h, Idle]

def Tidy (s : Notifier) : Prop := ∀ id ∈ s.entries.map Prod.snd, ¬ s.Idle id

def TidyBut (id : ℕ) (s : Notifier) : Prop :=
  ∀ j ∈ s.entries.map Prod.snd, j ≠ id → ¬ s.Idle j

theorem Tidy.change (h : Tidy s) (hheap : ∀ j, j ≠ id → s'.heap j = s.heap j)
    (hentries : s'.entries = s.entries) : TidyBut id s' := by
  rintro j hj hid ⟨e, he, hidle⟩
  rw [hheap j hid] at he
  exact h j (hentries ▸ hj) ⟨e, he, hidle⟩

theorem Tidy.setEntry (h : Tidy s) (hheap : s'.heap = s.heap) (hentries : s'.entries = s.entries)
    (hbusy : e'.enumerated = true → e'.reading = false → e'.outstanding ≠ 0) :
    Tidy (s'.setEntry id e') := by
  have hbut : TidyBut id (s'.setEntry id e') :=
    h.change (fun j hj => (update_of_ne hj _ _).trans (congrFun hheap j)) hentries
  intro j hj hidle
  by_cases hid : j = id
  · obtain ⟨e, he, henumerated, hreading, hout⟩ := hidle
    rw [hid] at he
    cases (update_self _ _ _).symm.trans he
    exact hbusy henumerated hreading hout
  · exact hbut j hj hid hidle

theorem entries_releaseLocked (s : Notifier) (id : ℕ) : (s.releaseLocked id).entries ⊆ s.entries := by
  unfold releaseLocked
  split
  · exact List.Subset.refl _
  · split
    · exact List.Subset.refl _
    · exact List.filter_subset_self _

theorem heap_releaseLocked (s : Notifier) (id : ℕ) : (s.releaseLocked id).heap = s.heap := by
  unfold releaseLocked
  split
  · rfl
  · split <;> rfl

/-- An idle entry does not outlive its release. -/
theorem Sound.notMem_releaseLocked (h : Sound cfg s) (hidle : s.Idle id) :
    id ∉ (s.releaseLocked id).entries.map Prod.snd := by
  obtain ⟨e, he, henumerated, hreading, hout⟩ := hidle
  intro hmem
  obtain ⟨p, hp, rfl⟩ := List.mem_map.mp hmem
  simp only [releaseLocked, he, henumerated, hreading, hout] at hp
  obtain ⟨hp, hne⟩ := List.mem_filter.mp hp
  have hkey := h.kept.key p hp
  rw [view_of_heap he] at hkey
  exact absurd hkey (by simpa using hne)

theorem TidyBut.release (h : TidyBut id s) (hsound : Sound cfg s) : Tidy (s.releaseLocked id) := by
  intro j hj hidle
  rw [idle_congr (heap_releaseLocked s id)] at hidle
  by_cases hid : j = id
  · subst hid
    exact hsound.notMem_releaseLocked hidle hj
  · obtain ⟨p, hp, rfl⟩ := List.mem_map.mp hj
    exact h p.2 (List.mem_map_of_mem (entries_releaseLocked s id hp)) hid hidle

/-- The third loop of `expire` leaves no entry idle that it passes. -/
theorem Sound.releaseEntries_tidy (h : Sound cfg s) (ps : List (ℤ × ℕ)) :
    (ps.foldl Notifier.releaseEntry s).entries ⊆ s.entries ∧
    (ps.foldl Notifier.releaseEntry s).heap = s.heap ∧
    ∀ p ∈ (ps.foldl Notifier.releaseEntry s).entries, p ∈ ps → ¬ s.Idle p.2 := by
  induction ps generalizing s with
  | nil => exact ⟨List.Subset.refl _, rfl, fun p _ hp => by cases hp⟩
  | cons p ps ih =>
    have hfirst : (s.releaseEntry p).entries ⊆ s.entries ∧ (s.releaseEntry p).heap = s.heap ∧
        (p ∈ (s.releaseEntry p).entries → ¬ s.Idle p.2) := by
      unfold releaseEntry
      split
      · refine ⟨entries_releaseLocked s p.2, heap_releaseLocked s p.2, fun hp hidle => ?_⟩
        exact h.notMem_releaseLocked hidle (List.mem_map_of_mem hp)
      next hgone => exact ⟨List.Subset.refl _, rfl, fun hp => absurd (by simpa using hp) hgone⟩
    obtain ⟨hsub, hheap, hrest⟩ := ih (h.releaseEntries [p])
    refine ⟨List.Subset.trans hsub hfirst.1, hheap.trans hfirst.2.1, fun q hq hmem hidle => ?_⟩
    rcases List.mem_cons.mp hmem with rfl | hmem
    · exact hfirst.2.2 (hsub hq) hidle
    · exact hrest q hq hmem ((idle_congr hfirst.2.1).mpr hidle)

theorem Sound.sweep_tidy (h : Sound cfg s) : Tidy (s.sweep now ended) := by
  have hdropped := (h.expireEntries now ended s.entries).dropTargets (List.Subperm.refl _)
  obtain ⟨hsub, hheap, hidle⟩ := hdropped.releaseEntries_tidy _
  intro id hid
  obtain ⟨p, hp, rfl⟩ := List.mem_map.mp hid
  exact fun h => hidle p hp (hsub hp) ((idle_congr hheap).mp h)

theorem Tidy.hint (h : Tidy s) (now : ℕ) (n : Notification) :
    Tidy (s.hint cfg now n).2 := by
  unfold Notifier.hint
  split
  · exact h
  split
  · exact h
  split
  · exact h
  · rintro j hj ⟨e, he, henumerated, hrest⟩
    by_cases hj' : j = s.admitted
    · subst hj'
      cases (update_self _ _ _).symm.trans he
      cases henumerated
    · refine h j ?_ ⟨e, (update_of_ne hj' _ _).symm.trans he, henumerated, hrest⟩
      simpa [Notifier.enroll, hj'] using hj

theorem Tidy.finishEnumeration {ended complete : Bool} (h : Tidy s) (hsound : Sound cfg s)
    (hreader : s.reader.entry = some id) (he : s.heap id = some e) :
    Tidy (s.finishEnumeration now ended id e complete) := by
  refine (h.change (fun j hj => ?_) ?_).release (hsound.endPage hreader he fun hmore => ?_)
  · unfold Notifier.endPage
    split <;> exact update_of_ne hj _ _
  · unfold Notifier.endPage
    split <;> rfl
  · simp only [Bool.or_eq_false_iff] at hmore
    exact hmore.1.1.1

theorem Tidy.sent (h : Tidy s) (hsound : Sound cfg s) (hw : s.senders w = .sending t) :
    Tidy (s.sent w t) := by
  have hbut : TidyBut t.entry ((s.setSender w .ready).uncount t) :=
    h.change (fun _ hj => update_of_ne hj _ _) rfl
  exact hbut.release (hsound.counted_off hw).1

end Notifier

end Dogx.Notify
