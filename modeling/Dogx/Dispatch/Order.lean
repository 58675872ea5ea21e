import Dogx.Dispatch.Custody

/-!
# The order of takes

`appended` and `taken` are the history of `pending`: the candidates in the order in which they were put
into it, and those that `take` returned.
-/

namespace Dogx.Dispatch

variable {cfg : RuntimeConfig} {r r' : Runtime} {c : Candidate}
  {before behind taken last : List Candidate}

inductive Passage (cfg : RuntimeConfig) (r r' : Runtime) : Prop where
  | added (added : List Candidate) (hp : r'.supply.pending = r.supply.pending ++ added)
      (ha : r'.appended = r.appended ++ added) (ht : r'.taken = r.taken)
      (hl : r'.supply.lastParent = r.supply.lastParent)
      (hs : r'.supply.parentShare = r.supply.parentShare)
  | dropped (p : Candidate → Bool) (hp : r'.supply.pending = r.supply.pending.filter p)
      (ha : r'.appended = r.appended) (ht : r'.taken = r.taken)
      (hl : r'.supply.lastParent = r.supply.lastParent)
      (hs : r'.supply.parentShare = r.supply.parentShare)
  | taken (index : ℕ) (c : Candidate) (hc : r.supply.pending[index]? = some c)
      (hchosen : (r.supply.expireConflicts cfg r.now).Chosen index c)
      (hp : r'.supply.pending = r.supply.pending.eraseIdx index)
      (ha : r'.appended = r.appended) (ht : r'.taken = r.taken ++ [c])
      (hl : r'.supply.lastParent = c.instanceId)
      (hs : r'.supply.parentShare = if r.supply.lastParent = c.instanceId then
        min (r.supply.parentShare + 1) dispatchParentShare else 1)

namespace Passage

theorem still (hs : r.supply.Still r'.supply) (ha : r'.appended = r.appended)
    (ht : r'.taken = r.taken) : Passage cfg r r' :=
  .added [] (by rw [hs.pending, List.append_nil]) (by rw [ha, List.append_nil]) ht hs.lastParent
    hs.parentShare

theorem registrationFinished {random : ℕ} {result : Registration}
    (hs : r'.supply = r.supply.registrationFinished cfg r.now random c result)
    (ha : r'.appended = r.appended) (ht : r'.taken = r.taken) : Passage cfg r r' := by
  rcases Supply.registrationFinished_cases r.supply c result with
    ⟨heq, -⟩ | ⟨-, ⟨-, h⟩ | ⟨-, h⟩⟩
  · exact .still (hs.trans heq ▸ .refl _) ha ht
  · rw [← hs] at h
    exact .dropped _ h.pending ha ht h.lastParent h.parentShare
  · rw [← hs] at h
    exact .added [] (by rw [h.pending, List.append_nil]; rfl) (by rw [ha, List.append_nil]) ht
      h.lastParent h.parentShare

theorem append {added : List Candidate} (hp : r'.supply.pending = r.supply.pending ++ added)
    (ha : r'.appended = r.appended ++ r'.supply.pending.drop r.supply.pending.length)
    (ht : r'.taken = r.taken) (hl : r'.supply.lastParent = r.supply.lastParent)
    (hs : r'.supply.parentShare = r.supply.parentShare) : Passage cfg r r' := by
  rw [hp, List.drop_left] at ha
  exact .added added hp ha ht hl hs

end Passage

/-- What each step does to `pending` and its history. -/
theorem Change.passage (hc : Change cfg r r') : Passage cfg r r' := by
  cases hc with
  | stopped =>
    rcases Supply.stop_cases r.supply with hs | hs
    · exact .still (by rw [hs]; exact .refl _) rfl rfl
    · exact .dropped _ hs.pending rfl rfl hs.lastParent hs.parentShare
  | hinted id =>
    rcases Supply.hint_cases r.supply id with hs | ⟨c, -, -, -, hs⟩
    · exact .append (hs.pending.trans (List.append_nil _).symm) rfl rfl hs.lastParent hs.parentShare
    · exact .append hs.pending rfl rfl hs.lastParent hs.parentShare
  | rested => exact .still Supply.still_refreshed rfl rfl
  | reserved =>
    have hs : r.supply.Still (r.refreshed cfg) := Supply.still_refreshed
    unfold Runtime.reserve Runtime.begin
    split <;> exact .added [] (hs.pending.trans (List.append_nil _).symm) (List.append_nil _).symm rfl
      hs.lastParent hs.parentShare
  | refused | charged => exact .still (Supply.still_chargePage _) rfl rfl
  | paused => exact .still (Supply.still_pauseBudget _) rfl rfl
  | admitted _ _ _ s _ _ hadm =>
    obtain ⟨_, _, -, h⟩ := Supply.admitPage_stock hadm
    exact .append h.pending rfl rfl h.lastParent h.parentShare
  | idle i s _ _ hs =>
    subst hs
    exact .still (Supply.still_expireConflicts _) rfl rfl
  | took i index c _ _ hchosen hget =>
    have hs : r.supply.Still (r.supply.expireConflicts cfg r.now) := Supply.still_expireConflicts _
    refine .taken index c hget (Supply.chosen hchosen (hs.pending ▸ hget)) ?_ rfl rfl rfl ?_
    · simp [Runtime.setWorker, Supply.takeAt, Supply.notify]
    · simp [Runtime.setWorker, Supply.takeAt, Supply.notify, hs.lastParent, hs.parentShare]
  | asked => exact .still (Supply.still_expireConflicts _) rfl rfl
  | registered | cleaned => exact .registrationFinished rfl rfl rfl
  | _ =>
    exact .added [] (List.append_nil _).symm (List.append_nil _).symm rfl rfl rfl

/-! ## Order within a parent -/

def ofParent (parent : Int) (cs : List Candidate) : List Candidate :=
  cs.filter fun c => c.instanceId = parent

theorem ofParent_append (parent : Int) (cs cs' : List Candidate) :
    ofParent parent (cs ++ cs') = ofParent parent cs ++ ofParent parent cs' := List.filter_append ..

def Queued (r : Runtime) : Prop := ∀ parent,
  (ofParent parent r.taken ++ ofParent parent r.supply.pending).Sublist (ofParent parent r.appended)

theorem ofParent_take (hfirst : ∀ b ∈ before, b.instanceId ≠ c.instanceId) (parent : Int) :
    ofParent parent (taken ++ [c]) ++ ofParent parent (before ++ behind) =
      ofParent parent taken ++ ofParent parent (before ++ c :: behind) := by
  simp only [ofParent]
  by_cases hparent : c.instanceId = parent
  · have hnone : before.filter (fun b => b.instanceId = parent) = [] :=
      List.filter_eq_nil_iff.mpr fun b hb => by simpa [← hparent] using hfirst b hb
    simp [hparent, hnone]
  · simp [hparent]

/-- In every run, the candidates of a parent are taken in their order. -/
theorem queued (cfg : RuntimeConfig) : (runtime cfg).Invariant Queued := by
  refine invariant_of_change (fun _ => .slnil) fun {r r'} h hc parent => ?_
  have hp := h parent
  cases hc.passage with
  | added _ hpending ha ht =>
    rw [hpending, ha, ht, ofParent_append, ofParent_append, ← List.append_assoc]
    exact hp.append (.refl _)
  | dropped p hpending ha ht =>
    rw [hpending, ha, ht]
    exact ((List.filter_sublist.filter _).append_left _).trans hp
  | taken _ c hc hchosen hpending ha ht =>
    have hfirst := hchosen.first
    rw [(Supply.still_expireConflicts r.supply).pending] at hfirst
    obtain ⟨_, rfl⟩ := List.getElem?_eq_some_iff.mp hc
    rw [hpending, ha, ht, List.eraseIdx_eq_take_drop_succ, ofParent_take hfirst,
      List.getElem_cons_drop, List.take_append_drop]
    exact hp

/-! ## Shares -/

def streak (parent : Int) (cs : List Candidate) : ℕ :=
  (cs.reverse.takeWhile fun c => c.instanceId = parent).length

theorem streak_concat (parent : Int) (cs : List Candidate) (c : Candidate) :
    streak parent (cs ++ [c]) = if c.instanceId = parent then streak parent cs + 1 else 0 := by
  unfold streak
  by_cases h : c.instanceId = parent <;> simp [h]

theorem length_le_streak {parent : Int} (h : ∀ c ∈ last, c.instanceId = parent) :
    last.length ≤ streak parent (before ++ last) := by
  unfold streak
  rw [List.reverse_append, List.takeWhile_append_of_pos, List.length_append, List.length_reverse]
  · exact Nat.le_add_right ..
  · exact fun c hc => decide_eq_true (h c (List.mem_reverse.mp hc))

structure Streak (r : Runtime) : Prop where
  first : r.taken = [] → r.supply.parentShare = 0
  later : ∀ before c, r.taken = before ++ [c] → r.supply.lastParent = c.instanceId ∧
    r.supply.parentShare = min (streak c.instanceId r.taken) dispatchParentShare

theorem Streak.take (h : Streak r) (ht : r'.taken = r.taken ++ [c])
    (hl : r'.supply.lastParent = c.instanceId)
    (hs : r'.supply.parentShare = if r.supply.lastParent = c.instanceId then
      min (r.supply.parentShare + 1) dispatchParentShare else 1) : Streak r' := by
  refine ⟨fun hnil => ?_, fun before c' hlast => ?_⟩
  · simp [ht] at hnil
  · rw [ht] at hlast
    obtain ⟨rfl, hc⟩ := List.append_inj' hlast rfl
    cases hc
    refine ⟨hl, ?_⟩
    rw [hs, ht, streak_concat, if_pos rfl]
    rcases List.eq_nil_or_concat' r.taken with hnil | ⟨before, b, hbefore⟩
    · rw [h.first hnil, hnil]
      split <;> rfl
    · obtain ⟨hparent, hshare⟩ := h.later before b hbefore
      rw [hparent, hshare]
      split
      · next heq =>
        rw [heq]
        omega
      · next hne =>
        rw [hbefore, streak_concat, if_neg hne]
        rfl

theorem Streak.tired (h : Streak r) {parent : Int} (hlast : r.taken = before ++ last)
    (hlen : dispatchParentShare ≤ last.length) (hall : ∀ c ∈ last, c.instanceId = parent) :
    r.supply.lastParent = parent ∧ dispatchParentShare ≤ r.supply.parentShare := by
  have hstreak : last.length ≤ streak parent (before ++ last) := length_le_streak hall
  rcases List.eq_nil_or_concat' last with rfl | ⟨init, c, rfl⟩
  · simp [dispatchParentShare] at hlen
  · have hc := hall c (List.mem_append_right _ List.mem_cons_self)
    obtain ⟨hparent, hshare⟩ := h.later (before ++ init) c (by rw [hlast, List.append_assoc])
    rw [hshare, hc, hlast]
    omega

theorem streaks (cfg : RuntimeConfig) : (runtime cfg).Invariant Streak := by
  refine invariant_of_change ⟨fun _ => rfl, fun before c h => ?_⟩ fun {r r'} h hc => ?_
  · simp [Runtime.init] at h
  · cases hc.passage with
    | added added hp ha ht hl hs | dropped p hp ha ht hl hs =>
      refine ⟨?_, ?_⟩
      · rw [ht, hs]
        exact h.first
      · rw [ht, hs, hl]
        exact h.later
    | taken _ c _ _ _ _ ht hl hs => exact h.take ht hl hs

/-- Candidates of a parent are taken in their order and one at a time, and a parent that has had its
share gives way to another one. -/
theorem take_order {ms : List Move} (h : (runtime cfg).run ms = some r) :
    (∀ parent, (ofParent parent r.taken).Sublist (ofParent parent r.appended)) ∧
    ∀ m r' c, (runtime cfg).step r m = some r' → r'.taken = r.taken ++ [c] →
      c ∈ r.supply.pending ∧ r.supply.registering c.instanceId = none ∧
      ∀ parent before last, r.taken = before ++ last → 8 ≤ last.length →
        (∀ t ∈ last, t.instanceId = parent) →
        (∃ b ∈ r.supply.pending, b.instanceId ≠ parent ∧ r.supply.registering b.instanceId = none) →
        c.instanceId ≠ parent := by
  refine ⟨fun parent => (List.sublist_append_left ..).trans ((queued cfg).run h parent), ?_⟩
  intro m r' c hm htaken
  have hstill : r.supply.Still (r.supply.expireConflicts cfg r.now) := Supply.still_expireConflicts _
  cases (Change.of_step hm).passage with
  | added _ _ _ ht | dropped _ _ _ ht =>
    rw [ht] at htaken
    simp at htaken
  | taken _ _ hc hchosen _ _ ht =>
    rw [ht] at htaken
    obtain ⟨-, heq⟩ := List.append_inj' htaken rfl
    cases heq
    have hfree := hchosen.free
    have hother := hchosen.other
    rw [hstill.registering] at hfree
    rw [hstill.registering, hstill.parentShare, hstill.lastParent, hstill.pending] at hother
    refine ⟨List.mem_of_getElem? hc, hfree, ?_⟩
    intro parent before last hlast hlen hall ⟨b, hb, hbparent, hbfree⟩ hsame
    obtain ⟨hparent, hshare⟩ := ((streaks cfg).run h).tired hlast hlen hall
    exact hbparent ((hother hshare (hsame.trans hparent.symm) b hb hbfree).trans hparent)

def demoSource : Source where
  waiting := []
  due := fun _ => (List.range 10).map fun i : ℕ =>
    { taskId := i + 1, instanceId := if i = 9 then 8 else 7, attemptNo := 1, nextDispatchAt := 1 }
  waiting_pos := Source.empty.waiting_pos
  waiting_ordered := Source.empty.waiting_ordered
  due_ordered := fun _ => by unfold Paging.Ordered; decide

def demoQueue : RuntimeConfig where
  concurrency := 1
  waitingCapacity := 20
  scanInterval := 5
  concurrency_pos := Nat.one_pos
  waitingCapacity_pos := by decide
  scanInterval_pos := demoConfig.scanInterval_pos

/-- The scanner finds no waiting instance, and admits the tasks. -/
def demoScan : List Move :=
  [.change demoSource, .start, .scan 0, .sample 0, .answer .value, .scan 0, .scan 0, .scan 0,
    .sample 2, .answer .value, .scan 0, .sample 0, .answer .value, .scan 0, .scan 0]

/-- The worker takes a candidate and is done with it. -/
def demoRound : List Move :=
  [.work 0 0, .work 0 0, .registered 0 .confirmed 0, .sent 0, .work 0 0, .work 0 0]

theorem demo_takes : ∃ r r' c,
    (runtime demoQueue).run (demoScan ++ (List.replicate 8 demoRound).flatten) = some r ∧
    (runtime demoQueue).step r (.work 0 0) = some r' ∧ r'.taken = r.taken ++ [c] ∧
    r.taken.map (·.instanceId) = List.replicate 8 7 ∧ c.instanceId ≠ 7 := by
  obtain ⟨r, hr, htaken, ⟨b, hb, hbfree⟩, r', hm, hinit, hne⟩ :
      ∃ r ∈ (runtime demoQueue).run (demoScan ++ (List.replicate 8 demoRound).flatten),
        r.taken.map (·.instanceId) = List.replicate 8 7 ∧
        (∃ b ∈ r.supply.pending, b.instanceId ≠ 7 ∧ r.supply.registering b.instanceId = none) ∧
        ∃ r' ∈ (runtime demoQueue).step r (.work 0 0),
          r'.taken.dropLast = r.taken ∧ r'.taken ≠ [] := by decide +kernel
  have hconcat : r'.taken = r.taken ++ [r'.taken.getLast hne] := by
    rw [← hinit, List.dropLast_concat_getLast]
  obtain ⟨-, -, hfair⟩ := (take_order hr).2 _ r' _ hm hconcat
  refine ⟨r, r', _, hr, hm, hconcat, htaken, hfair 7 [] r.taken rfl ?_ ?_ ⟨b, hb, hbfree⟩⟩
  · have hlen := congrArg List.length htaken
    rw [List.length_map] at hlen
    exact hlen.ge
  · intro t ht
    have hmem : t.instanceId ∈ r.taken.map (·.instanceId) := List.mem_map_of_mem ht
    rw [htaken] at hmem
    exact List.eq_of_mem_replicate hmem

end Dogx.Dispatch
