import Dogx.Dispatch.Custody

/-!
# Conflicted parents

What a step does to the conflict set, its deadlines and the mark of a full set.
-/

namespace Dogx.Dispatch

variable {cfg : RuntimeConfig} {r r' : Runtime} {now random : ℕ} {c : Candidate}

/-! ## Deadlines -/

/-- `t` is the least deadline, and the zero time if there is none. -/
structure Earliest (t : ℕ) (deadlines : List ℕ) : Prop where
  zero : t = 0 ↔ deadlines = []
  le : ∀ d ∈ deadlines, t ≤ d
  mem : deadlines ≠ [] → t ∈ deadlines

theorem earlier_ne_zero {a b : ℕ} (hb : b ≠ 0) : earlier a b ≠ 0 := by
  unfold earlier
  split <;> omega

namespace Earliest

variable {t d : ℕ} {deadlines : List ℕ}

theorem nil : Earliest 0 [] := ⟨by simp, by simp, by simp⟩

theorem cons (h : Earliest t deadlines) (hd : d ≠ 0) : Earliest (earlier t d) (d :: deadlines) := by
  refine ⟨?_, ?_, ?_⟩
  · simp [earlier_ne_zero hd]
  · intro e he
    unfold earlier
    rcases List.mem_cons.mp he with rfl | he
    · split <;> omega
    · have hle := h.le e he
      have hne : t ≠ 0 := fun h0 => by simp [h.zero.mp h0] at he
      split <;> omega
  · intro _
    unfold earlier
    split
    · exact List.mem_cons_self
    · next hor =>
      refine List.mem_cons_of_mem _ (h.mem fun hnil => ?_)
      exact hor (.inl (h.zero.mpr hnil))

theorem perm {deadlines' : List ℕ} (h : Earliest t deadlines) (hp : deadlines.Perm deadlines') :
    Earliest t deadlines' := by
  refine ⟨?_, fun d hd => h.le d (hp.mem_iff.mpr hd), fun hne => hp.mem_iff.mp (h.mem ?_)⟩
  · rw [h.zero]
    exact ⟨fun h => by simpa [h] using hp, fun h => by simpa [h] using hp⟩
  · rintro rfl
    exact hne (List.nil_perm.mp hp)

theorem foldl (entries : List (Int × ℕ)) (h : Earliest t deadlines) (hpos : ∀ e ∈ entries, e.2 ≠ 0) :
    Earliest (entries.foldl (fun t e => earlier t e.2) t) (entries.map Prod.snd ++ deadlines) := by
  induction entries generalizing t deadlines with
  | nil => exact h
  | cons e _ ih =>
    obtain ⟨he, hentries⟩ := List.forall_mem_cons.mp hpos
    exact (ih (h.cons he) hentries).perm List.perm_middle

end Earliest

/-! ## The conflict set -/

namespace Supply

variable {s s' : Supply}

structure Conflicts (cfg : RuntimeConfig) (s : Supply) : Prop where
  nodup : (s.conflicted.map Prod.fst).Nodup
  pos : ∀ e ∈ s.conflicted, e.2 ≠ 0
  earliest : Earliest s.conflictUntil (s.conflicted.map Prod.snd)
  full : s.conflictFull = decide (cfg.waitingCapacity ≤ s.conflicted.length)

structure Calm (s s' : Supply) : Prop where
  conflicted : s'.conflicted = s.conflicted
  conflictUntil : s'.conflictUntil = s.conflictUntil
  conflictFull : s'.conflictFull = s.conflictFull

theorem Conflicts.calm (h : s.Conflicts cfg) (hc : Calm s s') : s'.Conflicts cfg := by
  obtain ⟨h1, h2, h3⟩ := hc
  refine ⟨?_, ?_, ?_, ?_⟩
  · rw [h1]
    exact h.nodup
  · rw [h1]
    exact h.pos
  · rw [h1, h2]
    exact h.earliest
  · rw [h1, h3]
    exact h.full

theorem Conflicts.expired (h : s.Conflicts cfg) :
    (s.expireConflicts cfg now).conflicted = s.conflicted.filter fun e => now < e.2 := by
  unfold expireConflicts
  split
  · rfl
  · next hno =>
    refine (List.filter_eq_self.mpr fun e he => ?_).symm
    have hle := h.earliest.le e.2 (List.mem_map_of_mem he)
    have hne : s.conflictUntil ≠ 0 := by
      intro h0
      have hnil := h.earliest.zero.mp h0
      rw [List.map_eq_nil_iff] at hnil
      simp [hnil] at he
    rw [decide_eq_true_eq]
    omega

theorem Conflicts.expire (h : s.Conflicts cfg) : (s.expireConflicts cfg now).Conflicts cfg := by
  unfold expireConflicts
  split
  · refine ⟨?_, ?_, ?_, rfl⟩
    · exact h.nodup.sublist (List.filter_sublist.map _)
    · exact fun e he => h.pos e (List.mem_filter.mp he).1
    · have hfold := Earliest.nil.foldl (s.conflicted.filter fun e => now < e.2)
        fun e he => h.pos e (List.mem_filter.mp he).1
      rw [List.append_nil] at hfold
      exact hfold
  · exact h

theorem notMem_of_not_blocked {id : Int} (h : ¬ s.blocked id = true) :
    id ∉ s.conflicted.map Prod.fst := by
  intro hmem
  obtain ⟨e, he, rfl⟩ := List.mem_map.mp hmem
  rw [blocked, conflict, Option.not_isSome_iff_eq_none, List.lookup_eq_none_iff] at h
  simpa using h e he

theorem Conflicts.record {id : Int} (h : s.Conflicts cfg) :
    { s.recordConflict cfg now random id with
      conflictFull := cfg.waitingCapacity ≤ (s.recordConflict cfg now random id).conflicted.length
    }.Conflicts cfg := by
  unfold recordConflict
  split
  · exact ⟨h.nodup, h.pos, h.earliest, rfl⟩
  · next hb =>
    have hdeadline : now + cfg.scanDelay random ≠ 0 := by
      have := cfg.scanDelay_pos random
      omega
    refine ⟨?_, ?_, ?_, rfl⟩
    · exact List.nodup_cons.mpr ⟨notMem_of_not_blocked hb, h.nodup⟩
    · exact List.forall_mem_cons.mpr ⟨hdeadline, h.pos⟩
    · exact h.earliest.cons hdeadline

theorem Conflicts.block {id : Int} (h : s.Conflicts cfg) :
    (s.blockParent cfg now random id).Conflicts cfg :=
  h.expire.record.calm ⟨rfl, rfl, rfl⟩

inductive Disturbs (cfg : RuntimeConfig) (now : ℕ) (s s' : Supply) : Prop where
  | calm (h : Calm s s')
  | expired (h : Calm (s.expireConflicts cfg now) s')
  | blocked (random : ℕ) (id : Int) (h : Calm ((s.unregister id).blockParent cfg now random id) s')
      (hmark : (s.registering id).isSome) (hgone : s'.registering = Function.update s.registering id none)

theorem Conflicts.disturb (h : s.Conflicts cfg) (hd : Disturbs cfg now s s') : s'.Conflicts cfg := by
  cases hd with
  | calm hc => exact h.calm hc
  | expired hc => exact h.expire.calm hc
  | blocked _ id hc =>
    have hu : (s.unregister id).Conflicts cfg := h.calm ⟨rfl, rfl, rfl⟩
    exact hu.block.calm hc

theorem calm_rewarded (s : Supply) (result : Registration) : Calm s (s.rewarded c result) := by
  unfold rewarded
  split <;> exact ⟨rfl, rfl, rfl⟩

theorem disturbs_registrationFinished (s : Supply) (result : Registration) :
    Disturbs cfg now s (s.registrationFinished cfg now random c result) := by
  by_cases h : s.registering c.instanceId = some c
  · rw [registrationFinished_of_eq h]
    by_cases hlocked : result = .locked
    · rw [if_pos hlocked]
      exact .blocked random _ (calm_rewarded _ _) (h ▸ rfl)
        ((still_blockParent _ _).trans (still_rewarded _)).registering
    · rw [if_neg hlocked]
      obtain ⟨h1, h2, h3⟩ := calm_rewarded (s.unregister c.instanceId) result
      exact .calm ⟨h1, h2, h3⟩
  · rw [registrationFinished_of_ne h]
    exact .calm ⟨rfl, rfl, rfl⟩

theorem disturbs_chargePage (s : Supply) : Disturbs cfg now s (s.chargePage cfg now).2 := by
  unfold chargePage
  split
  · exact .calm ⟨rfl, rfl, rfl⟩
  · simp only
    split <;> exact .expired ⟨rfl, rfl, rfl⟩

theorem disturbs_hint (s : Supply) (id : Int) : Disturbs cfg now s (s.hint cfg now id).2 := by
  unfold hint
  split
  · exact .calm ⟨rfl, rfl, rfl⟩
  · simp only
    split
    · exact .expired ⟨rfl, rfl, rfl⟩
    · split
      · exact .expired ⟨rfl, rfl, rfl⟩
      · split <;> exact .expired ⟨rfl, rfl, rfl⟩

theorem Disturbs.calm_right {s'' : Supply} (h : Disturbs cfg now s s') (hc : Calm s' s'')
    (hreg : s''.registering = s'.registering) : Disturbs cfg now s s'' := by
  have htrans : ∀ {s0 : Supply}, Calm s0 s' → Calm s0 s'' := fun h =>
    ⟨hc.conflicted.trans h.conflicted, hc.conflictUntil.trans h.conflictUntil,
      hc.conflictFull.trans h.conflictFull⟩
  cases h with
  | calm h => exact .calm (htrans h)
  | expired h => exact .expired (htrans h)
  | blocked random id h hmark hgone => exact .blocked random id (htrans h) hmark (hreg.trans hgone)

theorem calm_unreserve (s : Supply) (cfg : RuntimeConfig) (now : ℕ) :
    Calm (s.expireConflicts cfg now) (s.unreserve.expireConflicts cfg now) := by
  unfold expireConflicts unreserve
  split <;> exact ⟨rfl, rfl, rfl⟩

theorem disturbs_refreshed : Disturbs cfg r.now r.supply (r.refreshed cfg) := by
  unfold Runtime.refreshed Runtime.restoreBudget
  split <;> exact .expired ⟨rfl, rfl, rfl⟩

end Supply

/-- What each step does to the conflict set. -/
theorem Change.disturbs (hc : Change cfg r r') : r.supply.Disturbs cfg r.now r'.supply := by
  cases hc with
  | stopped =>
    refine .calm ?_
    unfold Supply.stop
    split <;> exact ⟨rfl, rfl, rfl⟩
  | hinted id => exact r.supply.disturbs_hint id
  | rested => exact Supply.disturbs_refreshed
  | reserved =>
    unfold Runtime.reserve Runtime.begin
    split <;> exact Supply.disturbs_refreshed.calm_right ⟨rfl, rfl, rfl⟩ rfl
  | refused | charged => exact r.supply.disturbs_chargePage
  | paused =>
    refine .calm ?_
    unfold Supply.pauseBudget
    split <;> exact ⟨rfl, rfl, rfl⟩
  | admitted _ _ _ s _ hstop hadm =>
    cases (Supply.admitPage_eq hstop).symm.trans hadm
    obtain ⟨h1, h2, h3⟩ := r.supply.calm_unreserve cfg r.now
    exact .expired ⟨h1, h2, h3⟩
  | idle i s _ _ hs =>
    subst hs
    exact .expired ⟨rfl, rfl, rfl⟩
  | took | asked => exact .expired ⟨rfl, rfl, rfl⟩
  | registered | cleaned => exact r.supply.disturbs_registrationFinished _
  | _ =>
    exact .calm ⟨rfl, rfl, rfl⟩

theorem conflicts (cfg : RuntimeConfig) :
    (runtime cfg).Invariant fun r => r.supply.Conflicts cfg := by
  refine invariant_of_change ⟨.nil, by simp [Runtime.init, Supply.init], .nil, ?_⟩
    fun h hc => h.disturb hc.disturbs
  have := cfg.waitingCapacity_pos
  simp [Runtime.init, Supply.init]
  omega

/-! ## Deadlines stay -/

namespace Supply

variable {s s' : Supply} {p : Int} {d : ℕ}

theorem Conflicts.conflict_eq (h : s.Conflicts cfg) : s.conflict p = some d ↔ (p, d) ∈ s.conflicted := by
  rw [conflict, List.lookup_eq_some_iff]
  constructor
  · rintro ⟨l1, l2, hl, -⟩
    rw [hl]
    exact List.mem_append_right _ List.mem_cons_self
  · intro hmem
    obtain ⟨l1, l2, hl⟩ := List.append_of_mem hmem
    refine ⟨l1, l2, hl, fun e he => ?_⟩
    have hnd := h.nodup
    rw [hl, List.map_append, List.nodup_append] at hnd
    have hne := hnd.2.2 e.1 (List.mem_map_of_mem he) p List.mem_cons_self
    simpa using hne.symm

/-- A conflict that has not expired keeps its deadline. -/
theorem Conflicts.deadline (h : s.Conflicts cfg) (hd : Disturbs cfg now s s')
    (hp : s.conflict p = some d) (hnow : now < d) : s'.conflict p = some d := by
  rw [(h.disturb hd).conflict_eq]
  rw [h.conflict_eq] at hp
  have hkept : ∀ {s : Supply}, s.Conflicts cfg → (p, d) ∈ s.conflicted →
      (p, d) ∈ (s.expireConflicts cfg now).conflicted := by
    intro s h hp
    rw [h.expired]
    exact List.mem_filter.mpr ⟨hp, decide_eq_true hnow⟩
  cases hd with
  | calm hc =>
    rw [hc.conflicted]
    exact hp
  | expired hc =>
    rw [hc.conflicted]
    exact hkept h hp
  | blocked _ id hc =>
    have hu : (s.unregister id).Conflicts cfg := h.calm ⟨rfl, rfl, rfl⟩
    have hmem := hkept hu hp
    rw [hc.conflicted]
    simp only [blockParent, recordConflict]
    split
    · exact hmem
    · exact List.mem_cons_of_mem _ hmem

theorem Conflicts.length_block (h : s.Conflicts cfg) (now random : ℕ) (id : Int) :
    (s.blockParent cfg now random id).conflicted.length ≤ s.conflicted.length + 1 := by
  have hlen : (s.expireConflicts cfg now).conflicted.length ≤ s.conflicted.length := by
    rw [h.expired]
    exact List.length_filter_le _ _
  simp only [blockParent, recordConflict]
  split
  · exact hlen.trans (Nat.le_succ _)
  · exact Nat.succ_le_succ hlen

end Supply

/-! ## Room for late conflicts -/

def Crowd (cfg : RuntimeConfig) (r : Runtime) : Prop :=
  ∀ parents : List Int, parents.Nodup → (∀ p ∈ parents, (r.supply.registering p).isSome) →
    r.supply.conflicted.length + parents.length < cfg.waitingCapacity + cfg.concurrency

theorem Crowd.disturb (h : Crowd cfg r) (hs : r.supply.Conflicts cfg)
    (hd : r.supply.Disturbs cfg r.now r'.supply)
    (hreg : ∀ p, (r'.supply.registering p).isSome → (r.supply.registering p).isSome) :
    Crowd cfg r' := by
  intro parents hnd hall
  have hbefore := h parents hnd fun p hp => hreg p (hall p hp)
  cases hd with
  | calm hc =>
    rw [hc.conflicted]
    exact hbefore
  | expired hc =>
    have hlen : (r.supply.expireConflicts cfg r.now).conflicted.length ≤ r.supply.conflicted.length := by
      rw [hs.expired]
      exact List.length_filter_le _ _
    rw [hc.conflicted]
    omega
  | blocked random id hc hmark hgone =>
    have hu : (r.supply.unregister id).Conflicts cfg := hs.calm ⟨rfl, rfl, rfl⟩
    -- the parent was registering, and is not any more
    have hid : id ∉ parents := by
      intro hid
      have hsome := hall id hid
      rw [hgone, Function.update_self] at hsome
      cases hsome
    have hcons := h (id :: parents) (List.nodup_cons.mpr ⟨hid, hnd⟩)
      (List.forall_mem_cons.mpr ⟨hmark, fun p hp => hreg p (hall p hp)⟩)
    have hlen := hu.length_block r.now random id
    have hsame : (r.supply.unregister id).conflicted.length = r.supply.conflicted.length := rfl
    rw [hc.conflicted]
    simp only [List.length_cons] at hcons
    omega

theorem registering_of_finished {s : Supply} {result : Registration} {p : Int}
    (h : ((s.registrationFinished cfg now random c result).registering p).isSome) :
    (s.registering p).isSome := by
  have hsub : ∀ {id : Int}, ((s.unregister id).registering p).isSome → (s.registering p).isSome := by
    intro id
    by_cases hp : p = id
    · simp [Supply.unregister, hp]
    · simp [Supply.unregister, hp]
  rcases s.registrationFinished_cases c result with ⟨heq, -⟩ | ⟨-, ⟨-, hstill⟩ | ⟨-, hstill⟩⟩
  · rwa [heq] at h
  · rw [hstill.registering] at h
    exact hsub h
  · rw [hstill.registering] at h
    exact hsub h

theorem Change.marks (hs : r.supply.Conflicts cfg) (hc : Change cfg r r') :
    (∀ p, (r'.supply.registering p).isSome → (r.supply.registering p).isSome) ∨
      r'.supply.conflicted.length < cfg.waitingCapacity := by
  have hsame : r'.supply.registering = r.supply.registering →
      ∀ p, (r'.supply.registering p).isSome → (r.supply.registering p).isSome := by
    intro heq p hp
    rwa [heq] at hp
  cases hc with
  | stopped =>
    rcases Supply.stop_cases r.supply with h | h
    · exact .inl (hsame (congrArg Supply.registering h))
    · exact .inl (hsame h.registering)
  | hinted id =>
    rcases Supply.hint_cases r.supply id with h | ⟨_, -, -, -, h⟩ <;>
      exact .inl (hsame h.registering)
  | rested => exact .inl (hsame Supply.still_refreshed.registering)
  | reserved =>
    refine .inl (hsame ?_)
    unfold Runtime.reserve Runtime.begin
    split <;> exact Supply.still_refreshed.registering
  | refused | charged => exact .inl (hsame (Supply.still_chargePage _).registering)
  | paused => exact .inl (hsame (Supply.still_pauseBudget _).registering)
  | admitted _ _ _ s _ _ hadm =>
    obtain ⟨_, _, _, h⟩ := Supply.admitPage_stock hadm
    exact .inl (hsame h.registering)
  | idle _ _ _ _ h =>
    subst h
    exact .inl (hsame (Supply.still_expireConflicts _).registering)
  | took i _ c _ _ hchosen hget =>
    have hspare := (Supply.chosen hchosen
      ((Supply.still_expireConflicts r.supply).pending ▸ hget)).spare
    rw [hs.expire.full, decide_eq_false_iff_not, Nat.not_le] at hspare
    exact .inr hspare
  | asked => exact .inl (hsame (Supply.still_expireConflicts _).registering)
  | registered | cleaned => exact .inl fun p => registering_of_finished
  | _ => exact .inl (hsame rfl)

/-- In every run, registrations under way have room for their conflicts. -/
theorem crowd (cfg : RuntimeConfig) : (runtime cfg).Invariant fun r =>
    ((((Staffed cfg r ∧ Owned cfg r) ∧ Addressed cfg r) ∧ Registrations cfg r) ∧
      r.supply.Conflicts cfg) ∧ Crowd cfg r := by
  have hbase := (registrations cfg).and (conflicts cfg).init fun _ _ _ _ h hm =>
    (conflicts cfg).step h hm
  refine hbase.and ?_ fun r m r' hI h hm => ?_
  · intro parents hnd hall
    cases parents with
    | nil =>
      have := cfg.waitingCapacity_pos
      simp [runtime, Runtime.init, Supply.init]
      omega
    | cons p => cases hall p List.mem_cons_self
  · have hc : Change cfg r r' := .of_step hm
    rcases hc.marks hI.2 with hsub | hspare
    · exact h.disturb hI.2 hc.disturbs hsub
    · intro parents hnd hall
      have hlen := (hbase.step hI hm).1.2.length_le hnd hall
      omega

end Dogx.Dispatch
