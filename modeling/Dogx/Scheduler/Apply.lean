import Dogx.Scheduler.Term

/-!
# Applying snapshots

After each snapshot the live cron entries are those of the rules the term has recorded, and every entry
ever made is live or has been removed once.
-/

namespace Dogx.Scheduler

open Job (Env)

/-! ## The cron engine -/

namespace Cron

variable {c : Cron} {entry : ℕ} {id : ℤ}

structure Tidy (c : Cron) : Prop where
  made : c.made.Nodup
  perm : c.made.Perm (c.entries.map Prod.fst ++ c.removed)

namespace Tidy

variable (h : Tidy c)
include h

theorem nodup : (c.entries.map Prod.fst).Nodup :=
  (List.nodup_append.mp (h.perm.nodup_iff.mp h.made)).1

theorem nodup_removed : c.removed.Nodup :=
  (List.nodup_append.mp (h.perm.nodup_iff.mp h.made)).2.1

theorem mem_made (hmem : (entry, id) ∈ c.entries) : entry ∈ c.made :=
  h.perm.mem_iff.mpr (List.mem_append_left _ (List.mem_map_of_mem hmem))

theorem schedule (hnew : entry ∉ c.made) (id : ℤ) : Tidy (c.schedule entry id) where
  made := List.nodup_append_comm.mp (List.nodup_cons.mpr ⟨hnew, h.made⟩)
  perm := by
    change (c.made ++ [entry]).Perm ((c.entries ++ [(entry, id)]).map Prod.fst ++ c.removed)
    rw [List.map_append, List.append_assoc]
    refine List.perm_append_comm.trans ?_
    exact (h.perm.cons _).trans List.perm_middle.symm

theorem remove (hmem : (entry, id) ∈ c.entries) : Tidy (c.remove entry) where
  made := h.made
  perm := by
    have hids : (c.remove entry).entries.map Prod.fst = (c.entries.map Prod.fst).erase entry := by
      rw [h.nodup.erase_eq_filter, List.filter_map]
      refine congrArg (List.map Prod.fst) (List.filter_congr fun e _ => ?_)
      simp [bne, beq_eq_decide]
    have hlive : entry ∈ c.entries.map Prod.fst := List.mem_map_of_mem hmem
    rw [hids]
    calc c.made
      _ |>.Perm (c.entries.map Prod.fst ++ c.removed) := h.perm
      _ |>.Perm (entry :: (c.entries.map Prod.fst).erase entry ++ c.removed) :=
          (List.perm_cons_erase hlive).append_right _
      _ |>.Perm ((c.entries.map Prod.fst).erase entry ++ (c.removed ++ [entry])) := by
          rw [← List.append_assoc]
          exact @List.perm_append_comm _ [entry] _

theorem eq_of_mem {id' : ℤ} (hmem : (entry, id) ∈ c.entries) (hmem' : (entry, id') ∈ c.entries) :
    id = id' :=
  congrArg Prod.snd (List.inj_on_of_nodup_map h.nodup hmem hmem' rfl)

end Tidy

theorem mem_remove {e : ℕ × ℤ} : e ∈ (c.remove entry).entries ↔ e ∈ c.entries ∧ e.1 ≠ entry := by
  simp [remove]

end Cron

/-! ## The loop over a snapshot -/

namespace Term.Loop

variable {env : Env} {l l' : Loop} {id : ℤ} {R : Rules} {made : List ℕ} {i entry : ℕ}

def EntryOf (rules : Rules) (id : ℤ) (entry : ℕ) : Prop :=
  ∃ r, rules.lookup id = some r ∧ r.entry = entry

structure Live (l : Loop) : Prop where
  tidy : l.cron.Tidy
  live : ∀ entry id, (entry, id) ∈ l.cron.entries ↔ EntryOf l.next id entry ∨ EntryOf l.rules id entry
  agree : ∀ id r r', l.next.lookup id = some r → l.rules.lookup id = some r' → r = r'

namespace Live

theorem keep (h : Live l) {old : RegisteredRule} (hold : l.rules.lookup id = some old) :
    Live { l with next := l.next.insert id old } where
  tidy := h.tidy
  live entry j := by
    rw [h.live]
    by_cases hj : j = id
    · subst hj
      have hnext : ∀ r, l.next.lookup j = some r → r = old := fun r hr => h.agree j r old hr hold
      simp only [EntryOf, AList.lookup_insert, hold, Option.some.injEq, exists_eq_left']
      constructor
      · rintro (⟨r, hr, hentry⟩ | hentry)
        · exact .inl (hnext r hr ▸ hentry)
        · exact .inl hentry
      · rintro (hentry | hentry) <;> exact .inr hentry
    · simp only [EntryOf, AList.lookup_insert_ne hj]
  agree j r r' hr hr' := by
    by_cases hj : j = id
    · subst hj
      rw [AList.lookup_insert] at hr
      rw [hold] at hr'
      exact (Option.some.inj hr).symm.trans (Option.some.inj hr')
    · rw [AList.lookup_insert_ne hj] at hr
      exact h.agree j r r' hr hr'

theorem drop (h : Live l) (hnew : l.next.lookup id = none) : Live (l.drop id) := by
  unfold Loop.drop
  split
  next old hold =>
    have hentry : (old.entry, id) ∈ l.cron.entries := (h.live _ _).mpr (.inr ⟨old, hold, rfl⟩)
    refine ⟨h.tidy.remove hentry, fun entry j => ?_, fun j r r' hr hr' => ?_⟩
    · rw [Cron.mem_remove, h.live]
      by_cases hj : j = id
      · subst hj
        simp only [EntryOf, hnew, hold, AList.lookup_erase, Option.some.injEq, exists_eq_left',
          reduceCtorEq, false_and, exists_false, false_or, iff_false, not_and, not_not]
        exact Eq.symm
      · -- the removed entry is no other job's
        have hother : EntryOf l.next j entry ∨ EntryOf l.rules j entry → entry ≠ old.entry := by
          intro hmem heq
          have hin := (h.live entry j).mpr hmem
          rw [heq] at hin
          exact hj (h.tidy.eq_of_mem hin hentry)
        simp only [EntryOf, AList.lookup_erase_ne hj] at hother ⊢
        exact and_iff_left_of_imp hother
    · dsimp only at hr hr'
      by_cases hj : j = id
      · subst hj
        rw [AList.lookup_erase] at hr'
        cases hr'
      · rw [AList.lookup_erase_ne hj] at hr'
        exact h.agree j r r' hr hr'
  next => exact h

theorem schedule (h : Live l) (hnew : l.next.lookup id = none) (hold : l.rules.lookup id = none)
    (hentry : entry ∉ l.cron.made) (expr : String) :
    Live { l with
      cron := l.cron.schedule entry id
      next := l.next.insert id { expr, entry }
      changed := l.changed ++ [id] } where
  tidy := h.tidy.schedule hentry id
  live entry' j := by
    change (entry', j) ∈ l.cron.entries ++ [(entry, id)] ↔ _
    rw [List.mem_append, List.mem_singleton, h.live, Prod.mk.injEq]
    by_cases hj : j = id
    · subst hj
      simp only [EntryOf, hnew, hold, AList.lookup_insert, Option.some.injEq, exists_eq_left',
        reduceCtorEq, false_and, exists_false, false_or, or_false, and_true]
      exact eq_comm
    · simp only [EntryOf, AList.lookup_insert_ne hj, hj, and_false, or_false]
  agree j r r' hr hr' := by
    by_cases hj : j = id
    · subst hj
      cases hold.symm.trans hr'
    · rw [AList.lookup_insert_ne hj] at hr
      exact h.agree j r r' hr hr'

end Live

/-! ## What the loop records -/

/-- The rule is registered with the same expression. -/
def kept (R : Rules) (rule : Rule) : Bool :=
  (R.lookup rule.id).any fun old => old.expr = rule.cronExpr

/-- The rule is scheduled anew, at time `now`. -/
def fresh (env : Env) (R : Rules) (p : Rule × ℕ) : Bool :=
  !kept R p.1 && valid env p.2 p.1.cronExpr

structure Record (env : Env) (R : Rules) (made : List ℕ) (l : Loop) (done : List (Rule × ℕ)) :
    Prop where
  grown : made ⊆ l.cron.made
  old : ∀ id, (∀ p ∈ done, p.1.id ≠ id) → l.rules.lookup id = R.lookup id
  unseen : ∀ id, (∀ p ∈ done, p.1.id ≠ id) → l.next.lookup id = none
  recorded : ∀ p ∈ done,
    if kept R p.1 then l.next.lookup p.1.id = R.lookup p.1.id
    else if valid env p.2 p.1.cronExpr then
      ∃ entry, entry ∉ made ∧ l.next.lookup p.1.id = some ⟨p.1.cronExpr, entry⟩
    else l.next.lookup p.1.id = none
  dropped : ∀ p ∈ done, kept R p.1 = false → ∀ old, R.lookup p.1.id = some old →
    old.entry ∈ l.cron.removed
  changed : l.changed = (done.filter (fresh env R)).map fun p => p.1.id

theorem drop_spec (l : Loop) (id : ℤ) :
    (l.drop id).next = l.next ∧ (l.drop id).changed = l.changed ∧
      (l.drop id).cron.made = l.cron.made ∧
      (l.drop id).rules.lookup id = none ∧
      (∀ j, j ≠ id → (l.drop id).rules.lookup j = l.rules.lookup j) ∧
      (∀ entry ∈ l.cron.removed, entry ∈ (l.drop id).cron.removed) ∧
      ∀ old, l.rules.lookup id = some old → old.entry ∈ (l.drop id).cron.removed := by
  unfold Loop.drop
  split
  next old hold =>
    refine ⟨rfl, rfl, rfl, AList.lookup_erase _ _, fun j hj => AList.lookup_erase_ne hj,
      fun _ => List.mem_append_left _, fun r hr => ?_⟩
    cases hold.symm.trans hr
    exact List.mem_append_right _ (List.mem_singleton_self _)
  next hnone =>
    refine ⟨rfl, rfl, rfl, hnone, fun _ _ => rfl, fun _ hmem => hmem, fun r hr => ?_⟩
    cases hnone.symm.trans hr

namespace Record

variable {done : List (Rule × ℕ)} {rule : Rule} {now : ℕ}

theorem extend (h : Record env R made l done) (hnew : ∀ p ∈ done, p.1.id ≠ rule.id)
    (hmade : l.cron.made ⊆ l'.cron.made)
    (hrules : ∀ j, j ≠ rule.id → l'.rules.lookup j = l.rules.lookup j)
    (hnext : ∀ j, j ≠ rule.id → l'.next.lookup j = l.next.lookup j)
    (hrecorded : if kept R rule then l'.next.lookup rule.id = R.lookup rule.id
      else if valid env now rule.cronExpr then
        ∃ entry, entry ∉ made ∧ l'.next.lookup rule.id = some ⟨rule.cronExpr, entry⟩
      else l'.next.lookup rule.id = none)
    (hremoved : ∀ entry ∈ l.cron.removed, entry ∈ l'.cron.removed)
    (hdropped : kept R rule = false → ∀ old, R.lookup rule.id = some old →
      old.entry ∈ l'.cron.removed)
    (hchanged : l'.changed = l.changed ++ if fresh env R (rule, now) then [rule.id] else []) :
    Record env R made l' (done ++ [(rule, now)]) where
  grown := List.Subset.trans h.grown hmade
  old j hj := by
    have hne : j ≠ rule.id := fun heq => hj (rule, now) (by simp) heq.symm
    rw [hrules j hne]
    exact h.old j fun p hp => hj p (List.mem_append_left _ hp)
  unseen j hj := by
    have hne : j ≠ rule.id := fun heq => hj (rule, now) (by simp) heq.symm
    rw [hnext j hne]
    exact h.unseen j fun p hp => hj p (List.mem_append_left _ hp)
  recorded p hp := by
    rcases List.mem_append.mp hp with hp | hp
    · rw [hnext _ (hnew p hp)]
      exact h.recorded p hp
    · rw [List.mem_singleton.mp hp]
      exact hrecorded
  dropped p hp hkept old hold := by
    rcases List.mem_append.mp hp with hp | hp
    · exact hremoved _ (h.dropped p hp hkept old hold)
    · rw [List.mem_singleton.mp hp] at hkept hold
      exact hdropped hkept old hold
  changed := by
    rw [hchanged, h.changed, List.filter_append]
    split <;> simp [*]

/-- One round of the loop records its rule. -/
theorem step (h : Record env R made l done) (hnew : ∀ p ∈ done, p.1.id ≠ rule.id)
    (hentry : entry ∉ l.cron.made) :
    Record env R made (l.rule env now entry rule) (done ++ [(rule, now)]) := by
  have hold : l.rules.lookup rule.id = R.lookup rule.id := h.old _ hnew
  unfold Loop.rule
  rw [hold]
  split
  next old hfilter =>
    obtain ⟨hR, hexpr⟩ := Option.filter_eq_some_iff.mp hfilter
    have hkept : kept R rule = true := by simpa [kept, hR] using hexpr
    refine h.extend hnew (List.Subset.refl _) (fun _ _ => rfl)
      (fun j hj => AList.lookup_insert_ne hj) ?_ (fun _ => id) ?_ ?_
    · rw [if_pos hkept, hR]
      exact AList.lookup_insert _
    · intro hnot
      cases hkept.symm.trans hnot
    · simp [fresh, hkept]
  next hfilter =>
    have hkept : kept R rule = false := by
      rw [Bool.eq_false_iff]
      intro hany
      obtain ⟨old, hR, hexpr⟩ := (Option.any_eq_true _ _).mp hany
      rw [hR] at hfilter
      simp [of_decide_eq_true hexpr] at hfilter
    obtain ⟨hnext, hchanged, hmade, _, hothers, hremoved, hgone⟩ := drop_spec l rule.id
    have hnone : l.next.lookup rule.id = none := h.unseen _ hnew
    dsimp only
    split
    next hinvalid =>
      have hinvalid : valid env now rule.cronExpr = false := by simpa using hinvalid
      refine h.extend hnew (fun _ hmem => hmade ▸ hmem) hothers (fun j _ => by rw [hnext]) ?_ hremoved ?_ ?_
      · rw [hkept, hinvalid, hnext]
        simpa using hnone
      · exact fun _ old hR => hgone old (hold.trans hR)
      · simp [fresh, hinvalid, hchanged]
    next hvalid =>
      have hvalid : valid env now rule.cronExpr = true := by simpa using hvalid
      refine h.extend hnew (fun _ hmem => List.mem_append_left _ (hmade ▸ hmem)) hothers
        (fun j hj => ?_) ?_ hremoved ?_ ?_
      · rw [AList.lookup_insert_ne hj, hnext]
      · rw [hkept, hvalid]
        exact ⟨entry, fun hmem => hentry (h.grown hmem), AList.lookup_insert _⟩
      · exact fun _ old hR => hgone old (hold.trans hR)
      · simp [fresh, hkept, hvalid, hchanged]

end Record

namespace Record

variable {done : List (Rule × ℕ)} {p : Rule × ℕ} {r : RegisteredRule}

variable (h : Record env R made l done)
include h

theorem exists_of_lookup (hr : l.next.lookup id = some r) : ∃ p ∈ done, p.1.id = id := by
  by_contra hnone
  push Not at hnone
  cases (h.unseen id hnone).symm.trans hr

theorem lookup_of_kept (hp : p ∈ done) (hkept : kept R p.1 = true) :
    l.next.lookup p.1.id = R.lookup p.1.id := by
  simpa [hkept] using h.recorded p hp

theorem lookup_of_fresh (hp : p ∈ done) (hfresh : fresh env R p = true) :
    ∃ entry, entry ∉ made ∧ l.next.lookup p.1.id = some ⟨p.1.cronExpr, entry⟩ := by
  rw [fresh, Bool.and_eq_true, Bool.not_eq_true'] at hfresh
  simpa [hfresh] using h.recorded p hp

theorem kept_or_fresh (hp : p ∈ done) (hr : l.next.lookup p.1.id = some r) :
    kept R p.1 = true ∨ fresh env R p = true := by
  have hrecorded := h.recorded p hp
  by_cases hkept : kept R p.1 = true
  · exact .inl hkept
  · refine .inr ?_
    rw [if_neg hkept] at hrecorded
    split at hrecorded
    next hvalid => simp [fresh, hkept, hvalid]
    next =>
      cases hrecorded.symm.trans hr

theorem recorded_iff (id : ℤ) (expr : String) :
    (∃ entry, l.next.lookup id = some ⟨expr, entry⟩) ↔
      ∃ p ∈ done, p.1 = ⟨id, expr⟩ ∧ (kept R p.1 = true ∨ valid env p.2 expr = true) := by
  constructor
  · rintro ⟨entry, hentry⟩
    obtain ⟨p, hp, rfl⟩ := h.exists_of_lookup hentry
    rcases h.kept_or_fresh hp hentry with hkept | hfresh
    · obtain ⟨old, hold, hexpr⟩ := (Option.any_eq_true _ _).mp hkept
      rw [h.lookup_of_kept hp hkept, hold] at hentry
      cases hentry
      have hexpr : expr = p.1.cronExpr := of_decide_eq_true hexpr
      subst hexpr
      exact ⟨p, hp, rfl, .inl hkept⟩
    · obtain ⟨_, -, hentry'⟩ := h.lookup_of_fresh hp hfresh
      cases hentry'.symm.trans hentry
      exact ⟨p, hp, rfl, .inr (Bool.and_eq_true_iff.mp hfresh).2⟩
  · rintro ⟨p, hp, hrule, hor⟩
    have hid : p.1.id = id := congrArg Rule.id hrule
    have hexpr : p.1.cronExpr = expr := congrArg Rule.cronExpr hrule
    by_cases hkept : kept R p.1 = true
    · obtain ⟨old, hold, hold'⟩ := (Option.any_eq_true _ _).mp hkept
      refine ⟨old.entry, ?_⟩
      rw [← hid, h.lookup_of_kept hp hkept, hold, ← hexpr, ← of_decide_eq_true hold']
    · have hvalid := hor.resolve_left hkept
      have hfresh : fresh env R p = true := by simp [fresh, hkept, hexpr, hvalid]
      obtain ⟨entry, -, hentry⟩ := h.lookup_of_fresh hp hfresh
      exact ⟨entry, by rw [← hid, hentry, hexpr]⟩

/-- The changed IDs are those with a new entry. -/
theorem mem_changed (hold : ∀ id entry, EntryOf R id entry → entry ∈ made) (id : ℤ) :
    id ∈ l.changed ↔ ∃ entry, entry ∉ made ∧ EntryOf l.next id entry := by
  rw [h.changed, List.mem_map]
  constructor
  · rintro ⟨p, hp, rfl⟩
    obtain ⟨hp, hfresh⟩ := List.mem_filter.mp hp
    obtain ⟨entry, hnew, hentry⟩ := h.lookup_of_fresh hp hfresh
    exact ⟨entry, hnew, _, hentry, rfl⟩
  · rintro ⟨_, hnew, r, hr, hentry⟩
    obtain ⟨p, hp, rfl⟩ := h.exists_of_lookup hr
    refine ⟨p, List.mem_filter.mpr ⟨hp, (h.kept_or_fresh hp hr).resolve_left fun hkept => ?_⟩, rfl⟩
    rw [h.lookup_of_kept hp hkept] at hr
    exact absurd (hold _ _ ⟨r, hr, hentry⟩) hnew

end Record

theorem Live.rule {rule : Rule} {now : ℕ} (h : Live l) (hnew : l.next.lookup rule.id = none)
    (hentry : entry ∉ l.cron.made) : Live (l.rule env now entry rule) := by
  unfold Loop.rule
  split
  next old hfilter => exact h.keep (Option.filter_eq_some_iff.mp hfilter).1
  next =>
    obtain ⟨hnext, -, hmade, hrules, -⟩ := drop_spec l rule.id
    have hdrop := h.drop hnew
    dsimp only
    split
    · exact hdrop
    · exact hdrop.schedule (hnext ▸ hnew) hrules (hmade ▸ hentry) rule.cronExpr

theorem made_rule (rule : Rule) (now : ℕ) : (l.rule env now entry rule).cron.made = l.cron.made ∨
    (l.rule env now entry rule).cron.made = l.cron.made ++ [entry] := by
  obtain ⟨-, -, hmade, -⟩ := drop_spec l rule.id
  unfold Loop.rule
  split
  · exact .inl rfl
  · dsimp only
    split
    · exact .inl hmade
    · exact .inr (congrArg (· ++ [entry]) hmade)

/-- The rules of a snapshot from number `i` on, each with the clock reading. -/
def timed (r : Readings) (i : ℕ) : List Rule → List (Rule × ℕ)
  | [] => []
  | rule :: rest => (rule, r.now i) :: timed r (i + 1) rest

theorem map_timed (r : Readings) (i : ℕ) (rules : List Rule) : (timed r i rules).map Prod.fst = rules := by
  induction rules generalizing i with
  | nil => rfl
  | cons _ _ ih => rw [timed, List.map_cons, ih]

theorem mem_timed {r : Readings} {rules : List Rule} {rule : Rule} :
    rule ∈ rules ↔ ∃ p ∈ timed r i rules, p.1 = rule := by
  rw [← List.mem_map, map_timed]

/-- A loop that completes has recorded every rule. -/
theorem run_record {r : Readings} {rest : List Rule} {done : List (Rule × ℕ)} (hlive : Live l)
    (hrecord : Record env R made l done)
    (hids : (done.map (fun p => p.1.id) ++ rest.map Rule.id).Nodup)
    (hfresh : (l.cron.made ++ (List.range' i rest.length).map r.entry).Nodup)
    (hrun : Loop.run env r i l rest = (l', true)) :
    Live l' ∧ Record env R made l' (done ++ timed r i rest) := by
  induction rest generalizing i l done with
  | nil =>
    cases hrun
    rw [timed, List.append_nil]
    exact ⟨hlive, hrecord⟩
  | cons rule _ ih =>
    have hnew : ∀ p ∈ done, p.1.id ≠ rule.id := fun p hp heq =>
      List.disjoint_of_nodup_append hids (List.mem_map_of_mem hp) (heq ▸ List.mem_cons_self)
    simp only [Loop.run] at hrun
    split at hrun
    · cases hrun
    · rw [List.length_cons, List.range'_succ, List.map_cons] at hfresh
      have hentry : r.entry i ∉ l.cron.made := fun hmem =>
        List.disjoint_of_nodup_append hfresh hmem List.mem_cons_self
      rw [timed, List.append_cons]
      refine ih (hlive.rule (hrecord.unseen _ hnew) hentry) (hrecord.step hnew hentry) ?_ ?_ hrun
      · rw [List.map_append, List.append_assoc]
        exact hids
      · rcases made_rule rule (r.now i) with hmade | hmade
        · rw [hmade]
          exact hfresh.sublist (List.Sublist.append_left (List.sublist_cons_self _ _) _)
        · rw [hmade, ← List.append_cons]
          exact hfresh

/-! ## The rules left in the old map -/

def Absent (next : Rules) (left : List (Σ _ : ℤ, RegisteredRule)) (id : ℤ) (entry : ℕ) : Prop :=
  ∃ old, ⟨id, old⟩ ∈ left ∧ next.lookup id = none ∧ old.entry = entry

section Absent

variable {next : Rules} {left : List (Σ _ : ℤ, RegisteredRule)} {j : ℤ} {old : RegisteredRule}
  {entry : ℕ} {c : Cron}

theorem absent_cons : Absent next (⟨j, old⟩ :: left) id entry ↔
    (id = j ∧ next.lookup j = none ∧ old.entry = entry) ∨ Absent next left id entry := by
  constructor
  · rintro ⟨r, hmem, hnone, hentry⟩
    rcases List.mem_cons.mp hmem with heq | hmem
    · cases heq
      exact .inl ⟨rfl, hnone, hentry⟩
    · exact .inr ⟨r, hmem, hnone, hentry⟩
  · rintro (⟨rfl, hnone, hentry⟩ | ⟨r, hmem, hnone, hentry⟩)
    · exact ⟨old, List.mem_cons_self, hnone, hentry⟩
    · exact ⟨r, List.mem_cons_of_mem _ hmem, hnone, hentry⟩

theorem mem_remove_absent (htidy : c.Tidy) (hj : next.lookup j = none) (hleft : j ∉ left.keys)
    (hlive : ∀ entry id, (entry, id) ∈ c.entries ↔
      EntryOf next id entry ∨ Absent next (⟨j, old⟩ :: left) id entry) (entry : ℕ) (id : ℤ) :
    (entry, id) ∈ (c.remove old.entry).entries ↔ EntryOf next id entry ∨ Absent next left id entry := by
  have hin : (old.entry, j) ∈ c.entries :=
    (hlive _ _).mpr (.inr ⟨old, List.mem_cons_self, hj, rfl⟩)
  rw [Cron.mem_remove, hlive, absent_cons]
  constructor
  · rintro ⟨hnext | hown | hleft, hne⟩
    · exact .inl hnext
    · exact absurd hown.2.2.symm hne
    · exact .inr hleft
  · intro hmem
    refine ⟨hmem.imp_right .inr, fun heq => ?_⟩
    -- the removed entry belongs to job `j` alone, which is neither in the new map nor left
    have hother : (old.entry, id) ∈ c.entries :=
      heq ▸ (hlive entry id).mpr (hmem.imp_right fun h => absent_cons.mpr (.inr h))
    have hid : id = j := htidy.eq_of_mem hother hin
    subst hid
    rcases hmem with ⟨r, hr, -⟩ | ⟨r, hr, -⟩
    · cases hj.symm.trans hr
    · exact hleft (List.mem_keys_of_mem hr)

theorem removeAbsent_cons : removeAbsent next c (⟨j, old⟩ :: left) =
    removeAbsent next (if (next.lookup j).isNone then c.remove old.entry else c) left := rfl

end Absent

/-- `removeAbsent` leaves the entries of the new rules only. -/
theorem removeAbsent_spec {next : Rules} {c : Cron} {left : List (Σ _ : ℤ, RegisteredRule)}
    (htidy : c.Tidy) (hkeys : left.NodupKeys)
    (hlive : ∀ entry id, (entry, id) ∈ c.entries ↔ EntryOf next id entry ∨ Absent next left id entry) :
    (removeAbsent next c left).Tidy ∧
      (∀ entry id, (entry, id) ∈ (removeAbsent next c left).entries ↔ EntryOf next id entry) ∧
      (∀ entry ∈ c.removed, entry ∈ (removeAbsent next c left).removed) ∧
      ∀ id entry, Absent next left id entry → entry ∈ (removeAbsent next c left).removed := by
  induction left generalizing c with
  | nil =>
    refine ⟨htidy, fun entry id => (hlive entry id).trans (or_iff_left ?_), fun _ hmem => hmem, ?_⟩
    · rintro ⟨old, hmem, -⟩
      cases hmem
    · rintro id entry ⟨old, hmem, -⟩
      cases hmem
  | cons head left ih =>
    obtain ⟨j, old⟩ := head
    obtain ⟨hnotMem, hkeys⟩ := List.nodupKeys_cons.mp hkeys
    rw [removeAbsent_cons]
    cases hj : next.lookup j with
    | none =>
      have hin : (old.entry, j) ∈ c.entries :=
        (hlive _ _).mpr (.inr ⟨old, List.mem_cons_self, hj, rfl⟩)
      obtain ⟨htidy', hlive', hremoved, habsent⟩ :=
        ih (htidy.remove hin) hkeys (mem_remove_absent htidy hj hnotMem hlive)
      refine ⟨htidy', hlive', fun e he => hremoved e (List.mem_append_left _ he), fun id e he => ?_⟩
      rcases absent_cons.mp he with ⟨-, -, rfl⟩ | he
      · exact hremoved _ (List.mem_append_right _ (List.mem_singleton_self _))
      · exact habsent id e he
    | some =>
      have hcons : ∀ id entry, Absent next (⟨j, old⟩ :: left) id entry ↔ Absent next left id entry := by
        intro id entry
        rw [absent_cons, hj]
        simp
      obtain ⟨htidy', hlive', hremoved, habsent⟩ :=
        ih htidy hkeys fun entry id => (hlive entry id).trans (or_congr_right (hcons id entry))
      exact ⟨htidy', hlive', hremoved, fun id e he => habsent id e ((hcons id e).mp he)⟩

end Term.Loop

/-! ## Whole applications -/

namespace Term

open Loop (EntryOf kept fresh timed)

variable {env : Env} {t : Term} {r : Readings} {rules : List Rule}

structure Registered (t : Term) : Prop where
  tidy : t.cron.Tidy
  live : ∀ entry id, (entry, id) ∈ t.cron.entries ↔ EntryOf t.rules id entry

theorem registered_init : Registered init where
  tidy := ⟨.nil, .refl _⟩
  live entry id := by simp [init, EntryOf]

theorem Loop.Live.absent {l : Loop} (h : Loop.Live l) (entry : ℕ) (id : ℤ) :
    (entry, id) ∈ l.cron.entries ↔
      EntryOf l.next id entry ∨ Loop.Absent l.next l.rules.entries id entry := by
  rw [h.live]
  constructor
  · rintro (hnext | ⟨old, hold, hentry⟩)
    · exact .inl hnext
    · cases hnext : l.next.lookup id with
      | none => exact .inr ⟨old, AList.mem_lookup_iff.mp hold, hnext, hentry⟩
      | some r => exact .inl ⟨r, hnext, (congrArg _ (h.agree id r old hnext hold)).trans hentry⟩
  · rintro (hnext | ⟨old, hold, -, hentry⟩)
    · exact .inl hnext
    · exact .inr ⟨old, AList.mem_lookup_iff.mpr hold, hentry⟩

/-- What a completed `apply` leaves behind. -/
theorem completed_spec (h : Registered t) (hids : (rules.map Rule.id).Nodup)
    (hfresh : (t.cron.made ++ (List.range' 0 rules.length).map r.entry).Nodup)
    (hdone : (t.apply env r rules).completed = true) :
    ∃ l, l.Live ∧ Loop.Record env t.rules t.cron.made l (timed r 0 rules) ∧
      t.apply env r rules = {
        term := { cron := removeAbsent l.next l.cron l.rules.entries, rules := l.next, started := true }
        completed := true, changed := l.changed, offered := offerAll r.offers 0 l.changed } := by
  have hlive : Loop.Live { cron := t.cron, rules := t.rules, next := ∅, changed := [] } :=
    ⟨h.tidy, fun entry id => by rw [h.live]; simp [EntryOf], fun id r r' hr => by simp at hr⟩
  have hrecord : Loop.Record env t.rules t.cron.made
      { cron := t.cron, rules := t.rules, next := ∅, changed := [] } [] :=
    ⟨List.Subset.refl _, fun _ _ => rfl, fun _ _ => rfl, by simp, by simp, rfl⟩
  unfold apply at hdone ⊢
  split at hdone
  · cases hdone
  next hstart =>
    rw [if_neg hstart]
    dsimp only at hdone ⊢
    split at hdone
    · cases hdone
    next hran =>
      rw [if_neg hran]
      split at hdone
      · cases hdone
      next hlast =>
        rw [if_neg hlast]
        have hspec := Loop.run_record hlive hrecord (by simpa using hids) hfresh
          (Prod.ext rfl (by simpa using hran))
        exact ⟨_, hspec.1, hspec.2, rfl⟩

theorem offerAll_prefix (offers : ℕ → Bool) (i : ℕ) (ids : List ℤ) : offerAll offers i ids <+: ids := by
  induction ids generalizing i with
  | nil => exact List.nil_prefix
  | cons id ids ih =>
    rw [offerAll]
    split
    · exact List.prefix_cons_inj id |>.mpr (ih (i + 1))
    · exact List.prefix_append [id] ids

theorem mem_removed {l : Loop} (hlive : l.Live)
    (hrecord : Loop.Record env t.rules t.cron.made l (timed r 0 rules)) {id : ℤ} {old : RegisteredRule}
    (hold : t.rules.lookup id = some old)
    (hgone : ∀ rule ∈ rules, rule.id = id → rule.cronExpr ≠ old.expr) :
    old.entry ∈ (removeAbsent l.next l.cron l.rules.entries).removed := by
  obtain ⟨-, -, hremoved, habsent⟩ :=
    Loop.removeAbsent_spec hlive.tidy l.rules.nodupKeys hlive.absent
  by_cases hseen : ∃ p ∈ timed r 0 rules, p.1.id = id
  · obtain ⟨p, hp, rfl⟩ := hseen
    have hkept : kept t.rules p.1 = false := by
      have hne := hgone p.1 (Loop.mem_timed.mpr ⟨p, hp, rfl⟩) rfl
      simpa [kept, hold] using hne.symm
    exact hremoved _ (hrecord.dropped p hp hkept old hold)
  · push Not at hseen
    refine habsent id _ ⟨old, AList.mem_lookup_iff.mp ?_, hrecord.unseen id hseen, rfl⟩
    exact (hrecord.old id hseen).trans hold

namespace Registered

theorem made_of_entryOf (h : Registered t) (id : ℤ) (entry : ℕ) (hentry : EntryOf t.rules id entry) :
    entry ∈ t.cron.made :=
  h.tidy.mem_made ((h.live entry id).mpr hentry)

theorem nodup_jobs (h : Registered t) : (t.cron.entries.map Prod.snd).Nodup := by
  refine h.tidy.nodup.of_map.map_on fun e he e' he' heq => ?_
  obtain ⟨r, hr, hentry⟩ := (h.live e.1 e.2).mp he
  obtain ⟨_, hr', hentry'⟩ := (h.live e'.1 e'.2).mp he'
  rw [heq, hr'] at hr
  cases hr
  exact Prod.ext (hentry.symm.trans hentry') heq

theorem apply (h : Registered t) (hids : (rules.map Rule.id).Nodup)
    (hfresh : (t.cron.made ++ (List.range' 0 rules.length).map r.entry).Nodup)
    (hdone : (t.apply env r rules).completed = true) : Registered (t.apply env r rules).term := by
  obtain ⟨l, hlive, -, happly⟩ := completed_spec h hids hfresh hdone
  obtain ⟨htidy, hentries, -⟩ :=
    Loop.removeAbsent_spec hlive.tidy l.rules.nodupKeys hlive.absent
  rw [happly]
  exact ⟨htidy, hentries⟩

end Registered

end Term

open Term (valid Registered registered_init)
open Term.Loop (kept fresh timed EntryOf)

section Run

variable {env : Env} {t t' : Term} {a : Application}

theorem step_eq (hs : (leaderTerm env).step t a = some t') :
    (a.rules.map Rule.id).Nodup ∧ a.Fresh t.cron.made ∧ (t.apply env a.readings a.rules).completed = true ∧
      (t.apply env a.readings a.rules).term = t' := by
  dsimp only [leaderTerm] at hs
  split at hs
  next hok => exact ⟨hok.1, hok.2.1, hok.2.2, Option.some.inj hs⟩
  next => cases hs

theorem registered (env : Env) : (leaderTerm env).Invariant Registered where
  init := registered_init
  step t a t' h hs := by
    obtain ⟨hids, hfresh, hdone, rfl⟩ := step_eq hs
    exact h.apply hids hfresh hdone

/-- After each snapshot that has been applied to the end: the live entries are those of the
recorded rules, which are those of the snapshot that kept their expression or have a valid one; a
job that kept its expression kept its entry; and the jobs offered are the first of those whose
entry is new. -/
theorem apply_registers {as : List Application} (h : (leaderTerm env).run as = some t)
    (hs : (leaderTerm env).step t a = some t') :
    ((∀ entry id, (entry, id) ∈ t'.cron.entries ↔ ∃ r, t'.rules.lookup id = some r ∧ r.entry = entry) ∧
      (t'.cron.entries.map Prod.fst).Nodup ∧ (t'.cron.entries.map Prod.snd).Nodup) ∧
    (∀ id expr, (∃ entry, t'.rules.lookup id = some ⟨expr, entry⟩) ↔
      ∃ p ∈ timed a.readings 0 a.rules, p.1 = ⟨id, expr⟩ ∧
        (kept t.rules p.1 = true ∨ valid env p.2 expr = true)) ∧
    (∀ rule ∈ a.rules, ∀ r, t.rules.lookup rule.id = some r → r.expr = rule.cronExpr →
      t'.rules.lookup rule.id = some r) ∧
    ((∀ id r, t.rules.lookup id = some r →
        (∀ rule ∈ a.rules, rule.id = id → rule.cronExpr ≠ r.expr) → t'.cron.removed.count r.entry = 1) ∧
      t'.cron.made.Nodup ∧ t'.cron.made.Perm (t'.cron.entries.map Prod.fst ++ t'.cron.removed)) ∧
    (∃ changed, (t.apply env a.readings a.rules).offered <+: changed ∧
      changed = ((timed a.readings 0 a.rules).filter (fresh env t.rules)).map (fun p => p.1.id) ∧
      ∀ id, id ∈ changed ↔ ∃ entry, entry ∉ t.cron.made ∧ (entry, id) ∈ t'.cron.entries) := by
  have hreg : Registered t := (registered env).run h
  have hreg' : Registered t' := (registered env).step hreg hs
  obtain ⟨hids, hfresh, hdone, hterm⟩ := step_eq hs
  obtain ⟨l, hlive, hrecord, happly⟩ := Term.completed_spec hreg hids hfresh hdone
  rw [happly] at hterm
  have hnext : l.next = t'.rules := congrArg Term.rules hterm
  have hcron : Term.removeAbsent l.next l.cron l.rules.entries = t'.cron := congrArg Term.cron hterm
  refine ⟨⟨hreg'.live, hreg'.tidy.nodup, hreg'.nodup_jobs⟩, ?_, ?_,
    ⟨?_, hreg'.tidy.made, hreg'.tidy.perm⟩, ?_⟩
  · rw [← hnext]
    exact hrecord.recorded_iff
  · intro rule hrule r hr hexpr
    obtain ⟨p, hp, rfl⟩ := Term.Loop.mem_timed.mp hrule
    rw [← hnext, hrecord.lookup_of_kept hp (by simp [kept, hr, hexpr]), hr]
  · intro id r hr hgone
    refine List.count_eq_one_of_mem hreg'.tidy.nodup_removed ?_
    rw [← hcron]
    exact Term.mem_removed hlive hrecord hr hgone
  · refine ⟨l.changed, ?_, hrecord.changed, fun id => ?_⟩
    · rw [happly]
      exact Term.offerAll_prefix _ _ _
    · rw [hrecord.mem_changed hreg.made_of_entryOf, hnext]
      simp only [hreg'.live]

end Run

namespace Demo

/-- A library in which every expression is due a second later. -/
def library : Env where
  cron _ := some fun t => t + 1000000000
  splitHostPort _ := none
  parseIP _ := false
  jsonValid _ := false
  jsonbValid _ := false

def readings (entry : ℕ → ℕ) : Readings where
  stopped := false
  canceled _ := false
  now := id
  entry
  offers _ := true

/-- Three jobs, the last one without a valid expression. -/
def first : Application where
  rules := [⟨1, "0 * * * * *"⟩, ⟨2, "0 0 * * * *"⟩, ⟨3, "daily"⟩]
  readings := readings (· + 1)

/-- The second job is changed, the third is gone, and a fourth one is new. -/
def second : Application where
  rules := [⟨4, "0 * * * * *"⟩, ⟨2, "0 30 * * * *"⟩, ⟨1, "0 * * * * *"⟩]
  readings := readings (9 - ·)

end Demo

theorem demo_registers : ∃ t t', (leaderTerm Demo.library).run [Demo.first] = some t ∧
    (leaderTerm Demo.library).step t Demo.second = some t' ∧
    t'.cron.entries = [(1, 1), (9, 4), (8, 2)] ∧ t'.cron.removed = [2] ∧
    ∃ changed, (t.apply Demo.library Demo.second.readings Demo.second.rules).offered <+: changed ∧
      ∀ id, id ∈ changed ↔ ∃ entry, entry ∉ t.cron.made ∧ (entry, id) ∈ t'.cron.entries := by
  obtain ⟨t, ht, t', ht', hentries, hremoved⟩ : ∃ t ∈ (leaderTerm Demo.library).run [Demo.first],
      ∃ t' ∈ (leaderTerm Demo.library).step t Demo.second,
        t'.cron.entries = [(1, 1), (9, 4), (8, 2)] ∧ t'.cron.removed = [2] := by decide +kernel
  obtain ⟨-, -, -, -, changed, hoffered, -, hnew⟩ := apply_registers ht ht'
  exact ⟨t, t', ht, ht', hentries, hremoved, changed, hoffered, hnew⟩

end Dogx.Scheduler
