import Dogx.Dispatch.Supply

/-!
# Admitting a page

What `admitPage` puts into `pending`, and in which order.

* `accept_rows` — it keeps the first candidate of every free key whose parent is not conflicted
-/

namespace Dogx.Dispatch

variable {s : Supply} {kind : ScanKind} {generation : ℕ} {page cs : List Candidate} {c : Candidate}

def Candidate.row (c : Candidate) : Candidate := .new c.instanceId c.retry

@[simp] theorem Candidate.row_instanceId (c : Candidate) : c.row.instanceId = c.instanceId := rfl

@[simp] theorem Candidate.row_key (c : Candidate) : c.row.key = c.key := rfl

namespace Supply

@[simp] theorem stamp_row : (s.stamp kind generation c).row = c.row := rfl
@[simp] theorem stamp_key : (s.stamp kind generation c).key = c.key := rfl
@[simp] theorem stamp_sequence : (s.stamp kind generation c).sequence = s.sequence + 1 := rfl

/-! ## The candidates that are kept -/

def free (s : Supply) (c : Candidate) : Bool := (s.owned c.key).isNone && !s.blocked c.instanceId

def admissible (s : Supply) (page : List Candidate) : List Candidate :=
  Queue.firstsBy Candidate.key (page.filter s.free)

def enroll (s : Supply) (c : Candidate) : Supply :=
  { s with
    sequence := s.sequence + 1
    owned := Function.update s.owned c.key (some (s.sequence + 1))
    waiting := s.waiting + 1 }

theorem accept_cons : accept kind generation (c :: page) s =
    if s.free c then
      let rest := accept kind generation page (s.enroll c)
      (rest.1, s.stamp kind generation c :: rest.2)
    else accept kind generation page s := by
  unfold free
  cases ho : s.owned c.key <;> cases hb : s.blocked c.instanceId <;> simp [accept, ho, hb, enroll]

theorem admit_free {c' : Candidate} :
    (s.enroll c).free c' = (s.free c' && !decide (c'.key = c.key)) := by
  by_cases hkey : c'.key = c.key
  · simp [free, enroll, hkey]
  · simp [free, enroll, hkey, blocked, conflict]

/-- `accept` takes the admissible rows of the page. -/
theorem accept_rows : (accept kind generation page s).2.map Candidate.row =
    (s.admissible page).map Candidate.row := by
  induction page generalizing s with
  | nil => rfl
  | cons c page ih =>
    rw [accept_cons]
    split
    · next hfree =>
      have hrest : (s.enroll c).admissible page =
          (Queue.firstsBy Candidate.key (page.filter s.free)).filter
            fun b => !decide (b.key = c.key) := by
        rw [← Queue.firstsBy_filter_ne, List.filter_filter]
        unfold admissible
        congr 2
        funext c'
        rw [admit_free, Bool.and_comm]
      simp only [List.map_cons, ih, hrest]
      simp [admissible, hfree, Queue.firstsBy]
    · next hfree =>
      rw [ih]
      simp [admissible, hfree]

/-- The loop of `accept` in closed form. -/
theorem accept_eq : (accept kind generation page s).1 =
    { s with
      sequence := s.sequence + (accept kind generation page s).2.length
      owned := Queue.own Candidate.key Candidate.sequence s.owned (accept kind generation page s).2
      waiting := s.waiting + (accept kind generation page s).2.length } := by
  induction page generalizing s with
  | nil => simp [accept, Queue.own]
  | cons c _ ih =>
    rw [accept_cons]
    split
    · simp only
      rw [ih]
      simp only [enroll, List.length_cons]
      congr 1
      · push_cast
        omega
      · omega
    · exact ih

theorem accept_map_key : (accept kind generation page s).2.map Candidate.key =
    (s.admissible page).map Candidate.key := by
  have h := congrArg (List.map Candidate.key) (@accept_rows s kind generation page)
  simpa [Function.comp_def] using h

theorem accept_nodup : ((accept kind generation page s).2.map Candidate.key).Nodup := by
  rw [accept_map_key]
  exact Queue.nodup_map_firstsBy ..

theorem owned_of_accept (hc : c ∈ (accept kind generation page s).2) : s.owned c.key = none := by
  have hkey : c.key ∈ (s.admissible page).map Candidate.key :=
    accept_map_key ▸ List.mem_map_of_mem hc
  obtain ⟨_, hc', heq⟩ := List.mem_map.mp ((Queue.mem_map_firstsBy _).mp hkey)
  have hfree := (List.mem_filter.mp hc').2
  rw [free, Bool.and_eq_true, Option.isNone_iff_eq_none] at hfree
  exact heq ▸ hfree.1

/-! ## The order in which they are appended -/

variable {random : ℕ}

def rotation (random : ℕ) (cs : List Candidate) : List Int :=
  (parents cs).rotate (random % (parents cs).length)

theorem rotation_nodup : (rotation random cs).Nodup := by
  have h := Queue.nodup_map_firstsBy id (cs.map (·.instanceId))
  rw [List.map_id] at h
  exact List.nodup_rotate.mpr h

theorem mem_rotation {parent : Int} :
    parent ∈ rotation random cs ↔ ∃ c ∈ cs, c.instanceId = parent := by
  have h := Queue.mem_map_firstsBy (k := parent) id (l := cs.map (·.instanceId))
  rw [List.map_id, List.map_id] at h
  rw [rotation, List.mem_rotate, parents, h, List.mem_map]

theorem shares_fuel (id : Int) :
    (cs.filter (·.instanceId = id)).length ≤ cs.length * dispatchParentShare := by
  have h := List.length_filter_le (fun c : Candidate => decide (c.instanceId = id)) cs
  unfold dispatchParentShare
  omega

theorem served_shares (id : Int) :
    Queue.served id (shares random cs) = cs.filter (·.instanceId = id) := by
  by_cases hid : id ∈ rotation random cs
  · exact Queue.rounds_served rotation_nodup (fun id _ => shares_fuel id) hid
  · rw [List.filter_eq_nil_iff.mpr, Queue.served_eq_nil]
    · intro hmem
      obtain ⟨t, ht, rfl⟩ := List.mem_map.mp hmem
      exact hid (Queue.mem_order_of_turn rotation_nodup ht)
    · intro c hc heq
      exact hid (mem_rotation.mpr ⟨c, hc, of_decide_eq_true heq⟩)

theorem shares_parent {t : Int × List Candidate} (ht : t ∈ shares random cs) (hc : c ∈ t.2) :
    c.instanceId = t.1 := by
  have h := Queue.mem_served ht hc
  rw [served_shares] at h
  exact of_decide_eq_true (List.mem_filter.mp h).2

theorem shares_filter (id : Int) : ((shares random cs).flatMap Prod.snd).filter (·.instanceId = id) =
    cs.filter (·.instanceId = id) := by
  rw [Queue.filter_flatMap _ fun t ht c hc => shares_parent ht hc, served_shares]

theorem shares_perm : ((shares random cs).flatMap Prod.snd).Perm cs :=
  Queue.perm_of_filter_eq shares_filter

/-! ## Blocks -/

/-- The candidates stand in blocks, each of one parent, and the parents take turns. -/
structure Rotation (added : List Candidate) (blocks : List (Int × List Candidate)) : Prop where
  flatMap : blocks.flatMap Prod.snd = added
  parent : ∀ b ∈ blocks, ∀ c ∈ b.2, c.instanceId = b.1
  nonempty : ∀ b ∈ blocks, b.2 ≠ []
  share : ∀ b ∈ blocks, b.2.length ≤ dispatchParentShare
  /-- Between two successive blocks of a parent, every other parent with candidates that are still
  to be appended after the first of them has a block. -/
  turns : ∀ before id cs between cs' rest,
    blocks = before ++ (id, cs) :: (between ++ (id, cs') :: rest) → (∀ b ∈ between, b.1 ≠ id) →
    ∀ c ∈ (between ++ (id, cs') :: rest).flatMap Prod.snd, c.instanceId ≠ id →
      ∃ b ∈ between, b.1 = c.instanceId

/-- The shares of the parents form a rotation. -/
theorem shares_rotation :
    Rotation ((shares random cs).flatMap Prod.snd) (Queue.blocks (shares random cs)) where
  flatMap := Queue.blocks_flatMap _
  parent := fun _ hb _ hc => shares_parent (List.mem_filter.mp hb).1 hc
  nonempty := fun b hb => by simpa using (List.mem_filter.mp hb).2
  share := by
    intro b hb
    obtain ⟨before, rest, hsplit⟩ := List.append_of_mem (List.mem_filter.mp hb).1
    have h := Queue.rounds_share rotation_nodup (fun id _ => shares_fuel id) hsplit
    rw [h]
    exact List.length_take_le ..
  turns := by
    intro before id cs1 between cs2 rest hblocks hbetween c hc hne
    obtain ⟨⟨parent, cs3⟩, hb, hcb⟩ := List.mem_flatMap.mp hc
    have hblock : (parent, cs3) ∈ Queue.blocks (shares random cs) := by
      rw [hblocks]
      exact List.mem_append_right _ (List.mem_cons_of_mem _ hb)
    have hshare := (List.mem_filter.mp hblock).1
    have hparent : c.instanceId = parent := shares_parent hshare hcb
    subst hparent
    obtain ⟨b, hb⟩ := Queue.rounds_spaced (by decide) rotation_nodup (fun id _ => shares_fuel id)
      hblocks (fun b hb => hbetween _ hb rfl) (Queue.mem_order_of_turn rotation_nodup hshare) hne
      (List.ne_nil_of_mem (Queue.mem_served hb hcb))
    exact ⟨_, hb, rfl⟩

variable {cfg : RuntimeConfig} {now : ℕ}

@[simp] theorem expireConflicts_pending : (s.expireConflicts cfg now).pending = s.pending := by
  unfold expireConflicts
  split <;> rfl

@[simp] theorem expireConflicts_owned : (s.expireConflicts cfg now).owned = s.owned := by
  unfold expireConflicts
  split <;> rfl

def unreserve (s : Supply) : Supply := { s with waiting := s.waiting - s.reserved, reserved := 0 }

theorem admitPage_of_stopping (h : s.stopping = true) :
    s.admitPage cfg now random kind generation page = (false, s.unreserve.notify) :=
  if_pos h

/-- `admitPage` in closed form, before `Stop`. -/
theorem admitPage_eq (h : s.stopping = false) :
    s.admitPage cfg now random kind generation page =
      let s1 := s.unreserve.expireConflicts cfg now
      let cs := (s1.accept kind generation page).2
      (true,
        { s1 with
          sequence := s1.sequence + cs.length
          owned := Queue.own Candidate.key Candidate.sequence s.owned cs
          waiting := s1.waiting + cs.length
          pending := s.pending ++ (shares random cs).flatMap Prod.snd }.notify) := by
  have hs : s.unreserve.stopping ≠ true := by simp [unreserve, h]
  refine (if_neg hs).trans ?_
  rw [accept_eq, expireConflicts_pending, expireConflicts_owned]
  rfl

/-- What a page adds to `pending`. After `Stop` that is nothing. -/
def admitted (cfg : RuntimeConfig) (now : ℕ) (page : List Candidate) (s : Supply) : List Candidate :=
  if s.stopping then [] else (s.expireConflicts cfg now).admissible page

theorem unreserve_admissible : (s.unreserve.expireConflicts cfg now).admissible page =
    (s.expireConflicts cfg now).admissible page := by
  have hfree : (s.unreserve.expireConflicts cfg now).free = (s.expireConflicts cfg now).free := by
    unfold expireConflicts unreserve
    split <;> rfl
  rw [admissible, admissible, hfree]

/-- The candidates of a page that nobody owns and whose parents are not conflicted are appended,
in the order of the page for every parent, and the parents take turns. -/
theorem admitPage_rotation (s : Supply) (cfg : RuntimeConfig) (now random : ℕ) (kind : ScanKind)
    (generation : ℕ) (page : List Candidate) : ∃ added blocks,
    (s.admitPage cfg now random kind generation page).2.pending = s.pending ++ added ∧
    (added.map Candidate.row).Perm ((s.admitted cfg now page).map Candidate.row) ∧
    (added.map Candidate.key).Nodup ∧
    (∀ parent, (added.filter (·.instanceId = parent)).map Candidate.row =
      ((s.admitted cfg now page).filter (·.instanceId = parent)).map Candidate.row) ∧
    Rotation added blocks := by
  cases hstop : s.stopping with
  | true =>
    refine ⟨[], [], ?_, ?_, .nil, ?_, ?_⟩
    · rw [admitPage_of_stopping hstop, List.append_nil]
      rfl
    · simp [admitted, hstop]
    · simp [admitted, hstop]
    · constructor <;> simp
  | false =>
    have hrows : ((s.unreserve.expireConflicts cfg now).accept kind generation page).2.map
        Candidate.row = (s.admitted cfg now page).map Candidate.row := by
      rw [accept_rows, unreserve_admissible, admitted, hstop]
      rfl
    rw [admitPage_eq hstop]
    refine ⟨_, _, rfl, ?_, ?_, ?_, shares_rotation⟩
    · rw [← hrows]
      exact shares_perm.map _
    · exact (shares_perm.map _).nodup_iff.mpr accept_nodup
    · intro parent
      have hfilter : ∀ l : List Candidate, (l.filter (·.instanceId = parent)).map Candidate.row =
          (l.map Candidate.row).filter (·.instanceId = parent) := by
        intro l
        rw [List.filter_map]
        rfl
      rw [shares_filter, hfilter, hfilter, hrows]

end Supply

end Dogx.Dispatch
