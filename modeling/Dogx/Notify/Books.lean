import Dogx.Notify.Notifier

/-!
# The books of the notifier

What has to agree between the entries, the lists they are in and the counters, each part over the data
it is about.
-/

namespace Dogx.Notify

open Function (update update_apply update_of_ne update_self)

/-! ## Targets -/

section Counts

variable {capacity targetCount id : ℕ} {flight flight' : List Target} {outstanding : ℕ → ℕ} {t : Target}

structure Counts (capacity targetCount : ℕ) (flight : List Target) (outstanding : ℕ → ℕ) : Prop where
  total : targetCount = flight.length
  room : targetCount ≤ capacity
  own : ∀ id, outstanding id = (flight.map Target.entry).count id

namespace Counts

variable (h : Counts capacity targetCount flight outstanding)
include h

theorem perm (hp : flight'.Perm flight) : Counts capacity targetCount flight' outstanding where
  total := h.total.trans hp.length_eq.symm
  room := h.room
  own id := (h.own id).trans ((hp.map Target.entry).count_eq id).symm

theorem add (hroom : targetCount < capacity) (hp : flight'.Perm (t :: flight)) :
    Counts capacity (targetCount + 1) flight'
      (update outstanding t.entry (outstanding t.entry + 1)) := by
  refine @perm _ _ (t :: flight) _ _ ⟨?_, hroom, fun id => ?_⟩ hp
  · rw [List.length_cons, h.total]
  · rw [List.map_cons, List.count_cons, ← h.own id]
    by_cases hid : id = t.entry
    · simp [hid]
    · simp [hid, Ne.symm hid]

theorem remove (hp : flight.Perm (t :: flight')) :
    Counts capacity (targetCount - 1) flight'
      (update outstanding t.entry (outstanding t.entry - 1)) := by
  have h := h.perm hp.symm
  refine ⟨?_, Nat.le_trans (Nat.sub_le _ _) h.room, fun id => ?_⟩
  · rw [h.total, List.length_cons, Nat.add_sub_cancel]
  · have hown := h.own id
    rw [List.map_cons, List.count_cons] at hown
    rw [update_apply]
    by_cases hid : id = t.entry
    · subst hid
      simp only [beq_self_eq_true, if_true] at hown
      rw [if_pos rfl, hown, Nat.add_sub_cancel]
    · rw [if_neg hid, hown, if_neg (by simpa using Ne.symm hid), Nat.add_zero]

theorem outstanding_pos (ht : t ∈ flight) : 0 < outstanding t.entry := by
  rw [h.own]
  exact List.count_pos_iff.mpr (List.mem_map_of_mem ht)

end Counts

end Counts

/-! ## Retained entries -/

section Kept

variable {entries : List (ℤ × ℕ)} {admitted id : ℕ} {released : List ℕ} {instanceOf : ℕ → ℤ} {k : ℤ}

structure Kept (entries : List (ℤ × ℕ)) (admitted : ℕ) (released : List ℕ) (instanceOf : ℕ → ℤ) :
    Prop where
  keys : (entries.map Prod.fst).Nodup
  key : ∀ p ∈ entries, p.1 = instanceOf p.2
  retained : ∀ id, id ∈ entries.map Prod.snd ↔ id < admitted ∧ id ∉ released
  once : released.Nodup
  lt : ∀ id ∈ released, id < admitted

namespace Kept

variable (h : Kept entries admitted released instanceOf)
include h

theorem enroll (hk : k ∉ entries.map Prod.fst) :
    Kept (entries ++ [(k, admitted)]) (admitted + 1) released (update instanceOf admitted k) where
  keys := by
    rw [List.map_append]
    exact h.keys.append (List.nodup_singleton k) (by simpa using hk)
  key p hp := by
    rcases List.mem_append.mp hp with hp | hp
    · have hlt := ((h.retained p.2).mp (List.mem_map_of_mem hp)).1
      rw [update_of_ne (Nat.ne_of_lt hlt)]
      exact h.key p hp
    · rw [List.mem_singleton.mp hp, update_self]
  retained id := by
    have hnew : admitted ∉ released := fun hmem => Nat.lt_irrefl _ (h.lt _ hmem)
    rw [List.map_append, List.mem_append, h.retained, Nat.lt_succ_iff_lt_or_eq]
    constructor
    · rintro (hid | hid)
      · exact ⟨.inl hid.1, hid.2⟩
      · rw [List.mem_singleton.mp hid]
        exact ⟨.inr rfl, hnew⟩
    · rintro ⟨hid | hid, hrel⟩
      · exact .inl ⟨hid, hrel⟩
      · exact .inr (by simp [hid])
  once := h.once
  lt id hid := Nat.lt_succ_of_lt (h.lt id hid)

theorem eq_of_key {p q : ℤ × ℕ} (hp : p ∈ entries) (hq : q ∈ entries) (heq : p.1 = q.1) : p = q :=
  List.inj_on_of_nodup_map h.keys hp hq heq

theorem mem_filter (hid : id ∈ entries.map Prod.snd) (j : ℕ) :
    j ∈ (entries.filter fun p => p.1 ≠ instanceOf id).map Prod.snd ↔
      j ∈ entries.map Prod.snd ∧ j ≠ id := by
  obtain ⟨p, hp, rfl⟩ := List.mem_map.mp hid
  simp only [List.mem_map, List.mem_filter, decide_eq_true_eq]
  constructor
  · rintro ⟨q, ⟨hq, hne⟩, rfl⟩
    refine ⟨⟨q, hq, rfl⟩, fun heq => hne ?_⟩
    rw [h.key q hq, heq]
  · rintro ⟨⟨q, hq, rfl⟩, hne⟩
    refine ⟨q, ⟨hq, fun heq => hne ?_⟩, rfl⟩
    rw [h.eq_of_key hq hp (heq.trans (h.key p hp).symm)]

theorem release (hid : id ∈ entries.map Prod.snd) :
    Kept (entries.filter fun p => p.1 ≠ instanceOf id) admitted (released ++ [id]) instanceOf where
  keys := h.keys.sublist (List.filter_sublist.map Prod.fst)
  key p hp := h.key p (List.mem_of_mem_filter hp)
  retained j := by
    rw [h.mem_filter hid, h.retained, List.mem_append, List.mem_singleton]
    tauto
  once := h.once.append (List.nodup_singleton id) (by simpa using ((h.retained id).mp hid).2)
  lt j hj := by
    rcases List.mem_append.mp hj with hj | hj
    · exact h.lt j hj
    · rw [List.mem_singleton.mp hj]
      exact ((h.retained id).mp hid).1

end Kept

end Kept

/-! ## Entries to enumerate -/

section Listing

variable {enumerating retained retained' : List ℕ} {reader : Option ℕ}
  {position reading enumerated : ℕ → Bool} {id : ℕ}

structure Listing (enumerating : List ℕ) (reader : Option ℕ) (retained : List ℕ)
    (position reading enumerated : ℕ → Bool) : Prop where
  nodup : enumerating.Nodup
  position : ∀ id, position id = true ↔ id ∈ enumerating
  listed : ∀ id, id ∈ enumerating ↔ id ∈ retained ∧ reading id = false ∧ enumerated id = false
  reading : ∀ id, reading id = true ↔ reader = some id

namespace Listing

theorem take {rest : List ℕ} (h : Listing (id :: rest) none retained position reading enumerated) :
    Listing rest (some id) retained (update position id false)
      (update reading id true) enumerated := by
  obtain ⟨_, hnodup⟩ := List.nodup_cons.mp h.nodup
  refine ⟨hnodup, fun j => ?_, fun j => ?_, fun j => ?_⟩
  · have hposition := h.position j
    grind [update_apply]
  · have hlisted := h.listed j
    grind [update_apply]
  · have hreading := h.reading j
    grind [update_apply]

theorem complete (h : Listing enumerating (some id) retained position reading enumerated) :
    Listing enumerating none retained position (update reading id false)
      (update enumerated id true) := by
  have hread : reading id = true := (h.reading id).mpr rfl
  refine ⟨h.nodup, h.position, fun j => ?_, fun j => ?_⟩
  · have hlisted := h.listed j
    grind [update_apply]
  · have hreading := h.reading j
    grind [update_apply]

theorem putBack (h : Listing enumerating (some id) retained position reading enumerated)
    (hretained : id ∈ retained) (henumerated : enumerated id = false) :
    Listing (enumerating ++ [id]) none retained (update position id true)
      (update reading id false) enumerated := by
  have hread : reading id = true := (h.reading id).mpr rfl
  have hnotMem : id ∉ enumerating := fun hmem => by
    have := ((h.listed id).mp hmem).2.1
    cases hread.symm.trans this
  refine ⟨h.nodup.append (List.nodup_singleton id) (by simpa using hnotMem), fun j => ?_, fun j => ?_,
    fun j => ?_⟩
  · have hposition := h.position j
    grind [update_apply]
  · have hlisted := h.listed j
    grind [update_apply]
  · have hreading := h.reading j
    grind [update_apply]

variable (h : Listing enumerating reader retained position reading enumerated)
include h

theorem expire (id : ℕ) :
    Listing (enumerating.erase id) reader retained (update position id false) reading
      (update enumerated id true) := by
  refine ⟨h.nodup.erase id, fun j => ?_, fun j => ?_, h.reading⟩
  · have hposition := h.position j
    have hmem := h.nodup.mem_erase_iff (a := j) (b := id)
    grind [update_apply]
  · have hlisted := h.listed j
    have hmem := h.nodup.mem_erase_iff (a := j) (b := id)
    grind [update_apply]

theorem enroll (hnew : id ∉ retained) (hreader : reader ≠ some id) :
    Listing (enumerating ++ [id]) reader (retained ++ [id]) (update position id true)
      (update reading id false) (update enumerated id false) := by
  have hnotMem : id ∉ enumerating := fun hmem => hnew ((h.listed id).mp hmem).1
  refine ⟨h.nodup.append (List.nodup_singleton id) (by simpa using hnotMem), fun j => ?_, fun j => ?_,
    fun j => ?_⟩
  · have hposition := h.position j
    grind [update_apply]
  · have hlisted := h.listed j
    grind [update_apply]
  · have hreading := h.reading j
    grind [update_apply]

theorem release (henumerated : enumerated id = true)
    (hretained : ∀ j, j ∈ retained' ↔ j ∈ retained ∧ j ≠ id) :
    Listing enumerating reader retained' position reading enumerated := by
  refine ⟨h.nodup, h.position, fun j => ?_, h.reading⟩
  have hlisted := h.listed j
  grind

end Listing

end Listing

/-! ## Addresses -/

section Ordered

variable {cfg : Config} {queued : ℕ → List String} {cursor : ℕ → String} {page : List String}
  {id : ℕ} {address : String}

structure Ordered (cfg : Config) (queued : ℕ → List String) (cursor : ℕ → String) : Prop where
  increasing : ∀ id, (queued id).Pairwise fun a b => cfg.collation.lt a b = true
  below : ∀ id, ∀ a ∈ queued id, a = cursor id ∨ cfg.collation.lt a (cursor id) = true

theorem Ordered.queue (h : Ordered cfg queued cursor)
    (hafter : cfg.collation.lt (cursor id) address = true) :
    Ordered cfg (update queued id (queued id ++ [address]))
      (update cursor id address) := by
  have hlt : ∀ a ∈ queued id, cfg.collation.lt a address = true := by
    intro a ha
    rcases h.below id a ha with rfl | hlt
    · exact hafter
    · exact cfg.collation.trans hlt hafter
  refine ⟨fun j => ?_, fun j a ha => ?_⟩
  · by_cases hj : j = id
    · subst hj
      rw [update_self, List.pairwise_append]
      exact ⟨h.increasing j, List.pairwise_singleton _ _, by simpa using hlt⟩
    · rw [update_of_ne hj]
      exact h.increasing j
  · by_cases hj : j = id
    · subst hj
      rw [update_self] at ha ⊢
      rcases List.mem_append.mp ha with ha | ha
      · exact .inr (hlt a ha)
      · exact .inl (List.mem_singleton.mp ha)
    · rw [update_of_ne hj] at ha ⊢
      exact h.below j a ha

end Ordered

end Dogx.Notify
