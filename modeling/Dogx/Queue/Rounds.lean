import Mathlib

/-!
# Serving groups in rounds

Items wait in groups, each under its key. A round goes through the keys in a fixed order and takes
up to `share` items from the front of every group; rounds follow each other until nothing is left.
-/

namespace Queue

variable {κ α : Type*} [DecidableEq κ] {share fuel : ℕ} {order : List κ} {g : κ → List α} {k q : κ}
  {turns a c m : List (κ × List α)} {b l : List α}

/-! ## Rounds -/

def round (share : ℕ) : List κ → (κ → List α) → List (κ × List α) × (κ → List α)
  | [], g => ([], g)
  | k :: ks, g =>
    let rest := round share ks (Function.update g k ((g k).drop share))
    ((k, (g k).take share) :: rest.1, rest.2)

def rounds (share : ℕ) (order : List κ) : ℕ → (κ → List α) → List (κ × List α)
  | 0, _ => []
  | fuel + 1, g =>
    let turn := round share order g
    if order.any fun k => decide (share < (g k).length) then
      turn.1 ++ rounds share order fuel turn.2
    else turn.1

def served (k : κ) (turns : List (κ × List α)) : List α :=
  turns.flatMap fun t => if t.1 = k then t.2 else []

@[simp] theorem served_cons (t : κ × List α) (turns : List (κ × List α)) :
    served k (t :: turns) = (if t.1 = k then t.2 else []) ++ served k turns := rfl

@[simp] theorem served_append (a b : List (κ × List α)) :
    served k (a ++ b) = served k a ++ served k b := List.flatMap_append

theorem served_eq_nil (h : k ∉ turns.map Prod.fst) : served k turns = [] := by
  refine List.flatMap_eq_nil_iff.mpr fun t ht => if_neg ?_
  rintro rfl
  exact h (List.mem_map_of_mem ht)

theorem mem_served {a : α} (hb : (k, b) ∈ turns) (ha : a ∈ b) : a ∈ served k turns :=
  List.mem_flatMap.mpr ⟨(k, b), hb, by simpa using ha⟩

section

variable (hnd : order.Nodup)
include hnd

theorem round_fst : (round share order g).1 = order.map fun k => (k, (g k).take share) := by
  induction order generalizing g with
  | nil => rfl
  | cons k _ ih =>
    obtain ⟨hk, hks⟩ := List.nodup_cons.mp hnd
    simp only [round, ih hks, List.map_cons, List.cons.injEq, true_and]
    refine List.map_congr_left fun q hq => ?_
    rw [Function.update_of_ne]
    rintro rfl
    exact hk hq

theorem round_snd : (round share order g).2 k = if k ∈ order then (g k).drop share else g k := by
  induction order generalizing g with
  | nil => simp [round]
  | cons q _ ih =>
    obtain ⟨hq, hks⟩ := List.nodup_cons.mp hnd
    simp only [round, ih hks]
    by_cases hk : k = q
    · subst hk
      simp [hq]
    · simp [hk]

theorem served_round :
    served k (order.map fun k => (k, (g k).take share)) =
      if k ∈ order then (g k).take share else [] := by
  induction order with
  | nil => rfl
  | cons q _ ih =>
    obtain ⟨hq, hks⟩ := List.nodup_cons.mp hnd
    simp only [List.map_cons, served_cons, ih hks]
    by_cases hk : q = k
    · subst hk
      simp [hq]
    · simp [hk, Ne.symm hk]

/-- With a round for every share of the longest group, every group is served in its order. -/
theorem rounds_served (hfuel : ∀ k ∈ order, (g k).length ≤ fuel * share) (hk : k ∈ order) :
    served k (rounds share order fuel g) = g k := by
  induction fuel generalizing g with
  | zero =>
    have hlen := hfuel k hk
    simp only [Nat.zero_mul, Nat.le_zero, List.length_eq_zero_iff] at hlen
    rw [hlen]
    rfl
  | succ fuel ih =>
    simp only [rounds, round_fst hnd]
    split
    · have hleft : ∀ q ∈ order, ((round share order g).2 q).length ≤ fuel * share := by
        intro q hq
        have hlen := hfuel q hq
        rw [Nat.succ_mul] at hlen
        rw [round_snd hnd, if_pos hq, List.length_drop]
        omega
      rw [served_append, served_round hnd, ih hleft, round_snd hnd, if_pos hk, if_pos hk,
        List.take_append_drop]
    · next hall =>
      rw [served_round hnd, if_pos hk]
      simp only [List.any_eq_true, decide_eq_true_eq, not_exists, not_and, Nat.not_lt] at hall
      exact List.take_of_length_le (hall k hk)

theorem rounds_keys :
    ∃ n, (rounds share order fuel g).map Prod.fst = (List.replicate n order).flatten := by
  induction fuel generalizing g with
  | zero => exact ⟨0, rfl⟩
  | succ _ ih =>
    have hkeys : (order.map fun k => (k, (g k).take share)).map Prod.fst = order := by
      simp [Function.comp_def]
    simp only [rounds, round_fst hnd]
    split
    · obtain ⟨n, hn⟩ := ih
      exact ⟨n + 1, by rw [List.map_append, hkeys, hn, List.replicate_succ, List.flatten_cons]⟩
    · exact ⟨1, by rw [hkeys]; simp⟩

theorem mem_order_of_turn {t : κ × List α} (ht : t ∈ rounds share order fuel g) : t.1 ∈ order := by
  have hkey : t.1 ∈ (rounds share order fuel g).map Prod.fst := List.mem_map_of_mem ht
  obtain ⟨n, hn⟩ := rounds_keys hnd
  rw [hn] at hkey
  obtain ⟨l, hl, ht⟩ := List.mem_flatten.mp hkey
  exact List.eq_of_mem_replicate hl ▸ ht

theorem turn_of_round (h : (order.map fun k => (k, (g k).take share)) = a ++ (k, b) :: c) :
    k ∈ order ∧ b = (g k).take share ∧ served k a = [] := by
  obtain ⟨_, _, rfl, rfl, h2⟩ := List.map_eq_append_iff.mp h
  obtain ⟨_, _, rfl, hk, -⟩ := List.map_eq_cons_iff.mp h2
  obtain ⟨rfl, rfl⟩ := Prod.mk.inj hk
  refine ⟨List.mem_append_right _ List.mem_cons_self, rfl, served_eq_nil ?_⟩
  rw [List.map_map]
  intro hmem
  obtain ⟨q, hq, rfl⟩ := List.mem_map.mp hmem
  exact (List.nodup_append.mp hnd).2.2 q hq q List.mem_cons_self rfl

/-- A turn takes the front of what is left for its key. -/
theorem rounds_share (hfuel : ∀ k ∈ order, (g k).length ≤ fuel * share)
    (h : rounds share order fuel g = a ++ (k, b) :: c) :
    b = (served k ((k, b) :: c)).take share := by
  induction fuel generalizing g a with
  | zero => simp [rounds] at h
  | succ fuel ih =>
    -- the turn is one of the first round
    have first : ∀ x, (order.map fun k => (k, (g k).take share)) = a ++ (k, b) :: x →
        b = (served k ((k, b) :: c)).take share := by
      intro x hx
      obtain ⟨hk, hb, ha⟩ := turn_of_round hnd hx
      have hall := rounds_served hnd hfuel hk
      rw [h, served_append, ha, List.nil_append] at hall
      rw [hall]
      exact hb
    simp only [rounds, round_fst hnd] at h
    split at h
    · have hleft : ∀ q ∈ order, ((round share order g).2 q).length ≤ fuel * share := by
        intro q hq
        have hlen := hfuel q hq
        rw [Nat.succ_mul] at hlen
        rw [round_snd hnd, if_pos hq, List.length_drop]
        omega
      rcases List.append_eq_append_iff.mp h with ⟨a', rfl, hlater⟩ | ⟨x, hx, hlater⟩
      · exact ih hleft hlater
      · cases x with
        | nil => exact ih hleft (a := []) hlater.symm
        | cons y x =>
          obtain ⟨rfl, -⟩ := List.cons.inj hlater
          exact first x hx
    · exact first c h

end

theorem rounds_exhausted (hshare : 0 < share) (hnd : order.Nodup)
    (hfuel : ∀ k ∈ order, (g k).length ≤ fuel * share)
    (h : rounds share order fuel g = a ++ (k, []) :: c) : served k c = [] := by
  have hb := rounds_share hnd hfuel h
  simp only [served_cons] at hb
  rcases List.take_eq_nil_iff.mp hb.symm with h0 | hnil
  · omega
  · exact hnil

/-! ## Turns in between -/

omit [DecidableEq κ] in
theorem eq_of_append_cons {a b x y : List κ} (ha : k ∉ a) (hb : k ∉ b)
    (h : a ++ k :: x = b ++ k :: y) : a = b := by
  rcases List.append_eq_append_iff.mp h with ⟨d, rfl, hd⟩ | ⟨d, rfl, hd⟩ <;> cases d with
  | nil => simp
  | cons =>
    obtain ⟨rfl, -⟩ := List.cons.inj hd
    simp at ha hb

omit [DecidableEq κ] in
/-- Two turns of one key are a round apart. -/
theorem mem_between (hnd : order.Nodup) {n : ℕ} {a m c : List κ}
    (h : (List.replicate n order).flatten = a ++ k :: (m ++ k :: c)) (hm : k ∉ m) (hq : q ∈ order)
    (hne : q ≠ k) : q ∈ m := by
  induction n generalizing a with
  | zero => simp at h
  | succ n ih =>
    rw [List.replicate_succ, List.flatten_cons] at h
    rcases List.append_eq_append_iff.mp h with ⟨a', -, hlater⟩ | ⟨x, hx, hlater⟩
    · exact ih hlater
    · cases x with
      | nil => exact ih (a := []) hlater.symm
      | cons y x =>
        rw [List.cons_append] at hlater
        obtain ⟨rfl, htail⟩ := List.cons.inj hlater
        subst hx
        obtain ⟨-, hkx, hdisj⟩ := List.nodup_append.mp hnd
        have hka : k ∉ a := fun hmem => hdisj k hmem k List.mem_cons_self rfl
        -- the next turn of `k` is in the next round, where it is again after `a`
        have hmid : m = x ++ a := by
          cases n with
          | zero =>
            rw [List.replicate_zero, List.flatten_nil, List.append_nil] at htail
            rw [← htail] at hkx
            simp at hkx
          | succ =>
            rw [List.replicate_succ, List.flatten_cons, List.append_assoc, List.cons_append,
              ← List.append_assoc] at htail
            refine eq_of_append_cons hm ?_ htail
            simpa [hka] using (List.nodup_cons.mp hkx).1
        rw [hmid]
        rcases List.mem_append.mp hq with hq | hq
        · exact List.mem_append_right _ hq
        · exact List.mem_append_left _ ((List.mem_cons.mp hq).resolve_left hne)

def blocks (turns : List (κ × List α)) : List (κ × List α) := turns.filter fun t => !t.2.isEmpty

omit [DecidableEq κ] in
theorem blocks_flatMap (turns : List (κ × List α)) :
    (blocks turns).flatMap Prod.snd = turns.flatMap Prod.snd := by
  induction turns with
  | nil => rfl
  | cons t _ ih =>
    unfold blocks at ih ⊢
    cases ht : t.2 with
    | nil | cons => simp [ht, ih]

theorem served_blocks (turns : List (κ × List α)) : served k (blocks turns) = served k turns := by
  induction turns with
  | nil => rfl
  | cons t _ ih =>
    unfold blocks at ih ⊢
    cases ht : t.2 with
    | nil | cons => simp [ht, ih]

/-- Between two blocks of one key every other key that has something left gets a block. -/
theorem rounds_spaced (hshare : 0 < share) (hnd : order.Nodup)
    (hfuel : ∀ k ∈ order, (g k).length ≤ fuel * share) {b' : List α}
    (h : blocks (rounds share order fuel g) = a ++ (k, b) :: (m ++ (k, b') :: c))
    (hm : ∀ b, (k, b) ∉ m) (hq : q ∈ order) (hne : q ≠ k)
    (hleft : served q (m ++ (k, b') :: c) ≠ []) : ∃ b, (q, b) ∈ m := by
  -- the same turns among all turns
  obtain ⟨a0, _, hall, -, hr⟩ := List.filter_eq_append_iff.mp h
  obtain ⟨e1, _, rfl, _, -, hr1⟩ := List.filter_eq_cons_iff.mp hr
  obtain ⟨m0, _, rfl, hm0, hr2⟩ := List.filter_eq_append_iff.mp hr1
  obtain ⟨e2, c0, rfl, he2, hb', _⟩ := List.filter_eq_cons_iff.mp hr2
  have hall' : rounds share order fuel g =
      (a0 ++ e1) ++ (k, b) :: ((m0 ++ e2) ++ (k, b') :: c0) := by
    rw [hall]
    simp
  -- no turn of `k` between the two, since it would have found nothing
  have hmid : k ∉ (m0 ++ e2).map Prod.fst := by
    intro hmem
    obtain ⟨⟨k', b1⟩, ht, rfl⟩ := List.mem_map.mp hmem
    have hempty : b1 = [] := by
      by_contra hb1
      rcases List.mem_append.mp ht with ht | ht
      · refine hm b1 ?_
        rw [← hm0]
        exact List.mem_filter.mpr ⟨ht, by simpa using hb1⟩
      · exact he2 _ ht (by simpa using hb1)
    subst hempty
    obtain ⟨u, v, huv⟩ := List.append_of_mem ht
    have hsplit : rounds share order fuel g =
        ((a0 ++ e1) ++ (k', b) :: u) ++ (k', []) :: (v ++ (k', b') :: c0) := by
      rw [hall', huv]
      simp
    have hnone := rounds_exhausted hshare hnd hfuel hsplit
    have hb'nil : b' = [] := by
      rw [served_append, served_cons] at hnone
      simp only [List.append_eq_nil_iff] at hnone
      exact hnone.2.1
    rw [hb'nil] at hb'
    simp at hb'
  -- the first turn of `q` between the two
  obtain ⟨n, hkeys⟩ : ∃ n, (rounds share order fuel g).map Prod.fst =
    (List.replicate n order).flatten := rounds_keys hnd
  have hturns : (List.replicate n order).flatten =
      (a0 ++ e1).map Prod.fst ++ k :: ((m0 ++ e2).map Prod.fst ++ k :: c0.map Prod.fst) := by
    rw [← hkeys, hall']
    simp
  have hqmid := mem_between hnd hturns hmid hq hne
  obtain ⟨_, _, huv', hqu⟩ := List.eq_append_cons_of_mem hqmid
  obtain ⟨u, r, huv, rfl, hr⟩ := List.map_eq_append_iff.mp huv'
  obtain ⟨⟨q', b1⟩, v, rfl, rfl, -⟩ := List.map_eq_cons_iff.mp hr
  have hsplit : rounds share order fuel g =
      ((a0 ++ e1) ++ (k, b) :: u) ++ (q', b1) :: (v ++ (k, b') :: c0) := by
    rw [hall', huv]
    simp
  have hb1 := rounds_share hnd hfuel hsplit
  have hserved : served q' (m ++ (k, b') :: c) = served q' ((q', b1) :: (v ++ (k, b') :: c0)) := by
    calc served q' (m ++ (k, b') :: c)
        = served q' (blocks (m0 ++ (e2 ++ (k, b') :: c0))) := by rw [← hr1]; rfl
      _ = served q' ((m0 ++ e2) ++ (k, b') :: c0) := by rw [served_blocks, List.append_assoc]
      _ = served q' ((q', b1) :: (v ++ (k, b') :: c0)) := by
        rw [huv, List.append_assoc, served_append, served_eq_nil hqu]
        rfl
  have hne1 : b1 ≠ [] := by
    rintro rfl
    rw [← hserved] at hb1
    rcases List.take_eq_nil_iff.mp hb1.symm with h0 | hnil
    · omega
    · exact hleft hnil
  refine ⟨b1, ?_⟩
  have hmem : (q', b1) ∈ m0 ++ e2 := by
    rw [huv]
    exact List.mem_append_right _ List.mem_cons_self
  rcases List.mem_append.mp hmem with hmem | hmem
  · rw [← hm0]
    exact List.mem_filter.mpr ⟨hmem, by simpa using hne1⟩
  · exact absurd (by simpa using hne1) (he2 _ hmem)

/-! ## Lists by groups -/

/-- Lists that agree on every group are the same up to the order of the groups. -/
theorem perm_of_filter_eq [DecidableEq α] {key : α → κ} {l' : List α}
    (h : ∀ k, l.filter (key · = k) = l'.filter (key · = k)) : l.Perm l' := by
  refine List.perm_iff_count.mpr fun a => ?_
  have hcount : ∀ l : List α, l.count a = (l.filter (key · = key a)).count a := by
    intro l
    rw [List.count_filter (by simp)]
  rw [hcount l, hcount l', h]

def firstsBy (key : α → κ) : List α → List α
  | [] => []
  | a :: l => a :: (firstsBy key l).filter fun b => !decide (key b = key a)

variable (key : α → κ)

theorem firstsBy_filter_ne (k : κ) (l : List α) :
    firstsBy key (l.filter fun b => !decide (key b = k)) =
      (firstsBy key l).filter fun b => !decide (key b = k) := by
  induction l with
  | nil => rfl
  | cons a l ih =>
    by_cases ha : key a = k
    · subst ha
      simp [firstsBy, ih]
    · simp [firstsBy, ih, ha, Bool.and_comm]

theorem mem_map_firstsBy : k ∈ (firstsBy key l).map key ↔ k ∈ l.map key := by
  induction l with
  | nil => rfl
  | cons a l ih =>
    simp only [firstsBy, List.map_cons, List.mem_cons, ← ih]
    by_cases ha : k = key a
    · simp [ha]
    · simp only [ha, false_or, List.mem_map, List.mem_filter]
      constructor
      · rintro ⟨b, ⟨hb, -⟩, rfl⟩
        exact ⟨b, hb, rfl⟩
      · rintro ⟨b, hb, rfl⟩
        exact ⟨b, ⟨hb, by simpa using ha⟩, rfl⟩

theorem nodup_map_firstsBy (l : List α) : ((firstsBy key l).map key).Nodup := by
  induction l with
  | nil => exact .nil
  | cons a l ih =>
    simp only [firstsBy, List.map_cons, List.nodup_cons, List.mem_map, List.mem_filter]
    refine ⟨?_, ih.sublist (List.filter_sublist.map key)⟩
    rintro ⟨b, ⟨-, hb⟩, heq⟩
    simp [heq] at hb

theorem firstsBy_sublist (l : List α) : (firstsBy key l).Sublist l := by
  induction l with
  | nil => exact .slnil
  | cons a l ih => exact (List.filter_sublist.trans ih).cons_cons a

theorem filter_flatMap (h : ∀ t ∈ turns, ∀ a ∈ t.2, key a = t.1) :
    (turns.flatMap Prod.snd).filter (key · = k) = served k turns := by
  induction turns with
  | nil => rfl
  | cons t _ ih =>
    obtain ⟨ht, hts⟩ := List.forall_mem_cons.mp h
    rw [List.flatMap_cons, List.filter_append, ih hts, served_cons]
    congr 1
    split
    · next heq =>
      subst heq
      exact List.filter_eq_self.mpr fun a ha => by simpa using ht a ha
    · next hne =>
      refine List.filter_eq_nil_iff.mpr fun a ha => ?_
      rw [ht a ha]
      simpa using hne

end Queue
