import Dogx.Txn.Logic

/-!
# The locking discipline is kept

`Loc.WF` holds of a transaction that has just begun, every statement keeps it, and so does every
commit: of the transaction itself, and of any other one whose locks are disjoint from its own.
-/

namespace Txn

open Store (apply_eq_some set_eq_some)

variable {S : Sig} {l l' : Loc S} {t : S.Table} {id : Nat} {v v' : S.Row t}

namespace Loc.WF

theorem init : (Loc.start (World.init : World S)).WF := by
  constructor <;> simp [World.init, Loc.start]

variable (h : l.WF)
include h

/-- The discipline does not depend on the clock, the history or how far the sequences are. -/
theorem congr {w : World S} (hdb : w.db = l.world.db) (hseq : ∀ t, l.world.seq t ≤ w.seq t) :
    (l.on w).WF where
  bounded := fun t id v hv => by
    obtain ⟨h1, h2⟩ := h.bounded t id v (hdb.symm ▸ hv)
    exact ⟨h1, Nat.le_trans h2 (hseq t)⟩
  unique := fun t i j v v' k hv hv' =>
    h.unique t i j v v' k (hdb.symm ▸ hv) (by rw [← hdb]; exact hv')
  pend_bounded := fun t id v hv => by
    obtain ⟨h1, h2⟩ := h.pend_bounded t id v hv
    exact ⟨h1, Nat.le_trans h2 (hseq t)⟩
  pend_held := h.pend_held
  held_bounded := fun t id hr => Nat.le_trans (h.held_bounded t id hr) (hseq t)
  pend_kept := fun t id v v' hv hv' => h.pend_kept t id v v' hv (hdb.symm ▸ hv')
  pend_fresh := fun t id v hv hn k hk => by
    show _ ∧ ¬ w.db.Occupied t k
    rw [hdb]
    exact h.pend_fresh t id v hv (hdb.symm ▸ hn) k hk
  pend_unique := fun t i j v v' k hv hv' hn hn' =>
    h.pend_unique t i j v v' k hv hv' (hdb.symm ▸ hn) (by rw [← hdb]; exact hn')

theorem record (e : Event S) : (l.on (l.world.record e)).WF :=
  h.congr rfl fun _ => Nat.le_refl _

theorem tick (d : Nat) : (l.on (l.world.tick d)).WF :=
  h.congr rfl fun _ => Nat.le_refl _

theorem bump (t : S.Table) : (l.on (l.world.bump t)).WF :=
  h.congr rfl fun t' => l.world.le_bump_seq t t'

theorem restart : (Loc.start l.world).WF := by
  constructor
  · exact h.bounded
  · exact h.unique
  all_goals simp [Loc.start]

/-! ## Statements -/

section

variable (hv : l.view.rows t id = some v)
include hv

theorem view_bounded : 0 < id ∧ id ≤ l.world.seq t := by
  rcases apply_eq_some hv with hp | ⟨_, hd⟩
  · exact h.pend_bounded t id v hp
  · exact h.bounded t id v hd

theorem hold : (l.hold (.row t id)).WF where
  bounded := h.bounded
  unique := h.unique
  pend_bounded := h.pend_bounded
  pend_held := fun t id v hv => Set.mem_insert_of_mem _ (h.pend_held t id v hv)
  held_bounded := fun t1 id1 hr => by
    rcases hr with heq | hr
    · cases heq; exact (h.view_bounded hv).2
    · exact h.held_bounded t1 id1 hr
  pend_kept := h.pend_kept
  pend_fresh := fun t id v hv hn k hk =>
    ⟨Set.mem_insert_of_mem _ (h.pend_fresh t id v hv hn k hk).1,
      (h.pend_fresh t id v hv hn k hk).2⟩
  pend_unique := h.pend_unique

theorem view_keys {v0 : S.Row t} (h0 : l.world.db t id = some v0) : S.keys t v = S.keys t v0 := by
  rcases apply_eq_some hv with hp | ⟨_, hd⟩
  · exact h.pend_kept t id v v0 hp h0
  · cases h0.symm.trans hd
    rfl

/-- Writing a locked row keeps the transaction well formed. -/
theorem write (hk : S.keys t v' = S.keys t v) : (l.write t id v').WF where
  bounded := h.bounded
  unique := h.unique
  pend_bounded := fun t1 id1 v1 h1 => by
    rcases set_eq_some h1 with ⟨rfl, rfl, -⟩ | h1
    · exact h.view_bounded hv
    · exact h.pend_bounded t1 id1 v1 h1
  pend_held := fun t1 id1 v1 h1 => by
    rcases set_eq_some h1 with ⟨rfl, rfl, -⟩ | h1
    · exact Set.mem_insert _ _
    · exact Set.mem_insert_of_mem _ (h.pend_held t1 id1 v1 h1)
  held_bounded := (h.hold hv).held_bounded
  pend_kept := fun t1 id1 v1 v2 h1 h₂ => by
    rcases set_eq_some h1 with ⟨rfl, rfl, rfl⟩ | h1
    · exact hk.trans (h.view_keys hv h₂)
    · exact h.pend_kept t1 id1 v1 v2 h1 h₂
  pend_fresh := fun t1 id1 v1 h1 hn k hk1 => by
    rcases set_eq_some h1 with ⟨rfl, rfl, rfl⟩ | h1
    · -- the row is not committed, so it was pending with the same keys already
      rcases apply_eq_some hv with hp | ⟨_, hd⟩
      · obtain ⟨h2, h3⟩ := h.pend_fresh _ _ v hp hn k (hk.symm ▸ hk1)
        exact ⟨Set.mem_insert_of_mem _ h2, h3⟩
      · exact absurd (show l.world.db t id1 = none from hn) (by rw [hd]; simp)
    · obtain ⟨h2, h3⟩ := h.pend_fresh t1 id1 v1 h1 hn k hk1
      exact ⟨Set.mem_insert_of_mem _ h2, h3⟩
  pend_unique := fun t1 i j v1 v2 k h1 h₂ hn1 hn2 hk1 hk2 => by
    -- the key of a pending new row is that of the row it stands for
    have old : ∀ {i v1}, (l.pend.set t id v') t1 i = some v1 → l.world.db t1 i = none →
        k ∈ S.keys t1 v1 → ∃ v0, l.pend t1 i = some v0 ∧ k ∈ S.keys t1 v0 := by
      intro i v1 h1 hn hk1
      rcases set_eq_some h1 with ⟨rfl, rfl, rfl⟩ | h1
      · rcases apply_eq_some hv with hp | ⟨_, hd⟩
        · exact ⟨v, hp, by rw [← hk]; exact hk1⟩
        · exact absurd hn (by rw [hd]; simp)
      · exact ⟨v1, h1, hk1⟩
    obtain ⟨u1, hu1, hku1⟩ := old h1 hn1 hk1
    obtain ⟨u2, hu2, hku2⟩ := old h₂ hn2 hk2
    exact h.pend_unique t1 i j u1 u2 k hu1 hu2 hn1 hn2 hku1 hku2

end

theorem fresh_id (hid : l.world.seq t < id) : l.world.db t id = none ∧ l.pend t id = none := by
  constructor
  · cases hd : l.world.db t id with
    | none => rfl
    | some v => have := (h.bounded t id v hd).2; omega
  · cases hp : l.pend t id with
    | none => rfl
    | some v => have := (h.pend_bounded t id v hp).2; omega

/-- So does a new row with free keys. -/
theorem add (hfree : ∀ k ∈ S.keys t v, ¬ l.view.rows.Occupied t k) :
    ((l.bump t).add t (l.world.seq t + 1) v).WF := by
  obtain ⟨hd, _⟩ := h.fresh_id (Nat.lt_succ_self (l.world.seq t))
  have hb := h.bump t
  -- an index entry of the new row is free among the committed and the pending rows
  have freeDb : ∀ k ∈ S.keys t v, ¬ l.world.db.Occupied t k := by
    rintro k hk ⟨id, v0, h0, hk0⟩
    cases hpd : l.pend t id with
    | none => exact hfree k hk ⟨id, v0, by rw [← h0]; exact Store.apply_of_none hpd, hk0⟩
    | some v1 =>
      exact hfree k hk ⟨id, v1, Store.apply_of_some hpd,
        by rw [h.pend_kept t id v1 v0 hpd h0]; exact hk0⟩
  have freePend : ∀ k ∈ S.keys t v, ∀ id v1, l.pend t id = some v1 → k ∉ S.keys t v1 :=
    fun k hk id v1 h1 hk1 => hfree k hk ⟨id, v1, Store.apply_of_some h1, hk1⟩
  refine ⟨hb.bounded, hb.unique, ?_, ?_, ?_, ?_, ?_, ?_⟩
  · intro t1 id1 v1 h1
    rcases set_eq_some h1 with ⟨rfl, rfl, -⟩ | h1
    · exact ⟨Nat.succ_pos _, by simp⟩
    · exact hb.pend_bounded t1 id1 v1 h1
  · intro t1 id1 v1 h1
    rcases set_eq_some h1 with ⟨rfl, rfl, -⟩ | h1
    · exact Set.mem_insert _ _
    · exact Set.mem_insert_of_mem _ (Set.mem_union_left _ (h.pend_held t1 id1 v1 h1))
  · rintro t1 id1 (heq | hr | ⟨k, _, heq⟩)
    · cases heq; simp
    · exact hb.held_bounded t1 id1 hr
    · cases heq
  · intro t1 id1 v1 v2 h1 h₂
    rcases set_eq_some h1 with ⟨rfl, rfl, -⟩ | h1
    · exact absurd (show l.world.db t _ = some v2 from h₂) (by rw [hd]; simp)
    · exact h.pend_kept t1 id1 v1 v2 h1 h₂
  · intro t1 id1 v1 h1 hn k hk
    rcases set_eq_some h1 with ⟨rfl, rfl, rfl⟩ | h1
    · exact ⟨Set.mem_insert_of_mem _ (Set.mem_union_right _ ⟨k, hk, rfl⟩), freeDb k hk⟩
    · obtain ⟨h2, h3⟩ := h.pend_fresh t1 id1 v1 h1 hn k hk
      exact ⟨Set.mem_insert_of_mem _ (Set.mem_union_left _ h2), h3⟩
  · intro t1 i j v1 v2 k h1 h₂ hn1 hn2 hk1 hk2
    rcases set_eq_some h1 with ⟨rfl, rfl, rfl⟩ | hold1
    · rcases set_eq_some h₂ with ⟨-, rfl, -⟩ | hold2
      · rfl
      · exact absurd hk2 (freePend k hk1 j v2 hold2)
    · rcases set_eq_some h₂ with ⟨rfl, rfl, rfl⟩ | hold2
      · exact absurd hk1 (freePend k hk2 i v1 hold1)
      · exact h.pend_unique t1 i j v1 v2 k hold1 hold2 hn1 hn2 hk1 hk2

/-! ## Commits -/

theorem commit_key {k : S.Key} (hv : l.world.db.apply l.pend t id = some v) (hk : k ∈ S.keys t v) :
    (∃ v0, l.world.db t id = some v0 ∧ k ∈ S.keys t v0) ∨
    (l.world.db t id = none ∧ l.pend t id = some v ∧ Res.key t k ∈ l.held ∧
      ¬ l.world.db.Occupied t k) := by
  rcases apply_eq_some hv with hp | ⟨_, hd⟩
  · cases hd : l.world.db t id with
    | none =>
      obtain ⟨h1, h2⟩ := h.pend_fresh t id v hp hd k hk
      exact Or.inr ⟨rfl, hp, h1, h2⟩
    | some v0 => exact Or.inl ⟨v0, rfl, by rw [← h.pend_kept t id v v0 hp hd]; exact hk⟩
  · exact Or.inl ⟨v, hd, hk⟩

theorem commit_bounded (hv : l.world.db.apply l.pend t id = some v) : 0 < id ∧ id ≤ l.world.seq t :=
  h.view_bounded hv

theorem commit_unique {i j : Nat} {k : S.Key} (hv : l.world.db.apply l.pend t i = some v)
    (hv' : l.world.db.apply l.pend t j = some v') (hk : k ∈ S.keys t v) (hk' : k ∈ S.keys t v') :
    i = j := by
  rcases h.commit_key hv hk with ⟨u, hu, hku⟩ | ⟨hn, hp, _, ho⟩
  · rcases h.commit_key hv' hk' with ⟨u', hu', hku'⟩ | ⟨_, _, _, ho'⟩
    · exact h.unique t i j u u' k hu hu' hku hku'
    · exact absurd ⟨i, u, hu, hku⟩ ho'
  · rcases h.commit_key hv' hk' with ⟨u', hu', hku'⟩ | ⟨hn', hp', _, _⟩
    · exact absurd ⟨j, u', hu', hku'⟩ ho
    · exact h.pend_unique t i j v v' k hp hp' hn hn' hk hk'

theorem commit_self (pid : Nat) (op : S.Op) : (Loc.start (l.commit pid op)).WF := by
  constructor
  · exact fun t id v hv => h.commit_bounded hv
  · exact fun t i j v v' k hv hv' hk hk' => h.commit_unique hv hv' hk hk'
  all_goals simp [Loc.start]

/-- So does the commit of a transaction with other locks. -/
theorem commit_other (h' : l'.WF) (hw : l'.world = l.world) (hdisj : Disjoint l'.held l.held)
    (pid : Nat) (op : S.Op) : (l.on (l'.commit pid op)).WF := by
  -- what `l` has pending, `l'` has not
  have frame : ∀ {t id v}, l.pend t id = some v →
      (l'.world.db.apply l'.pend) t id = l.world.db t id := by
    intro t id v hv
    have hp : l'.pend t id = none := by
      cases hp : l'.pend t id with
      | none => rfl
      | some v' =>
        exact absurd (h.pend_held t id v hv)
          (Set.disjoint_left.mp hdisj (h'.pend_held t id v' hp))
    rw [Store.apply_of_none hp, hw]
  refine ⟨fun t id v hv => h'.commit_bounded hv,
    fun t i j v v' k hv hv' hk hk' => h'.commit_unique hv hv' hk hk', ?_, h.pend_held, ?_, ?_, ?_, ?_⟩
  · intro t id v hv
    have hb := h.pend_bounded t id v hv
    rw [← hw] at hb
    exact hb
  · intro t id hr
    have hb := h.held_bounded t id hr
    rw [← hw] at hb
    exact hb
  · intro t id v v' hv hv'
    exact h.pend_kept t id v v' hv (by rw [← frame hv]; exact hv')
  · intro t id v hv hn k hk
    obtain ⟨h1, h2⟩ := h.pend_fresh t id v hv (by rw [← frame hv]; exact hn) k hk
    refine ⟨h1, ?_⟩
    rintro ⟨id', v', hv', hk'⟩
    rcases h'.commit_key hv' hk' with ⟨u, hu, hku⟩ | ⟨_, _, hheld, _⟩
    · exact h2 ⟨id', u, by rw [← hw]; exact hu, hku⟩
    · exact Set.disjoint_left.mp hdisj hheld h1
  · intro t i j v v' k hv hv' hn hn' hk hk'
    exact h.pend_unique t i j v v' k hv hv' (by rw [← frame hv]; exact hn)
      (by rw [← frame hv']; exact hn') hk hk'

end Loc.WF

end Txn
