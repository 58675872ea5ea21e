import Mathlib

/-!
# Owned items

A list of items with keys and tags, and beside it a map from the key of every item to its tag. Items
come and go, the map has to follow.
-/

namespace Queue

variable {α κ τ : Type*} {key : α → κ} {tag : α → τ} {owned : κ → Option τ}
  {items items' new : List α} {a : α} {k : κ} {t : τ}

structure Owns (key : α → κ) (tag : α → τ) (owned : κ → Option τ) (items : List α) : Prop where
  nodup : (items.map key).Nodup
  iff : ∀ k t, owned k = some t ↔ ∃ a ∈ items, key a = k ∧ tag a = t

namespace Owns

theorem empty : Owns key tag (fun _ => none) [] := ⟨.nil, by simp⟩

variable (h : Owns key tag owned items)
include h

theorem owned_of_mem (ha : a ∈ items) : owned (key a) = some (tag a) :=
  (h.iff _ _).mpr ⟨a, ha, rfl, rfl⟩

theorem perm (hp : items.Perm items') : Owns key tag owned items' where
  nodup := (hp.map key).nodup_iff.mp h.nodup
  iff := fun k t => (h.iff k t).trans (by simp only [hp.mem_iff])

theorem notMem_of_free (hfree : owned k = none) : k ∉ items.map key := by
  intro hk
  obtain ⟨a, ha, rfl⟩ := List.mem_map.mp hk
  cases (h.owned_of_mem ha).symm.trans hfree

end Owns

variable [DecidableEq κ]

def own (key : α → κ) (tag : α → τ) (owned : κ → Option τ) (items : List α) : κ → Option τ :=
  items.foldl (fun owned a => Function.update owned (key a) (some (tag a))) owned

def disown (key : α → κ) (owned : κ → Option τ) (items : List α) : κ → Option τ :=
  fun k => if k ∈ items.map key then none else owned k

theorem own_of_notMem (h : k ∉ items.map key) : own key tag owned items k = owned k := by
  induction items generalizing owned with
  | nil => rfl
  | cons a _ ih =>
    obtain ⟨ha, hitems⟩ := List.ne_and_not_mem_of_not_mem_cons h
    exact (ih hitems).trans (Function.update_of_ne ha _ _)

theorem own_of_mem (hnd : (items.map key).Nodup) (ha : a ∈ items) :
    own key tag owned items (key a) = some (tag a) := by
  induction items generalizing owned with
  | nil => cases ha
  | cons b _ ih =>
    obtain ⟨hb, hitems⟩ := List.nodup_cons.mp hnd
    rcases List.mem_cons.mp ha with rfl | ha
    · exact (own_of_notMem hb).trans (Function.update_self ..)
    · exact ih hitems ha

namespace Owns

/-- New items with free keys become owned. -/
theorem own (h : Owns key tag owned items) (hnd : (new.map key).Nodup)
    (hfree : ∀ a ∈ new, owned (key a) = none) :
    Owns key tag (Queue.own key tag owned new) (items ++ new) where
  nodup := by
    rw [List.map_append]
    refine h.nodup.append hnd fun k hk hk' => ?_
    obtain ⟨a, ha, rfl⟩ := List.mem_map.mp hk'
    exact h.notMem_of_free (hfree a ha) hk
  iff := by
    intro k t
    by_cases hk : k ∈ new.map key
    · obtain ⟨a, ha, rfl⟩ := List.mem_map.mp hk
      rw [own_of_mem hnd ha, Option.some.injEq]
      constructor
      · rintro rfl
        exact ⟨a, List.mem_append_right _ ha, rfl, rfl⟩
      · rintro ⟨b, hb, hkey, rfl⟩
        rcases List.mem_append.mp hb with hb | hb
        · exact absurd (hkey ▸ List.mem_map_of_mem hb) (h.notMem_of_free (hfree a ha))
        · rw [List.inj_on_of_nodup_map hnd hb ha hkey]
    · rw [own_of_notMem hk, h.iff]
      constructor
      · rintro ⟨a, ha, hat⟩
        exact ⟨a, List.mem_append_left _ ha, hat⟩
      · rintro ⟨a, ha, hkey, hat⟩
        rcases List.mem_append.mp ha with ha | ha
        · exact ⟨a, ha, hkey, hat⟩
        · exact absurd (hkey ▸ List.mem_map_of_mem ha) hk

/-- Items that leave give up their keys. -/
theorem disown (h : Owns key tag owned (new ++ items)) :
    Owns key tag (Queue.disown key owned new) items where
  nodup := h.nodup.sublist ((List.sublist_append_right ..).map key)
  iff := by
    intro k t
    have hnd := h.nodup
    rw [List.map_append, List.nodup_append] at hnd
    unfold Queue.disown
    split
    · next hk =>
      refine ⟨nofun, ?_⟩
      rintro ⟨a, ha, rfl, -⟩
      exact absurd rfl (hnd.2.2 _ hk _ (List.mem_map_of_mem ha))
    · next hk =>
      rw [h.iff]
      constructor
      · rintro ⟨a, ha, rfl, hat⟩
        rcases List.mem_append.mp ha with ha | ha
        · exact absurd (List.mem_map_of_mem ha) hk
        · exact ⟨a, ha, rfl, hat⟩
      · rintro ⟨a, ha, hat⟩
        exact ⟨a, List.mem_append_right _ ha, hat⟩

end Owns

end Queue
