import Dogx.Machine.Run
import Dogx.Paging.Keyset

/-!
# Traversals of a bounded set

A traversal fixes a bound, reads the rows inside it page by page, and hands over the rows of each
page. It can stop anywhere, and goes on later from its bound and its cursor. At its end the bound is
unset. A row that stays inside the bound has been handed over by then (`Traverses.covers`).
-/

namespace Paging

variable {β α κ σ μ : Type*} [LinearOrder κ]

inductive Stage (α : Type*) where
  | resting
  /-- The bound is being fixed. -/
  | bounding
  /-- Rows in hand. A short page has had all the rows behind the cursor. -/
  | hand (rows : List α) (short : Bool)

structure Traversal (β α κ : Type*) where
  bound : β
  cursor : Option κ
  stage : Stage α

/-- The order of the rows, the bounds that stand for none, and the cursor of a traversal that begins. -/
structure Plan (β α κ : Type*) where
  position : α → κ
  unset : β → Prop
  start : Option κ

namespace Plan

variable {P : Plan β α κ} {rows : β → List α} {t t' : Traversal β α κ} {done rest : List α} {a : α} {b : β}

/-- A step that hands over `done`. The rows inside a bound are those of this moment. -/
inductive Step (P : Plan β α κ) (rows : β → List α) (t : Traversal β α κ) :
    List α → Traversal β α κ → Prop where
  | stays : Step P rows t [] t
  | rests : Step P rows t [] { t with stage := .resting }
  | starts (h : P.unset t.bound ∨ t.stage = .bounding) : Step P rows t [] { t with stage := .bounding }
  | bounds (b : β) (h : t.stage = .bounding) : Step P rows t [] { t with bound := b, stage := .resting }
  | reads (limit : ℕ) (pos : 0 < limit) (set : ¬P.unset t.bound) (short : Bool)
      (hshort : short = true → (page P.position t.cursor limit (rows t.bound)).length < limit) :
      Step P rows t [] { t with stage := .hand (page P.position t.cursor limit (rows t.bound)) short }
  | hands (done rest : List α) (short : Bool) (stage : Stage α) (h : t.stage = .hand (done ++ rest) short)
      (next : stage = .resting ∨ ∃ s, stage = .hand rest s ∧ (s = true → short = true)) :
      Step P rows t done { t with cursor := (done.getLast?.map P.position).or t.cursor, stage }
  /-- Nothing is left, or the last row in hand is at the end of the bounded set. -/
  | ends (done : List α) (short : Bool) (b : β) (h : t.stage = .hand done short)
      (all : short = true ∨ ∃ c ∈ done, ∀ a ∈ rows t.bound, P.position a ≤ P.position c)
      (unset : P.unset b) : Step P rows t done ⟨b, P.start, .resting⟩

/-- The rows in hand are in order, and behind the cursor. -/
structure InHand (P : Plan β α κ) (t : Traversal β α κ) (hand : List α) : Prop where
  set : ¬P.unset t.bound
  ordered : Ordered P.position hand
  behind : ∀ a ∈ hand, ∀ p, t.cursor = some p → p < P.position a

structure Placed (P : Plan β α κ) (t : Traversal β α κ) : Prop where
  unset : P.unset t.bound → t.cursor = P.start
  bounding : t.stage = .bounding → P.unset t.bound
  hand : ∀ hand short, t.stage = .hand hand short → P.InHand t hand

/-- The traversal with this bound has not reached the row yet, and what is in hand leads to it. -/
structure Ahead (P : Plan β α κ) (b : β) (a : α) (t : Traversal β α κ) : Prop where
  bound : t.bound = b
  behind : ∀ p, t.cursor = some p → p < P.position a
  hand : ∀ hand short, t.stage = .hand hand short →
    Toward P.position a hand ∧ (short = true → a ∈ hand)

/-- What is ahead of the cursor and of the rows handed over is ahead of the cursor they leave. -/
theorem lt_of_advanced {p : κ} (ht : ∀ p, t.cursor = some p → p < P.position a)
    (hdone : ∀ c ∈ done, P.position c < P.position a)
    (h : (done.getLast?.map P.position).or t.cursor = some p) : p < P.position a := by
  rcases Option.or_eq_some_iff.mp h with h | ⟨-, h⟩
  · obtain ⟨c, hc, rfl⟩ := Option.map_eq_some_iff.mp h
    exact hdone c (List.mem_of_getLast? hc)
  · exact ht p h

/-- One step keeps the rows in hand at the saved position. -/
theorem Placed.step (h : P.Placed t) (hord : ∀ b, Ordered P.position (rows b))
    (hs : P.Step rows t done t') : P.Placed t' := by
  cases hs with
  | stays => exact h
  | rests => exact ⟨h.unset, nofun, nofun⟩
  | starts hb =>
    refine ⟨h.unset, fun _ => ?_, nofun⟩
    rcases hb with hb | hb
    · exact hb
    · exact h.bounding hb
  | bounds b hb => exact ⟨fun _ => h.unset (h.bounding hb), nofun, nofun⟩
  | reads limit _ set =>
    refine ⟨h.unset, nofun, ?_⟩
    rintro _ _ ⟨⟩
    exact ⟨set, ordered_page (hord _), fun a ha => (mem_of_mem_page ha).2⟩
  | hands _ rest _ _ hand next =>
    have hin := h.hand _ _ hand
    obtain ⟨-, hrest, hlt⟩ := List.pairwise_append.mp hin.ordered
    refine ⟨fun hunset => absurd hunset hin.set, ?_, ?_⟩ <;> rcases next with rfl | ⟨_, rfl, -⟩
    · nofun
    · nofun
    · nofun
    · rintro _ _ ⟨⟩
      refine ⟨hin.set, hrest, fun a ha p => ?_⟩
      exact lt_of_advanced (hin.behind a (List.mem_append_right _ ha)) fun c hc => hlt c hc a ha
  | ends => exact ⟨fun _ => rfl, nofun, nofun⟩

/-- A traversal stays on its way to a row that stays, up to the step that hands the row over. -/
theorem Ahead.step (h : P.Ahead b a t) (hp : P.Placed t) (hb : ¬P.unset b)
    (hord : ∀ b, Ordered P.position (rows b)) (ha : a ∈ rows b) (hs : P.Step rows t done t') :
    P.Ahead b a t' ∨ a ∈ done := by
  obtain ⟨rfl, hbehind, hhand⟩ := h
  cases hs with
  | stays => exact .inl ⟨rfl, hbehind, hhand⟩
  | rests | starts => exact .inl ⟨rfl, hbehind, nofun⟩
  | bounds _ hbounding => exact absurd (hp.bounding hbounding) hb
  | reads limit pos _ _ hshort =>
    refine .inl ⟨rfl, hbehind, ?_⟩
    rintro _ _ ⟨⟩
    have hafter : a ∈ after P.position t.cursor (rows t.bound) := mem_after.mpr ⟨ha, hbehind⟩
    exact ⟨(toward_page limit (hord _) hafter pos).1, fun hs => mem_page_of_short hafter (hshort hs)⟩
  | hands _ rest _ _ hand next =>
    obtain ⟨htoward, hshort⟩ := hhand _ _ hand
    by_cases hdone : a ∈ done
    · exact .inr hdone
    obtain ⟨hlt, hrest⟩ := (htoward.append (hp.hand _ _ hand).ordered).resolve_left hdone
    refine .inl ⟨rfl, fun _ => lt_of_advanced hbehind hlt, ?_⟩
    rcases next with rfl | ⟨_, rfl, hs⟩
    · nofun
    · rintro _ _ ⟨⟩
      exact ⟨hrest, fun h => (List.mem_append.mp (hshort (hs h))).resolve_left hdone⟩
  | ends _ short _ hand all =>
    obtain ⟨htoward, hshort⟩ := hhand _ _ hand
    rcases all with hs | ⟨c, hc, hall⟩
    · exact .inr (hshort hs)
    · exact .inr (htoward.resolve_right fun hlt => not_lt.mpr (hall a ha) (hlt c hc))

/-- The step that fixes the bound puts the cursor before every row. -/
theorem Ahead.begins (hp : P.Placed t) (hunset : P.unset t.bound) (hset : ¬P.unset t'.bound)
    (hstart : ∀ p, P.start = some p → p < P.position a) (hs : P.Step rows t done t') :
    P.Ahead t'.bound a t' := by
  cases hs with
  | bounds =>
    refine ⟨rfl, fun p hcursor => ?_, nofun⟩
    exact hstart p ((hp.unset hunset).symm.trans hcursor)
  | ends _ _ _ _ _ hb => exact absurd hb hset
  | _ => exact absurd hunset hset

/-- A row that was in hand when the traversal stopped is on the way of the next page. -/
theorem Placed.resumes {hand : List α} {short : Bool} {limit : ℕ} (h : P.Placed t)
    (hhand : t.stage = .hand hand short) (hmem : a ∈ hand) (hord : Ordered P.position (rows t.bound))
    (ha : a ∈ rows t.bound) (hlimit : 0 < limit) :
    Toward P.position a (page P.position t.cursor limit (rows t.bound)) ∧
      page P.position t.cursor limit (rows t.bound) ≠ [] :=
  toward_page limit hord (mem_after.mpr ⟨ha, (h.hand _ _ hhand).behind a hmem⟩) hlimit

end Plan

/-- The steps of the machine are those of a traversal, of which `view` is the state. `Done` is what
handing a row over means. -/
structure Traverses (P : Plan β α κ) (M : Machine σ μ) (view : σ → Traversal β α κ)
    (rows : σ → β → List α) (Done : α → σ → μ → σ → Prop) : Prop where
  ordered : ∀ s b, Ordered P.position (rows s b)
  init : P.Placed (view M.init)
  step : ∀ s m s', M.step s m = some s' →
    ∃ done, P.Step (rows s) (view s) done (view s') ∧ ∀ a ∈ done, Done a s m s'

namespace Traverses

variable {P : Plan β α κ} {M : Machine σ μ} {view : σ → Traversal β α κ} {rows : σ → β → List α}
  {Done : α → σ → μ → σ → Prop}

theorem placed (h : Traverses P M view rows Done) : M.Invariant fun s => P.Placed (view s) where
  init := h.init
  step := fun s m s' hs hm => by
    obtain ⟨done, hstep, -⟩ := h.step s m s' hm
    exact hs.step (h.ordered s) hstep

/-- From the step that fixes the bound on: the traversal is on its way to a row that stays, or the row
has been handed over. -/
theorem covers (h : Traverses P M view rows Done) {ms ms' : List μ} {m : μ} {s s0 s1 : σ} {a : α}
    (hs : M.run ms = some s) (hm : M.step s m = some s0) (hunset : P.unset (view s).bound)
    (hset : ¬P.unset (view s0).bound) (hstart : ∀ p, P.start = some p → p < P.position a)
    (halong : M.Along (fun s _ _ => a ∈ rows s (view s0).bound) s0 ms' s1) :
    P.Ahead (view s0).bound a (view s1) ∨ ∃ t m t', M.StepIn s0 ms' s1 t m t' ∧ Done a t m t' := by
  have hplaced := h.placed.run hs
  obtain ⟨done, hstep, -⟩ := h.step s m s0 hm
  have hahead := Plan.Ahead.begins hplaced hunset hset hstart hstep
  refine halong.keeps_or (P := fun s => P.Ahead (view s0).bound a (view s)) h.placed
    (fun t m t' ht hahead hm ha => ?_) (h.placed.step hplaced hm) hahead
  obtain ⟨done, hstep, hdone⟩ := h.step t m t' hm
  exact (hahead.step ht hset (h.ordered t) ha hstep).imp_right (hdone a)

end Traverses

end Paging
