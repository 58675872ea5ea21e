import Mathlib

/-!
# Pages of an ordered set that changes

A traversal reads an ordered set page by page: the first rows after its cursor, at the moment of
each read. Rows may come and go between two reads. A row that stays is not passed over.
-/

namespace Paging

variable {α κ : Type*} [LinearOrder κ] {position : α → κ} {rows : List α} {cursor : Option κ}
  {limit : ℕ} {a b : α} {done : α → Prop}

def Ordered (position : α → κ) (rows : List α) : Prop :=
  rows.Pairwise fun a b => position a < position b

def after (position : α → κ) (cursor : Option κ) (rows : List α) : List α :=
  rows.filter fun a => cursor.all fun c => decide (c < position a)

def page (position : α → κ) (cursor : Option κ) (limit : ℕ) (rows : List α) : List α :=
  (after position cursor rows).take limit

theorem mem_after :
    a ∈ after position cursor rows ↔ a ∈ rows ∧ ∀ c, cursor = some c → c < position a := by
  cases cursor <;> simp [after]

theorem mem_of_mem_page (h : a ∈ page position cursor limit rows) :
    a ∈ rows ∧ ∀ c, cursor = some c → c < position a :=
  mem_after.mp (List.mem_of_mem_take h)

/-- A page has every row behind the cursor up to its last one. -/
theorem mem_page_of_le (hord : Ordered position rows) (ha : a ∈ after position cursor rows)
    (hb : b ∈ page position cursor limit rows) (hle : position a ≤ position b) :
    a ∈ page position cursor limit rows := by
  have hord' : Ordered position (after position cursor rows) := hord.filter _
  rw [← List.take_append_drop limit (after position cursor rows)] at ha hord'
  rcases List.mem_append.mp ha with ha | ha
  · exact ha
  · have hlt := (List.pairwise_append.mp hord').2.2 b hb a ha
    exact absurd hlt (not_lt.mpr hle)

/-- A page that is not full has every row behind the cursor. -/
theorem mem_page_of_short (ha : a ∈ after position cursor rows)
    (hlen : (page position cursor limit rows).length < limit) :
    a ∈ page position cursor limit rows := by
  unfold page at hlen ⊢
  rw [List.take_of_length_le] <;> simp only [List.length_take] at hlen
  · exact ha
  · omega

/-- A row behind the cursor is on the page, or the page is full and ends before it. -/
theorem page_reaches (limit : ℕ) (hord : Ordered position rows) (ha : a ∈ after position cursor rows) :
    a ∈ page position cursor limit rows ∨ limit ≤ (page position cursor limit rows).length ∧
      ∀ b ∈ page position cursor limit rows, position b < position a := by
  by_cases hmem : a ∈ page position cursor limit rows
  · exact .inl hmem
  · refine .inr ⟨Nat.not_lt.mp fun hlen => hmem (mem_page_of_short ha hlen), fun b hb => ?_⟩
    exact not_le.mp fun hle => hmem (mem_page_of_le hord ha hb hle)

/-! ## Rows handed over -/

/-- What the rows in hand mean for a row ahead of them: it is among them, or behind all of them. -/
def Toward (position : α → κ) (a : α) (hand : List α) : Prop :=
  a ∈ hand ∨ ∀ b ∈ hand, position b < position a

/-- A page in hand leads to every row behind the cursor, and is not empty while there is one. -/
theorem toward_page (limit : ℕ) (hord : Ordered position rows) (ha : a ∈ after position cursor rows)
    (hlimit : 0 < limit) : Toward position a (page position cursor limit rows) ∧
      page position cursor limit rows ≠ [] := by
  rcases page_reaches limit hord ha with hmem | ⟨hlen, hlt⟩
  · exact ⟨.inl hmem, List.ne_nil_of_mem hmem⟩
  · exact ⟨.inr hlt, List.ne_nil_of_length_pos (Nat.lt_of_lt_of_le hlimit hlen)⟩

/-- The first rows in hand are handed over: the row is among them, or behind all of them. -/
theorem Toward.append {first rest : List α} (h : Toward position a (first ++ rest))
    (hord : Ordered position (first ++ rest)) :
    a ∈ first ∨ (∀ b ∈ first, position b < position a) ∧ Toward position a rest := by
  rcases h with hmem | hlt
  · rcases List.mem_append.mp hmem with hmem | hmem
    · exact .inl hmem
    · exact .inr ⟨fun b hb => (List.pairwise_append.mp hord).2.2 b hb a hmem, .inl hmem⟩
  · refine .inr ⟨fun b hb => hlt b (List.mem_append_left _ hb), .inr fun b hb => ?_⟩
    exact hlt b (List.mem_append_right _ hb)

theorem ordered_page (hord : Ordered position rows) : Ordered position (page position cursor limit rows) :=
  (hord.filter _).take

end Paging
