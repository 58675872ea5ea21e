import Mathlib

/-!
# Literal search with `LIKE`

The list queries of both services look for a text with `ILIKE ? ESCAPE '!'`.  A text is a list
of characters; the three special ones are ASCII, so replacing them by bytes or by characters is
the same.
-/

namespace Dogx.Search

/-! ## The patterns -/

/-- `strings.NewReplacer("!", "!!", "%", "!%", "_", "!_").Replace`. -/
def replace (value : List Char) : List Char :=
  value.flatMap fun
    | '!' => ['!', '!']
    | '%' => ['!', '%']
    | '_' => ['!', '_']
    | c => [c]

/-- `containsLikePattern` of the system repositories. -/
def containsLikePattern (value : List Char) : List Char :=
  let escaped := replace value
  '%' :: escaped ++ ['%']

/-- `literalContains` of the job repositories. -/
def literalContains (value : List Char) : List Char := '%' :: replace value ++ ['%']

/-! ## `LIKE` -/

inductive Token where
  | anyString
  | anyChar
  | literal (c : Char)

/-- The pattern as read with the escape character `!`; `none` when it ends in an escape. -/
def tokens : List Char → Option (List Token)
  | [] => some []
  | ['!'] => none
  | '!' :: c :: cs => (tokens cs).map (.literal c :: ·)
  | '%' :: cs => (tokens cs).map (.anyString :: ·)
  | '_' :: cs => (tokens cs).map (.anyChar :: ·)
  | c :: cs => (tokens cs).map (.literal c :: ·)

def accepts : List Token → List Char → Bool
  | [], text => text.isEmpty
  | .anyString :: ts, text => text.tails.any (accepts ts)
  | .anyChar :: ts, _ :: text => accepts ts text
  | .literal c :: ts, d :: text => c == d && accepts ts text
  | _ :: _, [] => false

/-- `text LIKE pattern ESCAPE '!'`; `none` is the database's error for a dangling escape. -/
def like (pattern text : List Char) : Option Bool := (tokens pattern).map (accepts · text)

def special : List Char := ['!', '%', '_']

/-- The folding of `ILIKE`: it leaves the special characters alone and never makes one. -/
structure Folding where
  lower : Char → List Char
  special_eq : ∀ c ∈ special, lower c = [c]
  plain : ∀ c ∉ special, ∀ d ∈ lower c, d ∉ special

/-- No folding: `LIKE` itself. -/
def Folding.exact : Folding := ⟨fun c => [c], fun _ _ => rfl, by simp +contextual⟩

/-- `text ILIKE pattern ESCAPE '!'`: both sides are folded first. -/
def ilike (fold : Folding) (pattern text : List Char) : Option Bool :=
  like (pattern.flatMap fold.lower) (text.flatMap fold.lower)

theorem ilike_exact (pattern text : List Char) :
    ilike .exact pattern text = like pattern text := by
  simp [ilike, Folding.exact]

/-! ## An escaped text matches itself -/

variable (fold : Folding) (rest text : List Char) (ts : List Token)

theorem tokens_plain : ∀ ds : List Char, (∀ d ∈ ds, d ∉ special) →
    tokens (ds ++ rest) = (tokens rest).map (ds.map .literal ++ ·)
  | [], _ => by simp
  | d :: ds, h => by
    have hd := h d List.mem_cons_self
    simp only [special, List.mem_cons, not_or] at hd
    rw [List.cons_append, tokens, tokens_plain ds fun e he => h e (List.mem_cons_of_mem _ he)]
    · simp [Function.comp_def]
    all_goals simp [hd]

/-- The reader turns a replaced and folded text into the literals of the folded text. -/
theorem tokens_replace : ∀ value : List Char,
    tokens ((replace value).flatMap fold.lower ++ rest)
      = (tokens rest).map ((value.flatMap fold.lower).map .literal ++ ·)
  | [] => by simp [replace]
  | c :: value => by
    have ih := tokens_replace value
    by_cases hc : c ∈ special
    · have hr : replace (c :: value) = '!' :: c :: replace value := by
        simp only [special, List.mem_cons, List.not_mem_nil, or_false] at hc
        rcases hc with rfl | rfl | rfl <;> rfl
      simp only [hr, List.flatMap_cons, fold.special_eq _ hc, fold.special_eq '!' (by decide),
        List.cons_append, List.nil_append, tokens, ih]
      simp [Function.comp_def]
    · have hr : replace (c :: value) = c :: replace value := by
        simp only [special, List.mem_cons, not_or] at hc
        simp [replace, hc]
      rw [hr, List.flatMap_cons, List.append_assoc, tokens_plain _ _ (fold.plain c hc), ih]
      simp [Function.comp_def]

theorem accepts_literals : ∀ value text : List Char,
    accepts (value.map .literal ++ ts) text ↔ ∃ r, text = value ++ r ∧ accepts ts r
  | [], text => by simp
  | c :: value, [] => by simp [accepts]
  | c :: value, d :: text => by
    simp [List.cons_append, accepts, Bool.and_eq_true, beq_iff_eq,
      accepts_literals value text, List.cons.injEq, and_assoc, exists_and_left, @eq_comm _ d]

/-- `%`, the literals of a text and `%` accept what contains the text. -/
theorem accepts_contains (value : List Char) :
    accepts (.anyString :: value.map .literal ++ [.anyString]) text ↔ value <:+: text := by
  have hany : ∀ r, accepts [.anyString] r := fun r => by
    simp only [accepts, List.any_eq_true, List.mem_tails]
    exact ⟨[], List.nil_suffix, rfl⟩
  rw [List.cons_append, accepts]
  simp only [List.any_eq_true, List.mem_tails, accepts_literals, hany, and_true]
  constructor
  · rintro ⟨_, ⟨pre, rfl⟩, r, rfl⟩
    exact ⟨pre, r, by simp⟩
  · rintro ⟨pre, r, rfl⟩
    exact ⟨value ++ r, ⟨pre, by simp⟩, r, rfl⟩

theorem tokens_contains (value : List Char) :
    tokens (('%' :: replace value ++ ['%']).flatMap fold.lower)
      = some (.anyString :: (value.flatMap fold.lower).map .literal ++ [.anyString]) := by
  simp only [List.cons_append, List.flatMap_cons, List.flatMap_append,
    fold.special_eq '%' (by decide), List.nil_append, tokens, tokens_replace]
  rfl

theorem ilike_contains (value : List Char) :
    ilike fold ('%' :: replace value ++ ['%']) text = some true
      ↔ value.flatMap fold.lower <:+: text.flatMap fold.lower := by
  rw [ilike, like, tokens_contains, Option.map_some, Option.some_inj, ← accepts_contains]

/-- What a pattern for a literal search has to do: it is read without a dangling escape, with
`LIKE` it matches the texts that contain the search text, with `ILIKE` those that do so after
folding. -/
structure Contains (value pattern : List Char) : Prop where
  tokens_ne : tokens pattern ≠ none
  like_iff : like pattern text = some true ↔ value <:+: text
  folded_ne : tokens (pattern.flatMap fold.lower) ≠ none
  ilike_iff : ilike fold pattern text = some true
    ↔ value.flatMap fold.lower <:+: text.flatMap fold.lower

theorem contains_replace (value : List Char) :
    Contains fold text value ('%' :: replace value ++ ['%']) := by
  have hexact := tokens_contains .exact value
  have hlike := ilike_contains .exact text value
  rw [ilike_exact] at hlike
  simp only [Folding.exact, List.flatMap_singleton'] at hexact hlike
  exact ⟨hexact ▸ Option.some_ne_none _, hlike, tokens_contains fold value ▸ Option.some_ne_none _,
    ilike_contains fold text value⟩

theorem patterns_literal (value : List Char) :
    Contains fold text value (containsLikePattern value)
      ∧ Contains fold text value (literalContains value) :=
  ⟨contains_replace fold text value, contains_replace fold text value⟩

end Dogx.Search
