import Dogx.Txn.Program

/-!
# What a process is told

A process is a tree: what it does next is a function of what it has been told. `p.After told q` says
that `p`, told these answers one after the other, goes on as `q`. The answers are arbitrary, so what
holds after all of them holds under every failure and every interleaving.
-/

namespace Txn

variable {S : Sig} {β γ : Type}

/-- One thing a process does, with the answer. -/
inductive Told (S : Sig) : Type 1 where
  | act (a : S.Act) (r : S.Reply a)
  | read {γ : Type} (q : View S → γ) (x : Except S.Err γ)
  | transact {α : Type} (label : α → S.Op) (body : Tx S α) (x : Except S.Err α)

def Told.opens : Told S → Bool
  | .transact _ _ _ => true
  | .act _ _ | .read _ _ => false

namespace Proc

inductive After : Proc S β → List (Told S) → Proc S β → Prop where
  | here (p : Proc S β) : After p [] p
  | act {a : S.Act} {k : S.Reply a → Proc S β} (r : S.Reply a) {told : List (Told S)} {q : Proc S β}
      (h : After (k r) told q) : After (.act a k) (.act a r :: told) q
  | read {γ : Type} {query : View S → γ} {k : Except S.Err γ → Proc S β} (x : Except S.Err γ)
      {told : List (Told S)} {q : Proc S β} (h : After (k x) told q) :
      After (.read query k) (.read query x :: told) q
  | transact {α : Type} {label : α → S.Op} {body : Tx S α} {k : Except S.Err α → Proc S β}
      (x : Except S.Err α) {told : List (Told S)} {q : Proc S β} (h : After (k x) told q) :
      After (.transact label body k) (.transact label body x :: told) q

theorem After.trans {p q r : Proc S β} {told told' : List (Told S)} (h : p.After told q)
    (h' : q.After told' r) : p.After (told ++ told') r := by
  induction h with
  | here => exact h'
  | act x _ ih => exact .act x (ih h')
  | read x _ ih => exact .read x (ih h')
  | transact x _ ih => exact .transact x (ih h')

/-- Told these answers, the process returns `b`. -/
def Returns (p : Proc S β) (told : List (Told S)) (b : β) : Prop := p.After told (.ret b)

/-! ## What a process has been told by then -/

section Hears

variable {T : List (Told S) → (α : Type) → (α → S.Op) → Tx S α → Prop}
  {Q Q' : List (Told S) → β → Prop} {told more : List (Told S)} {p q : Proc S β}

def Hears (T : List (Told S) → (α : Type) → (α → S.Op) → Tx S α → Prop) :
    Proc S β → (List (Told S) → β → Prop) → List (Told S) → Prop
  | .ret b, Q, told => Q told b
  | .act a k, Q, told => ∀ r, (k r).Hears T Q (told ++ [.act a r])
  | .read q k, Q, told => ∀ x, (k x).Hears T Q (told ++ [.read q x])
  | .transact label body k, Q, told => T told _ label body ∧
      ∀ x, (k x).Hears T Q (told ++ [.transact label body x])

theorem Hears.ret {b : β} (h : Q told b) : (pure b : Proc S β).Hears T Q told := h

theorem Hears.bind {p : Proc S γ} {f : γ → Proc S β}
    (h : p.Hears T (fun told c => (f c).Hears T Q told) told) : (p >>= f).Hears T Q told := by
  induction p generalizing told with
  | ret => exact h
  | act a k ih => exact fun r => ih r (h r)
  | read q k ih => exact fun x => ih x (h x)
  | transact _ _ k ih => exact ⟨h.1, fun x => ih x (h.2 x)⟩

theorem Hears.perform {a : S.Act} {f : S.Reply a → Proc S β}
    (h : ∀ r, (f r).Hears T Q (told ++ [.act a r])) : (perform a >>= f).Hears T Q told := h

theorem Hears.query {q : View S → γ} {f : Except S.Err γ → Proc S β}
    (h : ∀ x, (f x).Hears T Q (told ++ [.read q x])) : (query q >>= f).Hears T Q told := h

theorem Hears.mono (hQ : ∀ told b, Q told b → Q' told b) (h : p.Hears T Q told) :
    p.Hears T Q' told := by
  induction p generalizing told with
  | ret b => exact hQ told b h
  | act a k ih => exact fun r => ih r (h r)
  | read q k ih => exact fun x => ih x (h x)
  | transact _ _ k ih => exact ⟨h.1, fun x => ih x (h.2 x)⟩

/-- What a process has heard, its rest goes on from. -/
theorem Hears.after (h : p.Hears T Q told) (hq : p.After more q) : q.Hears T Q (told ++ more) := by
  induction hq generalizing told with
  | here => rwa [List.append_nil]
  | act x _ ih | read x _ ih =>
    rw [List.append_cons]
    exact ih (h x)
  | transact x _ ih =>
    rw [List.append_cons]
    exact ih (h.2 x)

theorem Hears.returns {b : β} (h : p.Hears T Q told) (hr : p.Returns more b) :
    Q (told ++ more) b := h.after hr

abbrev Tells (p : Proc S β) (Q : List (Told S) → β → Prop) (told : List (Told S)) : Prop :=
  p.Hears (fun _ _ _ _ => True) Q told

theorem Hears.of_returns (h : ∀ more b, p.Returns more b → Q (told ++ more) b) : p.Tells Q told := by
  induction p generalizing told with
  | ret b => exact (List.append_nil told) ▸ h [] b (.here _)
  | act a k ih =>
    refine fun r => ih r fun more b hb => ?_
    rw [← List.append_cons]
    exact h _ b (.act r hb)
  | read q k ih =>
    refine fun x => ih x fun more b hb => ?_
    rw [← List.append_cons]
    exact h _ b (.read x hb)
  | transact _ _ k ih =>
    refine ⟨trivial, fun x => ih x fun more b hb => ?_⟩
    rw [← List.append_cons]
    exact h _ b (.transact x hb)

/-- A process opens a transaction only after being told what `T` asks for. -/
theorem Hears.opened {α : Type} {label : α → S.Op} {body : Tx S α} (h : p.Hears T Q told)
    (hq : p.After more q)
    (ho : (∃ x, .transact label body x ∈ more) ∨ ∃ k, q = .transact label body k) :
    ∃ first rest, more = first ++ rest ∧ T (told ++ first) α label body := by
  rcases ho with ⟨x, hx⟩ | ⟨k, rfl⟩
  · induction hq generalizing told with
    | here => cases hx
    | @act a k r more q hq ih =>
      rcases List.mem_cons.mp hx with heq | hmem
      · cases heq
      · obtain ⟨first, rest, rfl, hT⟩ := ih (h r) hmem
        rw [← List.append_cons] at hT
        exact ⟨.act a r :: first, rest, rfl, hT⟩
    | @read γ' query k r more q hq ih =>
      rcases List.mem_cons.mp hx with heq | hmem
      · cases heq
      · obtain ⟨first, rest, rfl, hT⟩ := ih (h r) hmem
        rw [← List.append_cons] at hT
        exact ⟨.read query r :: first, rest, rfl, hT⟩
    | @transact α' label' body' k r more q hq ih =>
      rcases List.mem_cons.mp hx with heq | hmem
      · cases heq
        exact ⟨[], _, rfl, by rw [List.append_nil]; exact h.1⟩
      · obtain ⟨first, rest, rfl, hT⟩ := ih (h.2 r) hmem
        rw [← List.append_cons] at hT
        exact ⟨.transact label' body' r :: first, rest, rfl, hT⟩
  · exact ⟨more, [], (List.append_nil _).symm, (h.after hq).1⟩

end Hears

end Proc

end Txn
