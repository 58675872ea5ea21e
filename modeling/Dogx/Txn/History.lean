import Dogx.Txn.Sound

/-!
# Reading the history

The history of a world that came about under a contract is true: each of its events happened, in
a world that had come about before, and the contract held then.
-/

namespace Txn

variable {S : Sig} {C : Contract S} {w w' : World S} {e : Event S} {kind : Event S → Bool}

/-- What happens at most once happens in one event. -/
theorem eq_of_countP_le_one {log : List (Event S)} {e' : Event S} (h : log.countP kind ≤ 1)
    (he : e ∈ log) (he' : e' ∈ log) (hk : kind e = true) (hk' : kind e' = true) : e = e' := by
  rw [List.countP_eq_length_filter] at h
  have hm : e ∈ log.filter kind := List.mem_filter.mpr ⟨he, hk⟩
  have hm' : e' ∈ log.filter kind := List.mem_filter.mpr ⟨he', hk'⟩
  match hl : log.filter kind with
  | [] => simp [hl] at hm
  | [x] =>
    rw [hl, List.mem_singleton] at hm hm'
    rw [hm, hm']
  | _ :: _ :: _ => simp [hl] at h

/-! ## Events as steps -/

def Event.after (e : Event S) (w : World S) : World S :=
  match e with
  | .commit _ _ _ writes => { w with db := w.db.apply writes, log := e :: w.log }
  | _ => w.record e

@[simp] theorem Event.after_log (e : Event S) (w : World S) : (e.after w).log = e :: w.log := by
  cases e <;> rfl

inductive Happens (C : Contract S) (w : World S) : Event S → Prop where
  | commit {pid : Nat} {op : S.Op} {l : Loc S} (hw : l.world = w) (wf : l.WF)
      (ok : C.Commits pid op l) : Happens C w (.commit pid op w.db l.pend)
  | act {pid : Nat} {a : S.Act} {r : S.Reply a} (ok : C.Acts pid a r w) :
      Happens C w (.act pid a r)
  | lost (pid : Nat) (op : S.Op) : Happens C w (.lost pid op)

theorem Happens.evolves (h : Happens C w e) : Evolves C w (e.after w) := by
  cases h with
  | commit hw wf ok => subst hw; exact .commit wf ok
  | act ok => exact .act ok
  | lost pid op => exact .lost w pid op

theorem Evolves.event_or_silent (h : Evolves C w w') :
    (∃ e, Happens C w e ∧ w' = e.after w) ∨ (w'.log = w.log ∧ w'.db = w.db) := by
  cases h with
  | commit wf ok => exact Or.inl ⟨_, .commit rfl wf ok, rfl⟩
  | act ok => exact Or.inl ⟨_, .act ok, rfl⟩
  | lost _ pid op => exact Or.inl ⟨_, .lost pid op, rfl⟩
  | tick | bump => exact Or.inr ⟨rfl, rfl⟩

namespace Evolution

theorem wf (h : Evolution C w w') (hwf : (Loc.start w).WF) : (Loc.start w').WF := by
  refine h.preserves (P := fun w => (Loc.start w).WF) ?_ hwf
  intro a b hs hwf
  cases hs with
  | commit wf => exact wf.commit_self _ _
  | act | lost => exact hwf.record _
  | tick _ d => exact hwf.tick d
  | bump _ t => exact hwf.bump t

theorem log_suffix (h : Evolution C w w') : w.log <:+ w'.log := by
  refine h.preserves (P := fun w' => w.log <:+ w'.log) ?_ (List.suffix_refl _)
  intro a b hs hsuf
  rcases hs.event_or_silent with ⟨e, _, rfl⟩ | ⟨hlog, _⟩
  · rw [Event.after_log]; exact hsuf.trans (List.suffix_cons _ _)
  · rw [hlog]; exact hsuf

/-- **Every event of the history happened**, in a world with the history before it. -/
theorem happened (h : Evolution C w w') {later earlier : List (Event S)}
    (hlog : w'.log = later ++ e :: earlier) (hnew : w.log <:+ earlier) :
    ∃ w0, Evolution C w w0 ∧ w0.log = earlier ∧ Happens C w0 e ∧ Evolution C (e.after w0) w' := by
  induction h generalizing later with
  | refl =>
    have hle := hnew.length_le
    have hlen := congrArg List.length hlog
    simp only [List.length_append, List.length_cons] at hlen
    omega
  | @tail a b h hs ih =>
    rcases hs.event_or_silent with ⟨e', hhap, rfl⟩ | ⟨hsame, _⟩
    · rw [Event.after_log] at hlog
      cases later with
      | nil =>
        cases hlog
        exact ⟨a, h, rfl, hhap, .refl⟩
      | cons =>
        obtain ⟨-, hlog⟩ := List.cons.inj hlog
        obtain ⟨w0, h0, h1, h2, h3⟩ := ih hlog
        exact ⟨w0, h0, h1, h2, h3.trans (.single hs)⟩
    · rw [hsame] at hlog
      obtain ⟨w0, h0, h1, h2, h3⟩ := ih hlog
      exact ⟨w0, h0, h1, h2, h3.trans (.single hs)⟩

theorem happened_of_mem (h : Evolution C World.init w) (he : e ∈ w.log) :
    ∃ w0, Evolution C World.init w0 ∧ Happens C w0 e ∧ Evolution C (e.after w0) w := by
  obtain ⟨_, _, hlog⟩ := List.append_of_mem he
  obtain ⟨w0, h0, _, h2, h3⟩ := h.happened hlog (List.nil_suffix)
  exact ⟨w0, h0, h2, h3⟩

/-- The invariant rule for a stretch of the history without events of some kind. -/
theorem preserves_without {P : Store S → Prop} {new : List (Event S)} (h : Evolution C w w')
    (hlog : w'.log = new ++ w.log) (hnew : ∀ e ∈ new, kind e = false)
    (hstep : ∀ w e, Happens C w e → kind e = false → P w.db → P (e.after w).db) (hP : P w.db) :
    P w'.db := by
  induction h generalizing new with
  | refl => exact hP
  | @tail a b h hs ih =>
    rcases hs.event_or_silent with ⟨e, hhap, rfl⟩ | ⟨hsame, hdb⟩
    · obtain ⟨_, hmid⟩ := log_suffix h
      rw [Event.after_log, ← hmid, ← List.cons_append] at hlog
      obtain rfl := List.append_cancel_right hlog
      exact hstep a e hhap (hnew e List.mem_cons_self)
        (ih hmid.symm fun e' he' => hnew e' (List.mem_cons_of_mem _ he'))
    · rw [hdb]
      exact ih (hsame.symm ▸ hlog) hnew

/-- What happens only where it has not happened yet happens once. -/
theorem once (h : Evolution C World.init w)
    (hfirst : ∀ w e, Evolution C World.init w → Happens C w e → kind e = true →
      ∀ e' ∈ w.log, kind e' = false) : w.log.countP kind ≤ 1 := by
  induction h with
  | refl => simp [World.init]
  | @tail a b h hs ih =>
    rcases hs.event_or_silent with ⟨e, hhap, rfl⟩ | ⟨hsame, _⟩
    · rw [Event.after_log, List.countP_cons]
      split
      · next hk =>
        have hnone : a.log.countP kind = 0 :=
          List.countP_eq_zero.mpr fun e' he' => by simp [hfirst a e h hhap hk e' he']
        omega
      · omega
    · rw [hsame]; exact ih

end Evolution

end Txn
