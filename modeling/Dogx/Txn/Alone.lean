import Dogx.Txn.System

/-!
# What one session can do when the others pause

`Can P Q s`: some run leads from `s` to a state with `Q`. `At` says where a session stands. There is
one rule for each kind of step, so that the way of a process to its end is written statement by
statement.
-/

namespace Txn

namespace Sys

variable {S : Sig} {P : Service S} {Q : Sys S → Prop} {s s' : Sys S} {sid pid id : Nat} {α β : Type}
  {label : α → S.Op} {k : Except S.Err α → Proc S Unit} {w : World S} {pend : Store S}
  {phase : Phase S} {m : Move S P.Call} {q : View S → β}

/-- Some run from `s` leads to a state with `Q`. -/
def Can (P : Service S) (Q : Sys S → Prop) (s : Sys S) : Prop :=
  ∃ ms s', s.run P ms = some s' ∧ Q s'

structure At (s : Sys S) (sid pid : Nat) (phase : Phase S) (w : World S) (pend : Store S) : Prop where
  session : s.sessions sid = some { pid := pid, phase := phase }
  world : s.world = w
  pend : s.pend sid = pend

theorem At.view (h : At s sid pid phase w pend) :
    s.view sid = { rows := w.db.apply pend, seq := w.seq, now := w.now } := by
  obtain ⟨_, rfl, rfl⟩ := h
  rfl

namespace Can

theorem here (h : Q s) : Can P Q s := ⟨[], s, rfl, h⟩

theorem step (hm : s.step P m = some s') (h : Can P Q s') : Can P Q s := by
  obtain ⟨ms, s'', hr, hQ⟩ := h
  exact ⟨m :: ms, s'', by simp [run, hm, hr], hQ⟩

theorem via (s1 : Sys S) (hm : s.step P m = some (s1.put sid { pid := pid, phase := phase }))
    (hw : s1.world = w) (hp : s1.pend sid = pend)
    (next : ∀ s', At s' sid pid phase w pend → s'.locks = s1.locks → Can P Q s') : Can P Q s :=
  step hm (next _ ⟨by simp [put], hw, hp⟩ rfl)

theorem spawn {c : P.Call} (hc : P.admits c s.world = true)
    (next : ∀ s', At s' s.next s.next (.idle (P.code c)) s.world (s.pend s.next) →
      s'.locks = s.locks → Can P Q s') : Can P Q s :=
  via (m := .spawn c) { s with next := s.next + 1 } (by simp [Sys.step, hc]) rfl rfl next

theorem begin {body : Tx S α} (h : At s sid pid (.idle (.transact label body k)) w pend)
    (next : ∀ s', At s' sid pid (.running label body k) w pend → s'.locks = s.locks → Can P Q s') :
    Can P Q s :=
  via (m := .begin sid) s (by simp [Sys.step, h.session]) h.world h.pend next

theorem select {k' : β → Tx S α} (h : At s sid pid (.running label (.select q k') k) w pend)
    (next : ∀ s', At s' sid pid
      (.running label (k' (q { rows := w.db.apply pend, seq := w.seq, now := w.now })) k) w pend →
      Can P Q s') : Can P Q s :=
  via (m := .exec sid) s (by simp [Sys.step, exec, h.session, execTx, h.view]) h.world h.pend
    fun s' h' _ => next s' h'

theorem lock {t : S.Table} {nowait : Bool} {k' : Locked (S.Row t) → Tx S α} {v : S.Row t}
    (h : At s sid pid (.running label (.lock t id nowait k') k) w pend)
    (hrow : w.db.apply pend t id = some v) (hfree : s.locks (.row t id) = none)
    (next : ∀ s', At s' sid pid (.running label (k' (.row (some v))) k) w pend → Can P Q s') :
    Can P Q s :=
  via (m := .exec sid) (s.grab sid (.row t id))
    (by simp [Sys.step, exec, h.session, execTx, h.view, hrow, available, hfree]) h.world h.pend
    fun s' h' _ => next s' h'

theorem read {k' : Except S.Err β → Proc S Unit} (h : At s sid pid (.idle (.read q k')) w pend)
    (next : ∀ s', At s' sid pid (.idle (k' (.ok (q w.view)))) w pend → s'.locks = s.locks →
      Can P Q s') : Can P Q s := by
  obtain ⟨hs, rfl, rfl⟩ := h
  exact via (m := .exec sid) s (by simp [Sys.step, exec, hs]) rfl rfl next

theorem update {t : S.Table} {f : View S → S.Row t → Verdict (S.Row t)}
    {k' : Option (S.Row t) → Tx S α} {v v' : S.Row t}
    (h : At s sid pid (.running label (.update t id f k') k) w pend)
    (hrow : w.db.apply pend t id = some v) (hfree : s.locks (.row t id) = none)
    (hset : f { rows := w.db.apply pend, seq := w.seq, now := w.now } v = .set v')
    (next : ∀ s', At s' sid pid (.running label (k' (some v')) k) w (pend.set t id v') → Can P Q s') :
    Can P Q s :=
  via (m := .exec sid) (s.write sid t id v')
    (by simp [Sys.step, exec, h.session, execTx, h.view, hrow, hset, available, hfree]) h.world
    (by simp [write, h.pend]) fun s' h' _ => next s' h'

theorem throw {e : S.Err} (h : At s sid pid (.running label (.throw e) k) w pend)
    (next : ∀ s', At s' sid pid (.idle (k (.error e))) w Store.empty → Can P Q s') : Can P Q s :=
  via (m := .exec sid) (s.release sid) (by simp [Sys.step, exec, h.session, execTx]) h.world
    (by simp [release]) fun s' h' _ => next s' h'

theorem commit {a : α} (h : At s sid pid (.running label (.ret a) k) w pend)
    (next : ∀ s', At s' sid pid (.idle (k (.ok a)))
      { w with db := w.db.apply pend, log := .commit pid (label a) w.db pend :: w.log }
      Store.empty → Can P Q s') : Can P Q s := by
  obtain ⟨hs, rfl, rfl⟩ := h
  have confirm : ∀ s1, At s1 sid pid (.confirming (label a) a k)
      ((s.loc sid).commit pid (label a)) Store.empty → Can P Q s1 := fun s1 h1 =>
    via (m := .confirm sid) s1 (by simp [Sys.step, h1.session]) h1.world h1.pend
      fun s' h' _ => next s' h'
  exact via (m := .commit sid) (s.apply sid pid (label a)) (by simp [Sys.step, Sys.commit, hs]) rfl
    (by simp [apply, release]) fun s' h' _ => confirm s' h'

theorem reply {a : S.Act} {k' : S.Reply a → Proc S Unit} (r : S.Reply a)
    (h : At s sid pid (.idle (.act a k')) w pend)
    (next : ∀ s', At s' sid pid (.idle (k' r)) (w.record (.act pid a r)) pend →
      s'.locks = s.locks → Can P Q s') : Can P Q s := by
  obtain ⟨hs, rfl, rfl⟩ := h
  exact via (m := .reply sid a r) { s with world := s.world.record (.act pid a r) }
    (by simp [Sys.step, Sys.reply, hs]) rfl rfl next

end Can

end Sys

end Txn
