import Dogx.Job.Refine.Service

/-!
# Writes on the latest state

READ COMMITTED does not make transactions serializable: one that writes nothing may answer from rows
that have changed since. Every row that is written is justified by the state that the transactions
committed before have left, although it was decided on in earlier statements.
-/

namespace Dogx.Job

variable {env : Env} {w : World}

/-- The transactions of a history one after the other, from empty tables. -/
def replay : List Event → Db
  | [] => noWrites
  | .commit _ _ _ writes :: earlier => (replay earlier).apply writes
  | _ :: earlier => replay earlier

/-- What is committed is never taken back: every task, round and job is still there, as it was or
further on. -/
theorem rows_stay (ms ms' : List Move) (s s' : Sys) (hr : run env ms = some s)
    (hr' : s.run (service env) ms' = some s') : Db.Follows s.world.db s'.world.db :=
  evolution_follows (run_onwards hr hr')

theorem demo_rows_stay : ∃ s ∈ run Demo.library Demo.stopped,
    ∃ s' ∈ s.run (service Demo.library) Demo.batch, Db.Follows s.world.db s'.world.db := by
  obtain ⟨s, hs, s', hs', -⟩ : ∃ s ∈ run Demo.library Demo.stopped,
      ∃ s' ∈ s.run (service Demo.library) Demo.batch, s'.world.db .instance 1 ≠ none := by
    decide +kernel
  exact ⟨s, hs, s', hs', rows_stay _ _ s s' hs hs'⟩

end Dogx.Job
