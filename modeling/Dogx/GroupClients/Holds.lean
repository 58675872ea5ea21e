import Dogx.GroupClients.Sweeps

/-!
# Who holds a connection

Each connection the factory has returned is in one place: cached, owned by a call, by the observer or by
`Close`, or closed. `Books` counts it over all of them.
-/

namespace Dogx.GroupClients

open GroupCache (Cache Config)
open List (count_append count_nil map_cons map_nil range')
open Machine.Pool (collect)

variable {s s' : Pool} {m : Move} {pid : ℕ} {c c' : Call} {client : Client} {clients : List Client}
  {conn : ℕ}

/-! ## Clients of a group -/

theorem perm_without (h : (clients.map fun c => c.group.id).Nodup) (id : Int) :
    clients.Perm ((clients.find? fun c => c.group.id = id).toList ++
      clients.filter fun c => c.group.id ≠ id) := by
  induction clients with
  | nil => exact .refl _
  | cons c clients ih =>
    rw [map_cons, List.nodup_cons] at h
    by_cases hid : c.group.id = id
    · subst hid
      have hrest : (clients.filter fun b => b.group.id ≠ c.group.id) = clients := by
        refine List.filter_eq_self.mpr fun b hb => decide_eq_true fun heq => h.1 ?_
        exact List.mem_map.mpr ⟨b, hb, heq⟩
      rw [List.find?_cons_of_pos (by simp), List.filter_cons_of_neg (by simp), hrest]
      exact .refl _
    · rw [List.find?_cons_of_neg (by simpa using hid), List.filter_cons_of_pos (by simpa using hid)]
      exact ((ih h.2).cons c).trans List.perm_middle.symm

theorem count_without (h : Flown s) (id : Int) (conn : ℕ) :
    (s.clients.map Client.conn).count conn = ((s.client id).map Client.conn).toList.count conn +
      ((s.without id).map Client.conn).count conn := by
  have hperm := ((perm_without h.distinct id).map Client.conn).count_eq conn
  rw [List.map_append, count_append] at hperm
  rw [hperm, Pool.client]
  cases s.clients.find? fun c => c.group.id = id <;> rfl

theorem client_of_mem (h : Flown s) (hmem : client ∈ s.clients) :
    s.client client.group.id = some client := by
  have hsome : (s.client client.group.id).isSome = true :=
    List.find?_isSome.mpr ⟨client, hmem, decide_eq_true rfl⟩
  obtain ⟨other, hother⟩ := Option.isSome_iff_exists.mp hsome
  have hid : other.group.id = client.group.id := by simpa using List.find?_some hother
  rw [hother, List.inj_on_of_nodup_map h.distinct (List.mem_of_find?_eq_some hother) hmem hid]

/-! ## Places -/

def Sweep.removed : Sweep → List ℕ
  | entering => []
  | sweeping _ removed | closing removed => removed

def Closing.removed : Closing → List ℕ
  | pending => []
  | unsubscribing removed | closing removed => removed

namespace Pool

def held (s : Pool) : List ℕ :=
  collect s.next s.calls fun c => c.bind fun c => c.phase.holds

def observed (s : Pool) : List ℕ := (s.observer.map Sweep.removed).getD []

def places (s : Pool) (conn : ℕ) : ℕ :=
  (s.clients.map Client.conn).count conn + s.held.count conn + s.observed.count conn +
    s.closing.removed.count conn + s.gone.count conn

theorem held_update (hcalls : s'.calls = Function.update s.calls pid (some c'))
    (hnext : s'.next = s.next) (hp : s.calls pid = some c) (hlt : pid < s.next) (conn : ℕ) :
    c.phase.holds.toList.count conn + s'.held.count conn =
      c'.phase.holds.toList.count conn + s.held.count conn := by
  have hperm : (c.phase.holds.toList ++ s'.held).Perm (c'.phase.holds.toList ++ s.held) := by
    have hupdate := @Machine.Pool.collect_update _ _ _ s.calls _
      (fun c => c.bind fun c => c.phase.holds) hlt (some c')
    rw [hp] at hupdate
    rw [held, hcalls, hnext]
    exact hupdate
  rw [← count_append, ← count_append]
  exact hperm.count_eq conn

theorem held_of_eq (hcalls : s'.calls = s.calls) (hnext : s'.next = s.next) : s'.held = s.held := by
  rw [held, held, hcalls, hnext]

end Pool

def Books (s : Pool) : Prop := ∀ conn, s.places conn = (range' 1 s.made).count conn

namespace Books

theorem moved (h : Books s) (hf : Flown s) (hp : s.calls pid = some c)
    (hcalls : s'.calls = Function.update s.calls pid (some c')) (hnext : s'.next = s.next)
    (hobserver : s'.observer = s.observer) (hclosing : s'.closing = s.closing)
    (hflow : ∀ conn, (s'.clients.map Client.conn).count conn + c'.phase.holds.toList.count conn +
        s'.gone.count conn + (range' 1 s.made).count conn =
      (s.clients.map Client.conn).count conn + c.phase.holds.toList.count conn +
        s.gone.count conn + (range' 1 s'.made).count conn) : Books s' := by
  intro conn
  have hbook := h conn
  have hheld := Pool.held_update hcalls hnext hp (hf.lt_next hp) conn
  have hgive := hflow conn
  unfold Pool.places at hbook ⊢
  rw [Pool.observed, hobserver, hclosing, ← Pool.observed]
  omega

theorem kept (h : Books s) (hcalls : s'.calls = s.calls) (hnext : s'.next = s.next)
    (hmade : s'.made = s.made)
    (hflow : ∀ conn, (s'.clients.map Client.conn).count conn + s'.observed.count conn +
        s'.closing.removed.count conn + s'.gone.count conn =
      (s.clients.map Client.conn).count conn + s.observed.count conn +
        s.closing.removed.count conn + s.gone.count conn) : Books s' := by
  intro conn
  have hbook := h conn
  have hgive := hflow conn
  unfold Pool.places at hbook ⊢
  rw [Pool.held_of_eq hcalls hnext, hmade]
  omega

theorem called (h : Books s) (hf : Flown s) (id : Int) : Books { s with
    calls := Function.update s.calls s.next (some { id, canceled := false, phase := .looping })
    next := s.next + 1 } := by
  have hheld : Pool.held { s with
      calls := Function.update s.calls s.next (some { id, canceled := false, phase := .looping })
      next := s.next + 1 } = s.held := by
    unfold Pool.held
    dsimp only
    rw [Machine.Pool.collect_succ, Function.update_self,
      Machine.Pool.collect_update_of_eq (by rw [hf.fresh s.next (Nat.le_refl _)]; rfl)]
    exact List.append_nil _
  intro conn
  have hbook := h conn
  unfold Pool.places at hbook ⊢
  rw [hheld]
  exact hbook

theorem holds_of_turn {old phase : Phase} (h : Turn s old phase) : phase.holds = old.holds := by
  cases h with
  | ended _ _ hidle =>
    cases old with
    | looping | resolving | locking | waiting => rfl
    | _ => cases hidle
  | _ => rfl

theorem advance (h : Books s) (hf : Flown s) (hp : s.calls pid = some c) (ha : Advance s pid c s') :
    Books s' := by
  cases ha with
  | turned _ hturn =>
    refine h.moved hf hp rfl rfl rfl rfl fun conn => ?_
    rw [holds_of_turn hturn]
    rfl
  | asked _ hphase | landed _ _ hphase =>
    refine h.moved hf hp rfl rfl rfl rfl fun conn => ?_
    rw [hphase]
    rfl
  | claimed _ hphase =>
    refine h.moved hf hp rfl rfl rfl rfl fun conn => ?_
    have hcount := count_without hf c.id conn
    rw [hphase]
    simp only [Pool.set, Phase.holds, Option.toList_none, count_nil]
    omega
  | replaced group old hphase | discarded group old err hphase =>
    refine h.moved hf hp rfl rfl rfl rfl fun conn => ?_
    rw [hphase]
    simp only [Pool.set, Phase.holds, Option.toList_none, count_nil, count_append]
    omega
  | created _ made n hphase hmade =>
    refine h.moved hf hp rfl rfl rfl rfl fun conn => ?_
    have hrange : (range' 1 (s.made + n)).count conn =
        (range' 1 s.made).count conn + made.conn.toList.count conn := by
      rw [hmade, ← count_append, Nat.add_comm s.made 1, List.range'_append_1]
    rw [hphase]
    simp only [Pool.set, Phase.holds, Option.toList_none, count_nil]
    omega
  | published group conn hphase =>
    refine h.moved hf hp rfl rfl rfl rfl fun conn => ?_
    have hkept : s.without group.id = s.clients := by
      refine List.filter_eq_self.mpr fun client hmem => decide_eq_true ?_
      exact (hf.calls pid c hp).unpublished group (hphase ▸ rfl) client hmem
    rw [hphase]
    simp only [Pool.set, Phase.holds, Made.conn, hkept, Option.toList_none, Option.toList_some,
      count_nil, List.map_append, map_cons, map_nil, count_append]
    omega

theorem observes (h : Books s) (hf : Flown s) (hs : Swept s) (ho : Observes s s') : Books s' := by
  cases ho with
  | entered hobs | swept removed hobs | observed hobs =>
    refine h.kept rfl rfl rfl fun conn => ?_
    simp only [Pool.observed, hobs]
    rfl
  | kept _ _ seen hobs =>
    refine h.kept rfl rfl rfl fun conn => ?_
    have hconns := Flown.map_looked (f := Client.conn) (n := s.cache.generation) (fun _ => rfl)
    simp only [Pool.observed, hobs, hconns]
    rfl
  | dropped todo removed seen hobs hmem =>
    refine h.kept rfl rfl rfl fun conn => ?_
    have hcount := count_without hf seen.group.id conn
    rw [client_of_mem hf (hs.todo todo removed hobs seen hmem)] at hcount
    simp only [Pool.observed, hobs, Option.map_some, Option.getD_some, Sweep.removed,
      count_append, Option.toList_some] at hcount ⊢
    omega
  | cleaned _ removed hobs =>
    refine h.kept rfl rfl rfl fun other => ?_
    simp only [Pool.observed, hobs, Option.map_some, Option.getD_some, Sweep.removed,
      count_append, List.count_cons, count_nil]
    omega

theorem closes (h : Books s) (hc : Closes s s') : Books s' := by
  cases hc with
  | marked hclosing =>
    refine h.kept rfl rfl rfl fun conn => ?_
    simp only [hclosing, Closing.removed, map_nil, Pool.observed]
    omega
  | unsubscribed _ hclosing =>
    refine h.kept rfl rfl rfl fun conn => ?_
    rw [hclosing]
    rfl
  | ended _ removed _ hclosing =>
    refine h.kept rfl rfl rfl fun other => ?_
    simp only [hclosing, Closing.removed, count_append, List.count_cons, count_nil,
      Pool.observed]
    omega

end Books

/-! ## All together -/

structure Regular (s : Pool) : Prop where
  flown : Flown s
  gates : Gates s
  swept : Swept s
  books : Books s

/-- In every run, each connection is in one place. -/
theorem Regular.invariant : pool.Invariant Regular where
  init := by
    refine ⟨Flown.invariant.init, Gates.invariant.init, ⟨nofun, nofun, fun h => absurd rfl h⟩, ?_⟩
    intro conn
    rfl
  step s m s' h hs := by
    obtain ⟨hf, hg, hw, hb⟩ := h
    refine ⟨Flown.invariant.step hf hs, Gates.invariant.step hg hs, ?_, ?_⟩
    · cases Pool.change_of_step hs with
      | cached m _ hcache hwait => exact hw.cached hf hg hcache hwait
      | advanced _ c _ _ ha => exact hw.advance hf ha
      | observed _ ho => exact hw.observes ho
      | closed _ hc => exact hw.closes hc
      | _ => exact hw.moved rfl rfl (fun _ hq => hq) (.inl rfl)
    · cases Pool.change_of_step hs with
      | cached m cache hcache =>
        refine hb.kept rfl rfl rfl fun conn => ?_
        have hsame : Pool.observed { s with
            cache
            observer := if s.cache.generation < cache.generation && s.subscribed
              then some .entering else s.observer } = s.observed := by
          unfold Pool.observed
          split
          next hnew =>
            rw [hw.idle hf hcache (of_decide_eq_true (Bool.and_eq_true_iff.mp hnew).1)]
            rfl
          next => rfl
        rw [hsame]
      | opened => exact hb.kept rfl rfl rfl fun _ => rfl
      | called id => exact hb.called hf id
      | canceled _ c hp => exact hb.moved hf hp rfl rfl rfl rfl fun _ => rfl
      | advanced _ c _ hp ha => exact hb.advance hf hp ha
      | observed _ ho => exact hb.observes hf hw ho
      | closed _ hc => exact hb.closes hc

end Dogx.GroupClients
