import InferenceRouter.BackendSet.Pools

/-!
# Load and connections

`in_flight_[i]` is what a pick compares, and `in_use_` of pool `i` is what decides whether
a borrower has to wait.  They are counted in different places and under different locks.
Every entry among the callers of a pool that is still in `borrow`, or holds a connection,
belongs to a caller of the set that counts on that backend, so the first counter is never
below the second (`demand_le`).

A borrower sleeps only if `in_use_` has reached `max_size` while it is in `borrow` itself.
So a pool whose backend never carries a load above `max_size` lets no borrower sleep and
no borrower time out (`prompt_step`).
-/

namespace InferenceRouter.BackendPool

open Interleaving

variable {o : Options} {s s' : State} {e : Event}

/-- The caller is in `borrow` and has not been counted in `in_use_`. -/
def Caller.waits : Caller → Nat
  | .entered _ | .asleep _ | .notified _ | .spurious _ => 1
  | _ => 0

theorem Caller.waits_of_atLock {c : Caller} {d : Int} (h : c.atLock = some d) : c.waits = 1 := by
  cases c <;> simp_all [atLock, waits]

theorem Caller.leases_add_waits_le (c : Caller) : c.leases + c.waits ≤ 1 := by
  cases c <;> simp [leases, waits]

/-- What counts as leased or waiting is in `borrow` or holds a connection. -/
theorem Caller.not_over {c : Caller} (h : c.leases + c.waits ≠ 0) :
    c.phase ≠ .released ∧ c.phase ≠ .failed := by
  cases c <;> simp_all [leases, waits, phase]

/-- The connections in use, and the borrowers that want one. -/
def Pool.demand (p : Pool) : Nat := p.inUse + total Caller.waits p.callers

theorem Options.normalise_maxSize (o : Options) : o.normalise.maxSize = max o.maxSize 1 := by
  simp only [normalise]
  split <;> split <;> simp_all <;> omega

/-! ## Borrowers that do not wait -/

/-- The caller is not in `wait_until`, and has not left it by a timeout. -/
def Caller.Prompt (c : Caller) : Prop := c.inWait = none ∧ c ≠ .failed .etimedout

theorem borrowCv_prompt_wake (c : Caller) (h : borrowCv.asleep c = true) (hc : c.Prompt) :
    (borrowCv.wake c).Prompt := by
  obtain ⟨d, rfl, -⟩ := borrowCv_wake h
  cases hc.1

/-- As long as a borrower that takes `mu_` finds room, nobody goes to sleep. -/
theorem prompt_step (h : Step o s e s')
    (hroom : ∀ c ∈ s.callers, ∀ d, c.atLock = some d → s.inUse < o.maxSize)
    (hc : ∀ c ∈ s.callers, c.Prompt) : ∀ c ∈ s'.callers, c.Prompt := by
  have hset : ∀ {i : Nat} (b : Caller), b.Prompt → ∀ c ∈ s.callers.set i b, c.Prompt :=
    fun b hb => forall_mem_set hc hb
  cases h with
  | borrow =>
      intro c hmem
      rcases List.mem_append.mp hmem with hold | hnew
      · exact hc c hold
      · rw [List.mem_singleton.mp hnew]
        exact ⟨rfl, by simp⟩
  | borrowSleep hi hd _ _ _ hfull =>
      exact absurd (hroom _ (List.mem_of_getElem? hi) _ hd) (Nat.not_lt.mpr hfull)
  | borrowTimeout hi hd =>
      rw [(hc _ (List.mem_of_getElem? hi)).1] at hd
      cases hd
  | borrowSpurious hi => cases (hc _ (List.mem_of_getElem? hi)).1
  | borrowAbort | borrowIdle | borrowDial | dialFail | incPoolCreate | incPoolBorrow | release
  | sample | releaseClose => exact hset _ ⟨rfl, by simp⟩
  | dialOk =>
      apply hset
      split <;> exact ⟨rfl, by simp⟩
  | dialFailLock _ _ hcallers =>
      exact hcallers.forall_mem (hset _ ⟨rfl, by simp⟩) borrowCv_prompt_wake
  | releaseKeep _ _ hcallers =>
      exact hcallers.forall_mem (hset _ ⟨rfl, by simp⟩) borrowCv_prompt_wake
  | releaseDrop _ _ hcallers =>
      exact hcallers.forall_mem (hset _ ⟨rfl, by simp⟩) borrowCv_prompt_wake
  | shutdownNotify => exact CondVar.forall_mem_notifyAll hc borrowCv_prompt_wake
  | clock | foreignOpen | foreignClose | shutdownAgain | shutdown | shutdownClose | shutdownUnlock
  | shutdownReturn | reaperExit | reaperWait | sweep | pushBack | closeVictim | victimsClosed
  | startPings | pingsDone | closeDead | deadClosed | pingOk | pingFail => exact hc

end InferenceRouter.BackendPool

namespace InferenceRouter.BackendSet

open Interleaving

variable {cfg : Config} {s s' : State} {e : Event} {i : Nat} {p : BackendPool.Pool}

theorem length_pools_step (h : Step cfg s e s') : s'.pools.length = s.pools.length := by
  cases h with
  | pool | poolBorrow | shutdownCall | release => exact List.length_set
  | clock | foreignOpen | foreignClose | borrowEmpty | borrow | pickLock | pickFirst | pickNext
  | bump | poolHeld | poolRefused | count | compensate | releaseNothing | releaseInvalid
  | releaseReturn | decrement | shutdown | shutdownNext | shutdownReturn => rfl

/-- There is one pool for each backend. -/
theorem length_pools (h : (machine cfg).Reachable s) : s.pools.length = cfg.count :=
  h.invariant (P := fun t => t.pools.length = cfg.count) List.length_replicate
    (fun _ _ _ ht hstep => (length_pools_step (step_cases hstep)).trans ht)

/-! ## One pool -/

/-- What a step of the set is to pool `i`: nothing, or a step of the pool's own machine. -/
inductive PoolStep (cfg : Config) (s : State) (e : Event) (i : Nat) (p : BackendPool.Pool) :
    BackendPool.Pool → Prop where
  | same : PoolStep cfg s e i p p
  | own {e' : BackendPool.Event} {v : BackendPool.State} :
      BackendPool.Step cfg.shared.normalise (s.view i p) e' v →
      (e'.inner = true → e = .pool i e') → (e' = .shutdown → s.shutdown = .calling i) →
      PoolStep cfg s e i p v.toPool

theorem pool_step (h : Step cfg s e s') (hl : Linked s) (hp : s.pools[i]? = some p) :
    ∃ q, s'.pools[i]? = some q ∧ PoolStep cfg s e i p q := by
  have hset : ∀ {j : Nat} {p' q : BackendPool.Pool}, s.pools[j]? = some p' →
      PoolStep cfg s e j p' q →
      ∃ q', (s.pools.set j q)[i]? = some q' ∧ PoolStep cfg s e i p q' := by
    intro j p' q hj hstep
    rw [getElem?_set_eq _ hj]
    split
    next heq =>
      subst heq
      rw [hp, Option.some.injEq] at hj
      subst hj
      exact ⟨q, rfl, hstep⟩
    next => exact ⟨p, hp, .same⟩
  cases h with
  | pool hinner hj hv =>
      refine hset hj (.own (BackendPool.step_cases hv) (fun _ => rfl) ?_)
      rintro rfl
      cases hinner
  | poolBorrow _ hj hv =>
      exact hset hj (.own (BackendPool.step_cases hv) (by simp [BackendPool.Event.inner]) (by simp))
  | shutdownCall hpc hj hv =>
      exact hset hj (.own (BackendPool.step_cases hv) (by simp [BackendPool.Event.inner])
        (fun _ => hpc))
  | @release c k hd p' ok hc _ hj =>
      -- the entry holds the descriptor of the handle
      obtain ⟨x, hx, hexp⟩ := hl.entries c _ _ _ hc rfl
      obtain ⟨q, hq, hk⟩ := entry_eq_some.mp hx
      rw [hj, Option.some.injEq] at hq
      subst hq
      have hheld : x = .held hd.fd.toNat := by
        cases x <;> cases hexp
        rfl
      subst hheld
      have hstep : BackendPool.Step cfg.shared.normalise (s.view hd.poolIndex p') (.release k ok)
          { s.view hd.poolIndex p' with
            callers := p'.callers.set k (.releasing hd.fd.toNat ok) } := .release ok hk
      exact hset hj (.own hstep (by simp [BackendPool.Event.inner]) (by simp))
  | clock | foreignOpen | foreignClose | borrowEmpty | borrow | pickLock | pickFirst | pickNext
  | bump | poolHeld | poolRefused | count | compensate | releaseNothing | releaseInvalid
  | releaseReturn | decrement | shutdown | shutdownNext | shutdownReturn => exact ⟨p, hp, .same⟩

/-- The same from the state after the step. -/
theorem pool_source (h : Step cfg s e s') (hl : Linked s) {q : BackendPool.Pool}
    (hq : s'.pools[i]? = some q) : ∃ p, s.pools[i]? = some p ∧ PoolStep cfg s e i p q := by
  have hlt : i < s.pools.length := length_pools_step h ▸ lt_of_getElem? hq
  have hp := List.getElem?_eq_getElem hlt
  obtain ⟨q', hq', hstep⟩ := pool_step h hl hp
  rw [hq, Option.some.injEq] at hq'
  subst hq'
  exact ⟨_, hp, hstep⟩

/-! ## Entries and loads -/

/-- What the caller adds to `in_flight_[i]`, as a natural number. -/
def Caller.onBackend (i : Nat) (c : Caller) : Nat := if c.backend = some i then 1 else 0

theorem Caller.backend_of_ticket {c : Caller} {i k : Nat} (h : c.ticket = some (i, k)) :
    c.backend = some i := by
  cases c <;> simp_all [ticket, backend]

theorem Accounted.inFlight_eq (h : Accounted cfg s) (i : Nat) :
    s.inFlight i = (total (Caller.onBackend i) s.callers : Nat) := by
  rw [h.loads, natCast_total (g := Caller.load i)]
  intro c _
  simp only [Caller.onBackend, Caller.load]
  split <;> rfl

/-- Every entry that leases or waits has a caller of its own that counts on the backend. -/
theorem Linked.entries_le (hl : Linked s) (hp : s.pools[i]? = some p) :
    total (fun c => c.leases + c.waits) p.callers ≤ total (Caller.onBackend i) s.callers := by
  apply total_le_total
    (fun k c => ∃ caller, s.callers[c]? = some caller ∧ caller.ticket = some (i, k))
  · intro k a hk hne
    have hentry : s.entry i k = some a := entry_eq_some.mpr ⟨p, hp, hk⟩
    have hlive : ¬ Finished a.phase := by
      rintro (h | h)
      · exact a.not_over hne |>.1 h
      · exact a.not_over hne |>.2 h
    obtain ⟨c, caller, hc, ht⟩ := hl.covered i k a hentry hlive
    refine ⟨c, caller, hc, ?_, caller, hc, ht⟩
    rw [Caller.onBackend, if_pos (Caller.backend_of_ticket ht)]
    exact a.leases_add_waits_le
  · rintro k k' c ⟨caller, hc, ht⟩ ⟨caller', hc', ht'⟩
    rw [hc, Option.some.injEq] at hc'
    subst hc'
    rw [ht, Option.some.injEq, Prod.mk.injEq] at ht'
    exact ht'.2

/-- The connections of a backend that are in use, together with the borrowers that wait for
one, are at most the load that picks see. -/
theorem demand_le (h : (machine cfg).Reachable s) (hp : s.pools[i]? = some p) :
    (p.demand : Int) ≤ s.inFlight i := by
  have hinUse : p.inUse = total BackendPool.Caller.leases p.callers :=
    BackendPool.reachable_inUse (reachable_view h i p hp)
  rw [(reachable_accounted h).inFlight_eq, BackendPool.Pool.demand, hinUse, ← total_add,
    Int.ofNat_le]
  exact (reachable_linked h).entries_le hp

/-! ## Pools without waiting -/

/-- No borrower of any pool waits. -/
def State.Prompt (s : State) : Prop :=
  ∀ (i : Nat) (p : BackendPool.Pool), s.pools[i]? = some p → ∀ c ∈ p.callers, c.Prompt

/-- As long as no backend carries more load than its pool may have connections. -/
theorem State.prompt_step (h : Step cfg s e s') (hs : (machine cfg).Reachable s)
    (hload : ∀ i < cfg.count, s.inFlight i ≤ cfg.shared.normalise.maxSize) (hc : s.Prompt) :
    s'.Prompt := by
  intro i q hq
  obtain ⟨p, hp, hstep⟩ := pool_source h (reachable_linked hs) hq
  cases hstep with
  | same => exact hc i _ hp
  | own hv =>
      refine BackendPool.prompt_step hv ?_ (hc i p hp)
      intro c hmem d hd
      -- the borrower itself is part of the load
      have hdemand := demand_le hs hp
      have hmax := hload i (length_pools hs ▸ lt_of_getElem? hp)
      have hwaits := le_total BackendPool.Caller.waits hmem
      rw [BackendPool.Caller.waits_of_atLock hd] at hwaits
      have hle : p.inUse + 1 ≤ p.demand := Nat.add_le_add_left hwaits _
      show p.inUse < _
      omega

end InferenceRouter.BackendSet
