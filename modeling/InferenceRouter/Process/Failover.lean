import InferenceRouter.Process.Books

/-!
# Backends that cannot be dialled

A pick looks at loads and weights only.  A backend that refuses connections has no load
most of the time, so it stays attractive.  With `n` worker threads picks never get past
the first `n` backends, and if none of those can be dialled, no request is ever completed,
whether or not there are other backends that would answer (`no_failover`).
-/

namespace InferenceRouter.BackendPool

open Interleaving

variable {o : Options} {s s' : State} {e : Event}

/-- Only a successful dial is counted in `dials`. -/
theorem dials_step (h : Step o s e s') :
    s'.dials = s.dials ∨
      s'.dials = s.dials + 1 ∧ ∃ i fd, e = .dialOk i fd ∧ s.callers[i]? = some .dialing := by
  cases h with
  | dialOk hi => exact .inr ⟨rfl, _, _, rfl, hi⟩
  | clock | foreignOpen | foreignClose | borrow | borrowAbort | borrowIdle | borrowDial
  | borrowSleep | borrowTimeout | borrowSpurious | dialFail | dialFailLock | incPoolCreate
  | incPoolBorrow | release | sample | releaseKeep | releaseDrop | releaseClose | shutdownAgain
  | shutdown | shutdownClose | shutdownUnlock | shutdownNotify | shutdownReturn | reaperExit
  | reaperWait | sweep | pushBack | closeVictim | victimsClosed | startPings | pingsDone
  | closeDead | deadClosed | pingOk | pingFail => exact .inl rfl

/-- A pool that has dialled nothing owns nothing. -/
theorem owned_of_undialled (hl : s.Ledger) (hd : s.dials = 0) : s.owned = 0 := by
  have hconns := congrArg Multiset.card hl.1.conns
  rw [Multiset.card_add, Multiset.card_map, hd, Multiset.card_range] at hconns
  exact Multiset.card_eq_zero.mp (by omega)

end InferenceRouter.BackendPool

namespace InferenceRouter.BackendSet

open Interleaving

variable {cfg : Config} {s s' : State} {e : Event}

/-- No dial of any pool has succeeded. -/
def State.Undialled (s : State) : Prop :=
  ∀ (i : Nat) (p : BackendPool.Pool), s.pools[i]? = some p → p.dials = 0

/-- What a step does to the dials of a pool. -/
theorem pool_dials_step (h : Step cfg s e s') (hl : Linked s) {i : Nat} {q : BackendPool.Pool}
    (hq : s'.pools[i]? = some q) :
    ∃ p, s.pools[i]? = some p ∧ (q.dials = p.dials ∨ q.dials = p.dials + 1 ∧
      ∃ k fd, e = .pool i (.dialOk k fd) ∧ p.callers[k]? = some .dialing) := by
  obtain ⟨p, hp, hstep⟩ := pool_source h hl hq
  refine ⟨p, hp, ?_⟩
  cases hstep with
  | same => exact .inl rfl
  | own hv hinner =>
      rcases BackendPool.dials_step hv with hsame | ⟨hmore, k, fd, rfl, hk⟩
      · exact .inl hsame
      · exact .inr ⟨hmore, k, fd, hinner rfl, hk⟩

/-- Dials are never taken back. -/
theorem undialled_of_step (h : Step cfg s e s') (hl : Linked s) (hu : s'.Undialled) :
    s.Undialled := by
  intro i p hp
  obtain ⟨q, hq, -⟩ := pool_step h hl hp
  obtain ⟨p', hp', hdials⟩ := pool_dials_step h hl hq
  rw [hp, Option.some.injEq] at hp'
  subst hp'
  have hzero := hu i q hq
  omega

/-- Without a dial no pool has lent anything. -/
theorem not_borrowed_of_undialled (h : (machine cfg).Reachable s) (hu : s.Undialled)
    {c i k fd : Nat} : s.callers[c]? ≠ some (.borrowed i k fd) := by
  intro hc
  obtain ⟨a, hentry, hheld⟩ := (reachable_linked h).entries c _ i k hc rfl
  obtain ⟨p, hp, hk⟩ := entry_eq_some.mp hentry
  have hview := reachable_view h i p hp
  have howned := BackendPool.owned_of_undialled (BackendPool.reachable_ledger hview) (hu i p hp)
  have hfds : total BackendPool.Caller.fds p.callers = 0 := by
    have hparts : BackendPool.fdsOf p.idle + BackendPool.fdsOf p.reaper.slots +
        total BackendPool.Caller.fds p.callers = 0 := howned
    exact (add_eq_zero.mp hparts).2
  have hset := total_set BackendPool.Caller.fds .released hk
  rw [hfds] at hset
  have hnone : a.fds = 0 := (add_eq_zero.mp (hset.trans (by rfl))).2
  cases a <;> simp_all [Caller.Expects, BackendPool.Caller.phase, BackendPool.Caller.fds]

/-- Without a dial nobody is given a handle. -/
theorem given_of_undialled (h : (machine cfg).Reachable s) (hu : s.Undialled) :
    total Caller.given s.callers = 0 := by
  refine Machine.Reachable.invariant_with
    (P := fun t : State => t.Undialled → total Caller.given t.callers = 0)
    (fun _ ht => ht) (fun _ => rfl) ?_ h hu
  intro t e t' ht hzero hstep hu'
  have hstep : Step cfg t e t' := step_cases hstep
  have hu := undialled_of_step hstep (reachable_linked ht) hu'
  have hold := hzero hu
  have hset : ∀ {c : Nat} {a : Caller} (b : Caller), t.callers[c]? = some a →
      a.given = b.given → total Caller.given (t.callers.set c b) = 0 := by
    intro c a b hc hab
    rw [total_set_of_eq _ hc hab, hold]
  cases hstep with
  | count hc => exact absurd hc (not_borrowed_of_undialled ht hu)
  | borrowEmpty | borrow => simp [hold, Caller.given]
  | clock | foreignOpen | foreignClose | pool | shutdown | shutdownCall | shutdownNext
  | shutdownReturn => exact hold
  | pickLock hc | pickFirst hc | pickNext hc | bump hc | poolBorrow hc | poolHeld hc
  | poolRefused hc | compensate hc | releaseNothing _ hc | releaseInvalid _ hc | release _ hc
  | releaseReturn hc | decrement hc => exact hset _ hc rfl

end InferenceRouter.BackendSet

namespace InferenceRouter.Process

open Interleaving
open CommandLine (Args Libc Opt parseArgs)

variable {cfg : Config} {s s' : State} {e : Event}

/-- A dial of backend `i` succeeds. -/
def Event.dials (i : Nat) (e : Event) : Prop := ∃ k fd, e = .backends (.pool i (.dialOk k fd))

theorem undialled_step {n : Nat} (h : Step cfg s e s') (hl : BackendSet.Linked s.backends)
    (hc : BackendSet.Confined n s.backends) (he : ∀ i < n, ¬ e.dials i)
    (hu : s.backends.Undialled) : s'.backends.Undialled := by
  have hset : ∀ {x : BackendSet.State} {e' : BackendSet.Event},
      BackendSet.Step cfg.backends s.backends e' x →
      (∀ i k fd, e' = .pool i (.dialOk k fd) → e.dials i) → x.Undialled := by
    intro x e' hx hdial i q hq
    obtain ⟨p, hp, hsame | ⟨-, k, fd, heq, hk⟩⟩ := BackendSet.pool_dials_step hx hl hq
    · rw [hsame]
      exact hu i p hp
    · -- a backend that is dialled is one of the first, since the others have no callers
      rcases Nat.lt_or_ge i n with hlt | hge
      · exact absurd (hdial i k fd heq) (he i hlt)
      · rw [(hc.pools i p hge hp).1] at hk
        simp at hk
  cases h with
  | clock => exact hu
  | backends _ hx =>
      refine hset (BackendSet.step_cases hx) ?_
      rintro i k fd rfl
      exact ⟨k, fd, rfl⟩
  | borrow _ _ hx | release _ _ _ hx | shutdown _ _ hx =>
      exact hset (BackendSet.step_cases hx) (fun i k fd heq => by cases heq)
  | router | borrowed | borrowFailed | released | shutdownReturn => exact hu

/-- For every accepted command line and every schedule in which no dial of the first
backends succeeds, as many as there are worker threads, no request is completed. -/
theorem no_failover (libc : Libc) {opts : List Opt} {args : Args}
    (hargs : parseArgs libc opts = .ok args) (hint : args.threads < 2 ^ 31) {es : List Event}
    {s : State} (hrun : (machine (.ofArgs args)).run es = some s)
    (hdead : ∀ i < max args.threads 1, ∀ e ∈ es, ¬ e.dials i) :
    s.router.metrics.completed = 0 := by
  have hcount := workerCount_ofArgs args
  have hcfg : (Config.ofArgs args).workerCount < 2 ^ 31 := by omega
  have hweights := fun i hi =>
    CommandLine.weight_of_specs (CommandLine.parseArgs_weights hargs) (i := i) hi
  have hreach : (machine (.ofArgs args)).Reachable s := ⟨es, hrun⟩
  have hmeets : (machine (.ofArgs args)).Meets
      (fun _ e => ∀ i < (Config.ofArgs args).workerCount, ¬ e.dials i)
      (machine (.ofArgs args)).init es := by
    apply Machine.meets_of_initial
    intro es₁ e t hinitial _ i hi
    rw [hcount] at hi
    exact hdead i hi e (hinitial.subset (by simp))
  have hu : (machine (.ofArgs args)).Reachable s ∧ s.backends.Undialled := by
    refine hmeets.invariant
      (P := fun t => (machine (.ofArgs args)).Reachable t ∧ t.backends.Undialled) ?_
      ⟨.init, ?_⟩ hrun
    · rintro t e t' ⟨ht, hu⟩ hok hstep
      have hlinked := BackendSet.reachable_linked ((backendsView _).reachable ht)
      exact ⟨ht.step hstep,
        undialled_step (step_cases hstep) hlinked (reachable_confined hcfg hweights ht) hok hu⟩
    · intro i p hp
      have hempty : p = {} := List.eq_of_mem_replicate (List.mem_of_getElem? hp)
      rw [hempty]
  obtain ⟨g, hb⟩ := reachable_books hreach
  have hgiven := BackendSet.given_of_undialled ((backendsView _).reachable hreach) hu.2
  have hcompleted := hb.completed
  omega

/-- The dial of the only backend that the worker picks fails, and the client is told so. -/
def deadBackend : List Event :=
  oneRequest ++ [.backends (.poolBorrow 0), .backends (.pool 0 (.borrowLock 0)),
    .backends (.pool 0 (.dialFail 0)), .backends (.pool 0 (.dialFailLock 0 none)),
    .backends (.poolReturn 0), .backends (.compensate 0), .borrowReturn 0,
    .router (.handlerCall 0 (.replyErrorPlain "ERR backend unavailable" 5000) ()),
    .router (.handlerCall 0 .incErrored ())]

theorem no_failover_deadBackend :
    parseArgs .wrapping spareBackend = .ok spareBackendArgs ∧
      ∃ s, (machine (.ofArgs spareBackendArgs)).run deadBackend = some s ∧
        s.router.metrics.errored = 1 ∧ s.router.metrics.completed = 0 := by
  have hargs : parseArgs .wrapping spareBackend = .ok spareBackendArgs := rfl
  have hdead : ∀ i < max spareBackendArgs.threads 1, ∀ e ∈ deadBackend, ¬ e.dials i := by
    rintro i - e he ⟨k, fd, rfl⟩
    simp [deadBackend, oneRequest] at he
  refine ⟨hargs, _, rfl, rfl, ?_⟩
  have h := @no_failover .wrapping _ _ hargs (by decide) deadBackend _ rfl hdead
  exact h

end InferenceRouter.Process
