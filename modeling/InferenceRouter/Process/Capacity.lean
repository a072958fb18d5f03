import InferenceRouter.BackendSet.Capacity
import InferenceRouter.Process.Loads

/-!
# Threads and connections

A worker serves one request at a time, so the number of worker threads bounds everything
that the backends see at once: the connections in use and the borrowers that wait for one,
over all pools (`connections_le`).  If a pool may have as many connections as there are
workers, no `borrow` of the process ever waits on `cv_` or returns with `ETIMEDOUT`
(`borrow_never_waits`).
-/

namespace InferenceRouter.Process

open Interleaving
open CommandLine (Args)

variable {cfg : Config} {s s' : State} {e : Event}

/-- In every state of the process: what the pool of a backend has in use, with the
borrowers that wait there, is at most the load of that backend; over all backends it is at
most `metrics.in_flight()`, and that is at most the number of worker threads. -/
theorem connections_le (cfg : Config) {s : State} (h : (machine cfg).Reachable s) :
    (∀ (i : Nat) (p : BackendPool.Pool), s.backends.pools[i]? = some p →
        (p.demand : Int) ≤ s.backends.inFlight i) ∧
      ((total BackendPool.Pool.demand s.backends.pools : Nat) : Int) ≤
        s.router.metrics.inFlight ∧
      s.router.metrics.inFlight ≤ cfg.workerCount := by
  have hset := (backendsView cfg).reachable h
  have hrouter := (routerView cfg).reachable h
  refine ⟨fun i p hp => BackendSet.demand_le hset hp, ?_, metrics_le hrouter⟩
  refine le_trans ?_ (inFlight_le (reachable_leased h) (BackendSet.reachable_accounted hset)
    (Router.reachable_routed hrouter))
  rw [total_eq_sum_range, Nat.cast_sum, BackendSet.length_pools hset]
  apply Finset.sum_le_sum
  intro i hi
  rw [Finset.mem_range, ← BackendSet.length_pools hset] at hi
  rw [List.getElem?_eq_getElem hi, Option.elim_some]
  exact BackendSet.demand_le hset (List.getElem?_eq_getElem hi)

/-- The first of two requests dials its backend, and the second is still in its pick. -/
def oneDial : List Event :=
  twoRequests ++ [.backends (.poolBorrow 0), .backends (.pool 0 (.borrowLock 0))]

theorem connections_le_oneDial : ∃ s, (machine (.ofArgs twoBackendsArgs)).run oneDial = some s ∧
    total BackendPool.Pool.demand s.backends.pools = 1 ∧ s.router.metrics.inFlight = 2 ∧
      s.router.metrics.inFlight ≤ (Config.ofArgs twoBackendsArgs).workerCount := by
  refine ⟨_, rfl, rfl, rfl, ?_⟩
  have h := @connections_le (.ofArgs twoBackendsArgs) _ ⟨oneDial, rfl⟩
  exact h.2.2

/-! ## Borrowers -/

theorem reachable_prompt (hsize : cfg.workerCount ≤ cfg.backends.shared.normalise.maxSize)
    (h : (machine cfg).Reachable s) : s.backends.Prompt := by
  refine Machine.Reachable.invariant_with (P := fun t : State => t.backends.Prompt)
    (fun _ ht => ht) ?_ ?_ h
  · intro i p hp c hc
    have hempty : p = {} := List.eq_of_mem_replicate (List.mem_of_getElem? hp)
    subst hempty
    cases hc
  · intro t e t' ht hc hstep
    rcases backends_step (step_cases hstep) with hsame | ⟨e', hx⟩
    · rw [hsame]
      exact hc
    · refine BackendSet.State.prompt_step (BackendSet.step_cases hx)
        ((backendsView cfg).reachable ht) ?_ hc
      intro i hi
      have hload := (reachable_inFlight ht).2.1 i hi
      omega

theorem workerCount_ofArgs (args : Args) :
    (Config.ofArgs args).workerCount = max args.threads 1 := by
  have hthreads : (Config.ofArgs args).workerCount = if args.threads = 0 then 1 else args.threads :=
    rfl
  rw [hthreads]
  split <;> omega

/-- If every pool may have as many connections as there are worker threads, then in no
state of the process is a borrower in `cv_.wait_until`, and no `borrow` has failed with
`ETIMEDOUT`. -/
theorem borrow_never_waits (args : Args) (hsize : args.threads ≤ args.poolSize) {s : State}
    (h : (machine (.ofArgs args)).Reachable s) (i : Nat) (p : BackendPool.Pool)
    (hp : s.backends.pools[i]? = some p) :
    ∀ c ∈ p.callers, c.inWait = none ∧ c ≠ .failed .etimedout := by
  refine reachable_prompt ?_ h i p hp
  have hmax : (Config.ofArgs args).backends.shared.normalise.maxSize = max args.poolSize 1 :=
    BackendPool.Options.normalise_maxSize _
  rw [workerCount_ofArgs, hmax]
  omega

theorem borrow_never_waits_oneDial : twoBackendsArgs.threads ≤ twoBackendsArgs.poolSize ∧
    ∃ s p, (machine (.ofArgs twoBackendsArgs)).run oneDial = some s ∧
      s.backends.pools[0]? = some p ∧ p.callers.length = 1 ∧
      ∀ c ∈ p.callers, c.inWait = none ∧ c ≠ .failed .etimedout := by
  refine ⟨by decide, _, _, rfl, rfl, rfl, ?_⟩
  have h := @borrow_never_waits twoBackendsArgs (by decide) _ ⟨oneDial, rfl⟩ 0 _ rfl
  exact h

end InferenceRouter.Process
