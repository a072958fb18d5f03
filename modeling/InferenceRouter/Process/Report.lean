import InferenceRouter.BackendSet.Borrows
import InferenceRouter.Metrics.Snapshot
import InferenceRouter.Process.Exit

/-!
# The last line of the log

Before it returns, main logs `metrics.snapshot_string()`.  At that moment the workers are
joined and the backend set is shut down, so the counters of all three layers have come to
rest: the router's `accepted`, `completed` and `errored`, the pools' `pool_borrows` and
`pool_creates`, and the set's `handled_`, which is not printed.  The line can be read back, and
what is read balances (`final_report`).
-/

namespace InferenceRouter.BackendPool

open Interleaving

variable {s : State}

/-- When every caller is through, what was dialled is counted, and was borrowed. -/
theorem State.Metered.creates_le (hm : s.Metered) (hd : s.toPool.Dialled)
    (hdone : ∀ c ∈ s.callers, c.done = true) :
    s.creates = s.dials ∧ s.creates ≤ s.borrows := by
  have huncounted : total Caller.uncounted s.callers = 0 := by
    refine total_eq_zero _ (fun c hc => ?_)
    have hc := hdone c hc
    cases c <;> simp_all [Caller.done, Caller.uncounted]
  have hconnected : total Caller.connected s.callers = total Caller.borrowed s.callers := by
    refine total_congr _ (fun c hc => ?_)
    have hc := hdone c hc
    cases c <;> simp_all [Caller.done, Caller.connected, Caller.borrowed]
  have hcreates := hm.creates_eq
  have hborrows := hm.borrows_eq
  have hdials : s.dials ≤ total Caller.connected s.callers := hd
  omega

end InferenceRouter.BackendPool

namespace InferenceRouter.Process

open Interleaving
open CommandLine (Args)

variable {cfg : Config} {s : State}

/-- `metrics`, as `snapshot_string` loads it.  All pools count in the same object. -/
def State.metrics (s : State) : Metrics.Snapshot where
  accepted := .ofNat s.router.metrics.accepted
  completed := .ofNat s.router.metrics.completed
  errored := .ofNat s.router.metrics.errored
  dropped := .ofNat s.router.metrics.dropped
  inFlight := s.router.metrics.loadInFlight
  poolBorrows := .ofNat (total BackendPool.Pool.borrows s.backends.pools)
  poolCreates := .ofNat (total BackendPool.Pool.creates s.backends.pools)

/-- When the workers have been joined, the pools together have counted as many borrows as
the set has counted handles, and no more dials than that. -/
theorem borrows_of_poolStopped (h : (machine cfg).Reachable s)
    (hmetrics : cfg.backends.shared.metrics = true) (hm : s.router.main.poolStopped = true) :
    total BackendPool.Pool.borrows s.backends.pools =
        ∑ i ∈ Finset.range cfg.backends.count, s.backends.handled i ∧
      total BackendPool.Pool.creates s.backends.pools =
        total BackendPool.Pool.dials s.backends.pools ∧
      total BackendPool.Pool.creates s.backends.pools ≤
        total BackendPool.Pool.borrows s.backends.pools := by
  have hbackends := (backendsView cfg).reachable h
  have hover := over_of_poolStopped h hm
  have hpool : ∀ (i : Nat) (p : BackendPool.Pool), s.backends.pools[i]? = some p →
      p.creates = p.dials ∧ p.creates ≤ p.borrows := by
    intro i p hp
    have hview := BackendSet.reachable_view hbackends i p hp
    exact (BackendPool.reachable_metered hmetrics hview).creates_le
      (BackendPool.reachable_dialled hview)
      ((BackendSet.reachable_linked hbackends).done_of_over hover hp)
  refine ⟨?_, ?_, ?_⟩
  · rw [total_eq_sum_range, BackendSet.length_pools hbackends]
    refine Finset.sum_congr rfl (fun i hi => ?_)
    have hlt : i < s.backends.pools.length := by
      rw [BackendSet.length_pools hbackends]
      exact Finset.mem_range.mp hi
    rw [List.getElem?_eq_getElem hlt]
    exact BackendSet.handled_eq hbackends hmetrics hover (List.getElem?_eq_getElem hlt)
  · refine total_congr _ (fun p hp => ?_)
    obtain ⟨i, hi⟩ := List.mem_iff_getElem?.mp hp
    exact (hpool i p hi).1
  · rw [total_eq_sum_range, total_eq_sum_range]
    refine Finset.sum_le_sum (fun i _ => ?_)
    cases hp : s.backends.pools[i]? with
    | none => exact le_rfl
    | some p => exact (hpool i p hp).2

/-- For every command line and in every state in which main is about to log its last line,
if fewer than `2 ^ 64` clients were accepted: whoever reads the line finds the counters in it;
`accepted` is the number of clients that `accept4` returned, each of them completed or
errored, and none is in flight; `pool_borrows` is the number of handles that the set has given
away, between `completed` and `accepted`; and `pool_creates` is the number of connections that
were dialled, at most `pool_borrows`. -/
theorem final_report (args : Args) {s : State} (h : (machine (.ofArgs args)).Reachable s)
    (hfinal : s.router.main = .logFinal) (hclients : s.router.clients.length < 2 ^ 64) :
    ∃ completed errored dropped borrows creates,
      Fields.readLine (Metrics.snapshotString s.metrics) =
        [("accepted", s.router.clients.length), ("completed", completed), ("errored", errored),
          ("dropped", dropped), ("in_flight", 0), ("pool_borrows", borrows),
          ("pool_creates", creates)] ∧
      completed + errored = s.router.clients.length ∧
      completed ≤ borrows ∧ borrows ≤ s.router.clients.length ∧ creates ≤ borrows ∧
      borrows = ∑ i ∈ Finset.range args.backendSet.count, s.backends.handled i ∧
      creates = total BackendPool.Pool.dials s.backends.pools := by
  have hrouter := (routerView (.ofArgs args)).reachable h
  have hm : s.router.main.poolStopped = true := by rw [hfinal]; rfl
  have hsettled := Router.settled_of_poolStopped hrouter hm
  obtain ⟨hborrows, hcreates, hle⟩ := borrows_of_poolStopped h rfl hm
  have hcompleted := completed_le_sum_handled h
  have hhandled := (sum_handled_le_callers h).trans (callers_le_popped h)
  have hpopped := hsettled.popped.length_eq
  have haccepted := hsettled.accepted
  have hsum := hsettled.settled
  have hinFlight : s.router.metrics.inFlight = 0 :=
    (Router.reachable_routed hrouter).inFlight_eq_zero (Router.quiescent_of_exited hsettled.exited)
  rw [List.length_range] at hpopped
  have hload : ∀ n ≤ s.router.clients.length, (UInt64.ofNat n).toNat = n := by
    intro n hn
    rw [UInt64.toNat_ofNat']
    exact Nat.mod_eq_of_lt (by omega)
  refine ⟨s.router.metrics.completed, s.router.metrics.errored,
    (UInt64.ofNat s.router.metrics.dropped).toNat, total BackendPool.Pool.borrows s.backends.pools,
    total BackendPool.Pool.creates s.backends.pools, ?_, by omega, by omega, ?_, hle, hborrows,
    hcreates⟩
  · rw [Metrics.readLine_snapshotString]
    simp only [Metrics.Snapshot.fields, State.metrics]
    rw [haccepted, hload _ le_rfl, hload s.router.metrics.completed (by omega),
      hload s.router.metrics.errored (by omega),
      hload (total BackendPool.Pool.borrows s.backends.pools) (by omega),
      hload (total BackendPool.Pool.creates s.backends.pools) (by omega),
      Router.Metrics.loadInFlight, hinFlight]
    rfl
  · omega

/-- Main is about to log its last line, after one client. -/
def State.reporting (s : State) : Bool :=
  match s.router.main, s.router.clients with
  | .logFinal, [_] => true
  | _, _ => false

theorem final_report_servedAndStopped : ∃ s completed errored dropped borrows creates,
    (machine (.ofArgs spareBackendArgs)).run servedAndStopped.dropLast = some s ∧
      s.router.main = .logFinal ∧
      Fields.readLine (Metrics.snapshotString s.metrics) =
        [("accepted", 1), ("completed", completed), ("errored", errored), ("dropped", dropped),
          ("in_flight", 0), ("pool_borrows", borrows), ("pool_creates", creates)] ∧
      completed + errored = 1 ∧ creates ≤ borrows := by
  have hrun : ((machine (.ofArgs spareBackendArgs)).run servedAndStopped.dropLast).any
      State.reporting = true := by decide +kernel
  obtain ⟨s, hs, hreporting⟩ := (Option.any_eq_true _ _).mp hrun
  unfold State.reporting at hreporting
  split at hreporting
  next c hmain hclients =>
    have hone : s.router.clients.length = 1 := by
      rw [hclients]
      rfl
    have h := @final_report spareBackendArgs s ⟨_, hs⟩ hmain (by omega)
    rw [hone] at h
    obtain ⟨completed, errored, dropped, borrows, creates, hread, hsum, -, -, hle, -, -⟩ := h
    exact ⟨s, completed, errored, dropped, borrows, creates, hs, hmain, hread, hsum, hle⟩
  next => cases hreporting

end InferenceRouter.Process
