import InferenceRouter.BackendSet.Spread
import InferenceRouter.Process.Capacity

/-!
# Backends that are never used

While a thread picks, the other workers together count on fewer backends than there are
workers (`sum_inFlight_lt`).  So with `n` workers one of the first `n` backends has no load
when the pick reads it, and no pick gets past it: backends from the `n`-th on are never
chosen, never dialled and never handle a request, whatever their weights are
(`spare_backends_unused`).
-/

namespace InferenceRouter.Process

open Interleaving Handler
open CommandLine (Args Libc Opt parseArgs IsWeight)

variable {cfg : Config} {s s' : State} {e : Event}

/-- Callers that count on a backend or hold `pick_mu_` have workers of their own. -/
theorem engaged_le (hl : Leased s) (ha : BackendSet.Accounted cfg.backends s.backends)
    (hr : Router.Routed cfg.router s.router) :
    ∑ i ∈ Finset.range cfg.backends.count, s.backends.inFlight i +
      (total BackendSet.Caller.inPick s.backends.callers : Nat) ≤ s.router.metrics.inFlight := by
  have hsum : ∑ i ∈ Finset.range cfg.backends.count, s.backends.inFlight i =
      ((total counts s.backends.callers : Nat) : Int) := by
    rw [natCast_total (fun c hc => (sum_load (ha.placed c hc)).symm), ← sum_total]
    exact Finset.sum_congr rfl (fun i _ => ha.loads i)
  rw [hsum, hr.inFlight_eq, ← Nat.cast_add, ← total_add, Int.ofNat_le]
  apply total_le_total (fun c w => (s.leases w).caller = some c)
  · intro c a hc hne
    have hover : a.stage.over = false := by
      by_contra hover
      have hnone := BackendSet.Caller.backend_of_over (by simpa using hover)
      cases a <;> simp_all [counts, BackendSet.Caller.inPick, BackendSet.Caller.stage,
        BackendSet.Stage.over]
    obtain ⟨w, hw⟩ :=
      hl.covered c a.stage (by rw [BackendSet.State.stage, hc, Option.map_some]) hover
    obtain ⟨t, ht, hpresent⟩ := (hl.suits w).present hw
    refine ⟨w, .running t, ht, ?_, hw⟩
    have hone : counts a + a.inPick ≤ 1 := by
      cases a <;> simp [counts, BackendSet.Caller.inPick, BackendSet.Caller.backend]
    simp only [ThreadPool.Worker.weight, Tally.present] at hpresent ⊢
    omega
  · intro c c' w hc hc'
    rw [hc, Option.some.injEq] at hc'
    exact hc'

/-- While a thread picks, the others count on fewer backends than there are workers. -/
theorem sum_inFlight_lt (h : (machine cfg).Reachable s) {c : Nat} {a : BackendSet.Caller}
    (hc : s.backends.callers[c]? = some a) (hpick : a.inPick = 1) :
    ∑ i ∈ Finset.range cfg.backends.count, s.backends.inFlight i < cfg.workerCount := by
  have hrouter := (routerView cfg).reachable h
  have hengaged := engaged_le (reachable_leased h)
    (BackendSet.reachable_accounted ((backendsView cfg).reachable h))
    (Router.reachable_routed hrouter)
  have hle := le_total BackendSet.Caller.inPick (List.mem_of_getElem? hc)
  have hmetrics : s.router.metrics.inFlight ≤ cfg.workerCount := metrics_le hrouter
  omega

/-- The products of every comparison fit, for weights of a command line and fewer than
`2 ^ 31` workers. -/
theorem reachable_fits (hcfg : cfg.workerCount < 2 ^ 31)
    (hweights : ∀ i < cfg.backends.count, IsWeight (cfg.backends.weight i))
    (h : (machine cfg).Reachable s) (c : Nat) (p : BackendSet.Pick)
    (hc : s.backends.callers[c]? = some (.picking p))
    (hlen : p.reads.length < cfg.backends.count) :
    p.Fits (cfg.backends.weight p.reads.length) (s.backends.load p.reads.length) := by
  have hcfg' : cfg.workerCount < 2 ^ 64 := by omega
  obtain ⟨hbest, j, hj, hweight⟩ := reachable_picksWithin hcfg' h c p hc
  have hload := reachable_load hcfg' h hlen
  have hbestWeight := (hweights j hj).2
  have hcandWeight := (hweights _ hlen).2
  refine BackendSet.Pick.fits_of_bounds (by omega) (by omega) ?_ (by omega)
  rw [hweight]
  exact hbestWeight.trans (by omega)

theorem reachable_sparse (hcfg : cfg.workerCount < 2 ^ 31)
    (hweights : ∀ i < cfg.backends.count, IsWeight (cfg.backends.weight i))
    (h : (machine cfg).Reachable s) : s.backends.Sparse cfg.backends cfg.workerCount := by
  refine Machine.Reachable.invariant_with
    (P := fun t : State => t.backends.Sparse cfg.backends cfg.workerCount)
    (fun _ ht => ht) ?_ ?_ h
  · intro c p hc
    cases hc
  · intro t e t' ht hs hstep
    rcases backends_step (step_cases hstep) with hsame | ⟨e', hx⟩
    · rw [hsame]
      exact hs
    · refine BackendSet.sparse_step (BackendSet.step_cases hx)
        (BackendSet.reachable_accounted ((backendsView cfg).reachable ht))
        (reachable_fits hcfg hweights ht) ?_ (fun c hc => sum_inFlight_lt ht hc rfl) hs
      intro i hi
      obtain ⟨hnonneg, hle, -⟩ := reachable_inFlight ht
      have hlt := hle i hi
      exact BackendSet.State.toNat_load (hnonneg i) (by omega)

theorem reachable_confined (hcfg : cfg.workerCount < 2 ^ 31)
    (hweights : ∀ i < cfg.backends.count, IsWeight (cfg.backends.weight i))
    (h : (machine cfg).Reachable s) : BackendSet.Confined cfg.workerCount s.backends := by
  refine Machine.Reachable.invariant_with
    (P := fun t : State => BackendSet.Confined cfg.workerCount t.backends)
    (fun _ ht => ht) (BackendSet.confined_init _ _) ?_ h
  intro t e t' ht hc hstep
  rcases backends_step (step_cases hstep) with hsame | ⟨e', hx⟩
  · rw [hsame]
    exact hc
  · refine BackendSet.confined_step (BackendSet.step_cases hx) ?_ hc
    intro c p hp hdone
    have ha := BackendSet.reachable_accounted ((backendsView cfg).reachable ht)
    have hle := (ha.placed _ (List.mem_of_getElem? hp)).2
    exact (reachable_sparse hcfg hweights ht).best_lt hp (le_antisymm hle hdone)

/-- For every accepted command line, in every state of the process: a backend whose index
is not below the number of worker threads has no load, has handled nothing, and its pool
has never been called and has never dialled, whatever the weights are. -/
theorem spare_backends_unused (libc : Libc) {opts : List Opt} {args : Args}
    (hargs : parseArgs libc opts = .ok args) (hint : args.threads < 2 ^ 31) {s : State}
    (h : (machine (.ofArgs args)).Reachable s) {j : Nat} (hj : max args.threads 1 ≤ j) :
    s.backends.inFlight j = 0 ∧ s.backends.handled j = 0 ∧
      ∀ p, s.backends.pools[j]? = some p → p.callers = [] ∧ p.dials = 0 := by
  have hcount := workerCount_ofArgs args
  have hcfg : (Config.ofArgs args).workerCount < 2 ^ 31 := by omega
  have hconfined := reachable_confined hcfg
    (fun i hi => CommandLine.weight_of_specs (CommandLine.parseArgs_weights hargs) hi) h
  rw [hcount] at hconfined
  have ha := BackendSet.reachable_accounted ((backendsView _).reachable h)
  obtain ⟨hload, hhandled⟩ := hconfined.unused ha hj
  exact ⟨hload, hhandled, fun p hp => hconfined.pools j p hj hp⟩

/-- `--backend a:9001 --backend b:9002:1000 --threads 1`. -/
def spareBackend : List Opt :=
  [.backend "a:9001".toList, .backend "b:9002:1000".toList, .threads "1".toList]

def spareBackendArgs : Args where
  backends := [{ host := "a", port := 9001 }, { host := "b", port := 9002, weight := 1000 }]
  threads := 1

/-- A request has picked its backend. -/
def oneRequest : List Event :=
  [.router .acceptor, .router (.epollWait (.ok [.listen])), .router .acceptor,
    .router (.accept4 (.ok 7)), .router .acceptor, .router .acceptor,
    .router (.pool (.submitLock 0 none)), .router (.pool (.workerLock 0 none)),
    .router (.handlerCall 0 .incInFlight ()),
    .router (.handlerCall 0 (.readMessage .client (16 * 1024 * 1024) 5000) (.kOk, [])), .borrow 0,
    .backends (.pickLock 0), .backends (.pickLoad 0), .backends (.pickLoad 0), .backends (.bump 0)]

theorem spare_backends_unused_oneRequest :
    parseArgs .wrapping spareBackend = .ok spareBackendArgs ∧
      ∃ s, (machine (.ofArgs spareBackendArgs)).run oneRequest = some s ∧
        s.backends.inFlight 0 = 1 ∧ s.backends.inFlight 1 = 0 ∧ s.backends.handled 1 = 0 := by
  have hargs : parseArgs .wrapping spareBackend = .ok spareBackendArgs := rfl
  refine ⟨hargs, _, rfl, rfl, ?_⟩
  have h := @spare_backends_unused .wrapping _ _ hargs (by decide) _ ⟨oneRequest, rfl⟩ 1
    (by decide)
  exact ⟨h.1, h.2.1⟩

end InferenceRouter.Process
