import InferenceRouter.BackendSet.Pick
import InferenceRouter.Process.Leases
import InferenceRouter.Router.Drain

/-!
# The load comparison does not overflow

A backend's counter is bounded by what `metrics.in_flight` is: every caller of the set
that counts on a backend belongs to a worker whose run is in flight (`inFlight_le`).  A
worker runs one request at a time, so `metrics.in_flight` is bounded by the number of
workers (`metrics_le`).  The values that a pick has read were counters once, and the
weights are those of the command line.  So the products of `pick_lowest_load_locked_`
stay below `2 ^ 64`, and its comparison is the exact one, in every state of the process as
long as no handler throws (`load_comparison_exact`).  A run that throws stays in flight for
ever, and its worker takes the next request (`metrics_exceed_threads`).
-/

namespace InferenceRouter.Router

/-- `Metrics::in_flight`. -/
def Metrics.loadInFlight (m : Metrics) : UInt64 := .ofNat (m.inFlight % 2 ^ 64).toNat

end InferenceRouter.Router

namespace InferenceRouter.Process

open Interleaving Handler
open CommandLine (Args Libc Opt parseArgs IsWeight)

variable {cfg : Config} {s s' : State} {e : Event}

/-! ## Counters -/

/-- Whether a caller of the set counts on some backend. -/
def counts (c : BackendSet.Caller) : Nat := if c.backend = none then 0 else 1

theorem sum_load {c : BackendSet.Caller} (h : c.Placed cfg.backends) :
    ∑ i ∈ Finset.range cfg.backends.count, c.load i = (counts c : Int) := by
  cases hb : c.backend with
  | none => simp [BackendSet.Caller.load, counts, hb]
  | some k =>
      have hk := h.backend_lt hb
      simp [BackendSet.Caller.load, counts, hb, hk]

/-- Every caller that counts has a worker that is in flight. -/
theorem inFlight_le (hl : Leased s) (ha : BackendSet.Accounted cfg.backends s.backends)
    (hr : Router.Routed cfg.router s.router) :
    ∑ i ∈ Finset.range cfg.backends.count, s.backends.inFlight i ≤ s.router.metrics.inFlight := by
  have hsum : ∑ i ∈ Finset.range cfg.backends.count, s.backends.inFlight i =
      ((total counts s.backends.callers : Nat) : Int) := by
    rw [natCast_total (fun c hc => (sum_load (ha.placed c hc)).symm), ← sum_total]
    exact Finset.sum_congr rfl (fun i _ => ha.loads i)
  rw [hsum, hr.inFlight_eq, Int.ofNat_le]
  apply total_le_total (fun c w => (s.leases w).caller = some c)
  · intro c a hc hne
    have hover : a.stage.over = false := by
      by_contra hover
      have hnone := BackendSet.Caller.backend_of_over (by simpa using hover)
      exact hne (by simp [counts, hnone])
    obtain ⟨w, hw⟩ :=
      hl.covered c a.stage (by rw [BackendSet.State.stage, hc, Option.map_some]) hover
    obtain ⟨t, ht, hpresent⟩ := (hl.suits w).present hw
    refine ⟨w, .running t, ht, ?_, hw⟩
    simp only [counts, ThreadPool.Worker.weight, Tally.present] at hpresent ⊢
    split <;> omega
  · intro c c' w hc hc'
    rw [hc, Option.some.injEq] at hc'
    exact hc'

/-- A worker runs one request at a time. -/
theorem metrics_le (h : (Router.machine cfg.router).Reachable s.router) :
    s.router.metrics.inFlight ≤ cfg.router.poolOptions.normalise.workerCount := by
  have hr := Router.reachable_routed h
  rw [hr.inFlight_eq, ← ThreadPool.reachable_workers ((Router.poolView cfg.router).reachable h),
    Int.ofNat_le]
  apply total_le_length
  intro w hw
  cases w with
  | running t =>
      obtain ⟨-, -, hsound⟩ := hr.jobs.running _ hw t rfl
      have hentered := hsound.entered_le
      simp only [ThreadPool.Worker.weight]
      omega
  | ready | asleep | notified | spurious | exited => exact Nat.zero_le 1

/-! ## What is compared -/

/-- The number of threads of the pool. -/
def Config.workerCount (cfg : Config) : Nat := cfg.router.poolOptions.normalise.workerCount

/-- The counters of a reachable state, one by one. -/
theorem reachable_inFlight (h : (machine cfg).Reachable s) :
    (∀ i, 0 ≤ s.backends.inFlight i) ∧
      (∀ i < cfg.backends.count, s.backends.inFlight i ≤ cfg.workerCount) ∧
      0 ≤ s.router.metrics.inFlight ∧ s.router.metrics.inFlight ≤ cfg.workerCount := by
  have hrouter := (routerView cfg).reachable h
  have hr := Router.reachable_routed hrouter
  have ha := BackendSet.reachable_accounted ((backendsView cfg).reachable h)
  have hle := inFlight_le (reachable_leased h) ha hr
  have hmetrics := metrics_le hrouter
  have hsingle : ∀ i < cfg.backends.count, s.backends.inFlight i ≤ s.router.metrics.inFlight := by
    intro i hi
    have hi' := Finset.mem_range.mpr hi
    exact (Finset.single_le_sum (fun j _ => ha.inFlight_nonneg j) hi').trans hle
  refine ⟨ha.inFlight_nonneg, fun i hi => (hsingle i hi).trans hmetrics, ?_, hmetrics⟩
  rw [hr.inFlight_eq]
  exact Int.natCast_nonneg _

theorem reachable_load (hcfg : cfg.workerCount < 2 ^ 64) (h : (machine cfg).Reachable s) {i : Nat}
    (hi : i < cfg.backends.count) : (s.backends.load i).toNat ≤ cfg.workerCount := by
  obtain ⟨hnonneg, hle, -⟩ := reachable_inFlight h
  have hload := BackendSet.State.toNat_load (hnonneg i)
    ((hle i hi).trans_lt (by exact_mod_cast hcfg))
  have := hle i hi
  omega

/-- The set moves by its own steps. -/
theorem backends_step (h : Step cfg s e s') :
    s'.backends = s.backends ∨
      ∃ e', BackendSet.step cfg.backends s.backends e' = some s'.backends := by
  cases h with
  | clock ms => exact .inr ⟨.clock ms, rfl⟩
  | backends _ hx | borrow _ _ hx | release _ _ _ hx | shutdown _ _ hx => exact .inr ⟨_, hx⟩
  | router | borrowed | borrowFailed | released | shutdownReturn => exact .inl rfl

theorem reachable_picksWithin (hcfg : cfg.workerCount < 2 ^ 64) (h : (machine cfg).Reachable s) :
    s.backends.PicksWithin cfg.backends cfg.workerCount := by
  refine Machine.Reachable.invariant_with
    (P := fun t => t.backends.PicksWithin cfg.backends cfg.workerCount)
    (fun _ ht => ht) ?_ ?_ h
  · intro c p hc
    cases hc
  · intro t e t' ht hp hstep
    rcases backends_step (step_cases hstep) with hsame | ⟨e', hx⟩
    · rw [hsame]
      exact hp
    · exact BackendSet.picksWithin_step (BackendSet.step_cases hx)
        (BackendSet.reachable_accounted ((backendsView cfg).reachable ht))
        (fun i hi => reachable_load hcfg ht hi) hp

/-! ## The comparison -/

/-- Why the cross-multiplication of `pick_lowest_load_locked_` is safe. -/
structure LoadsFit (args : Args) (s : State) : Prop where
  inFlight_le : ∑ i ∈ Finset.range args.backendSet.count, (s.backends.load i).toNat ≤
    s.router.metrics.loadInFlight.toNat
  metrics_le : s.router.metrics.loadInFlight.toNat ≤ args.threads
  weights : ∀ i < args.backendSet.count, IsWeight (args.backendSet.weight i)
  /-- The products of the comparison with the next backend. -/
  products : ∀ (c : Nat) (p : BackendSet.Pick), s.backends.callers[c]? = some (.picking p) →
    p.reads.length < args.backendSet.count →
    p.Fits (args.backendSet.weight p.reads.length) (s.backends.load p.reads.length)
  exact : ∀ (c : Nat) (p : BackendSet.Pick), s.backends.callers[c]? = some (.picking p) →
    p.reads.length < args.backendSet.count →
    (s.backends.load p.reads.length * p.bestWeight <
        p.bestInFlight * args.backendSet.weight p.reads.length ↔
      (s.backends.load p.reads.length).toNat * p.bestWeight.toNat <
        p.bestInFlight.toNat * (args.backendSet.weight p.reads.length).toNat)

theorem reachable_loadsFit (libc : Libc) {opts : List Opt} {args : Args}
    (hargs : parseArgs libc opts = .ok args) (hpos : 0 < args.threads)
    (hint : args.threads < 2 ^ 31) {s : State} (h : (machine (.ofArgs args)).Reachable s) :
    LoadsFit args s := by
  have hcount : (Config.ofArgs args).workerCount = args.threads := if_neg (Nat.ne_of_gt hpos)
  have hcfg : (Config.ofArgs args).workerCount < 2 ^ 64 := by omega
  have hweights : ∀ i < args.backendSet.count, IsWeight (args.backendSet.weight i) :=
    fun i hi => CommandLine.weight_of_specs (CommandLine.parseArgs_weights hargs) hi
  have hfits : ∀ (c : Nat) (p : BackendSet.Pick), s.backends.callers[c]? = some (.picking p) →
      p.reads.length < args.backendSet.count →
      p.Fits (args.backendSet.weight p.reads.length) (s.backends.load p.reads.length) := by
    intro c p hc hlen
    obtain ⟨hbest, j, hj, hweight⟩ := reachable_picksWithin hcfg h c p hc
    have hload := reachable_load hcfg h hlen
    have hbestWeight := (hweights j hj).2
    have hcandWeight := (hweights _ hlen).2
    refine BackendSet.Pick.fits_of_bounds (by omega) (by omega) ?_ (by omega)
    rw [hweight]
    exact hbestWeight.trans (by omega)
  obtain ⟨hnonneg, hle, hmetricsNonneg, hmetricsLe⟩ := reachable_inFlight h
  have hmetrics : (s.router.metrics.loadInFlight.toNat : Int) = s.router.metrics.inFlight :=
    BackendSet.toNat_ofNat_emod hmetricsNonneg (by omega)
  constructor
  case inFlight_le =>
    have hsum := inFlight_le (reachable_leased h)
      (BackendSet.reachable_accounted ((backendsView _).reachable h))
      (Router.reachable_routed ((routerView _).reachable h))
    have hloads :
        ((∑ i ∈ Finset.range args.backendSet.count, (s.backends.load i).toNat : Nat) : Int) =
        ∑ i ∈ Finset.range args.backendSet.count, s.backends.inFlight i := by
      rw [Nat.cast_sum]
      refine Finset.sum_congr rfl (fun i hi => ?_)
      have hi := hle i (Finset.mem_range.mp hi)
      exact BackendSet.State.toNat_load (hnonneg i) (by omega)
    have hgoal := hloads.trans_le (hsum.trans_eq hmetrics.symm)
    exact_mod_cast hgoal
  case metrics_le => omega
  case weights => exact hweights
  case products => exact hfits
  case exact =>
    intro c p hc hlen
    exact (hfits c p hc hlen).compare_iff

/-- For every accepted command line with at least one worker thread, in every state of a run
in which no allocation of a handler fails: the loads of the backends together are at most
`metrics.in_flight()`, which is at most the number of threads; weights go from `1` to
`2 ^ 31 - 1`; and the two products of a comparison are below `2 ^ 64`, so the comparison is
the exact one. -/
theorem load_comparison_exact (libc : Libc) {opts : List Opt} {args : Args}
    (hargs : parseArgs libc opts = .ok args) (hpos : 0 < args.threads)
    (hint : args.threads < 2 ^ 31) {es : List Attempt} (hes : ∀ e ∈ es, e.succeeds = true)
    {s : State} (h : (attempts (.ofArgs args)).run es = some s) : LoadsFit args s :=
  reachable_loadsFit libc hargs hpos hint (attempts_reachable ⟨es, hes, h⟩)

/-- `--backend a:9001:3 --backend b:9002 --threads 2`. -/
def twoBackends : List Opt :=
  [.backend "a:9001:3".toList, .backend "b:9002".toList, .threads "2".toList]

def twoBackendsArgs : Args where
  backends := [{ host := "a", port := 9001, weight := 3 }, { host := "b", port := 9002 }]
  threads := 2

/-- One request is on the first backend, and the pick of another has loaded its counter. -/
def twoRequests : List Event :=
  [.router .acceptor, .router (.epollWait (.ok [.listen])), .router .acceptor,
    .router (.accept4 (.ok 7)), .router .acceptor, .router .acceptor,
    .router (.pool (.submitLock 0 none)), .router .acceptor, .router (.accept4 (.ok 8)),
    .router .acceptor, .router .acceptor, .router (.pool (.submitLock 1 none)),
    .router (.pool (.workerLock 0 none)), .router (.handlerCall 0 .incInFlight ()),
    .router (.handlerCall 0 (.readMessage .client (16 * 1024 * 1024) 5000) (.kOk, [])), .borrow 0,
    .backends (.pickLock 0), .backends (.pickLoad 0), .backends (.pickLoad 0), .backends (.bump 0),
    .router (.pool (.workerLock 1 none)), .router (.handlerCall 1 .incInFlight ()),
    .router (.handlerCall 1 (.readMessage .client (16 * 1024 * 1024) 5000) (.kOk, [])), .borrow 1,
    .backends (.pickLock 1), .backends (.pickLoad 1)]

theorem load_comparison_exact_twoRequests :
    parseArgs .wrapping twoBackends = .ok twoBackendsArgs ∧
      ∃ s, (attempts (.ofArgs twoBackendsArgs)).run (twoRequests.map .event) = some s ∧
        s.backends.inFlight 0 = 1 ∧ s.router.metrics.inFlight = 2 ∧ LoadsFit twoBackendsArgs s := by
  have hargs : parseArgs .wrapping twoBackends = .ok twoBackendsArgs := rfl
  refine ⟨hargs, _, rfl, rfl, rfl, ?_⟩
  exact @load_comparison_exact .wrapping twoBackends twoBackendsArgs hargs (by decide) (by decide)
    (twoRequests.map .event) (by simp [Attempt.succeeds]) _ rfl

/-- `--backend a:9001 --threads 1`. -/
def oneBackend : List Opt := [.backend "a:9001".toList, .threads "1".toList]

def oneBackendArgs : Args where
  backends := [{ host := "a", port := 9001 }]
  threads := 1

/-- The first request cannot be allocated.  Its worker takes the second one. -/
def lostRequest : List Attempt :=
  [.router .acceptor, .router (.epollWait (.ok [.listen])), .router .acceptor,
    .router (.accept4 (.ok 7)), .router .acceptor, .router .acceptor,
    .router (.pool (.submitLock 0 none)), .router .acceptor, .router (.accept4 (.ok 8)),
    .router .acceptor, .router .acceptor, .router (.pool (.submitLock 1 none)),
    .router (.pool (.workerLock 0 none)), .router (.handlerCall 0 .incInFlight ())].map .event ++
  .badAlloc 0 ::
  [.router (.pool (.workerLock 0 none)), .router (.handlerCall 0 .incInFlight ())].map .event

/-- One thread, and two requests in flight. -/
theorem metrics_exceed_threads :
    parseArgs .wrapping oneBackend = .ok oneBackendArgs ∧
      ∃ s, (attempts (.ofArgs oneBackendArgs)).run lostRequest = some s ∧
        s.router.metrics.loadInFlight = 2 ∧ ¬ LoadsFit oneBackendArgs s := by
  refine ⟨rfl, _, rfl, rfl, fun hfit => ?_⟩
  have hle := hfit.metrics_le
  revert hle
  decide

end InferenceRouter.Process
