import InferenceRouter.Process.Spread

/-!
# Completed, handled and borrowed

Three components count requests: `Metrics` counts runs of the handler, the backend set
counts in `handled_` the handles it gave away, and its callers are the calls of `borrow`.
A run is completed only after it had a handle and released it, and it borrows at most
once.  So `completed` is at most the sum of the `handled_`, and that is at most the number
of runs (`completed_le_handled`).

`service` is the protocol behind it: where a run is between its `borrow` and the moment
when it settles.  `Books` keeps such a phase for every worker and balances the counters
against the phases.  A handle that `borrow` has counted and not yet returned is owed to
the worker that waits for it.
-/

namespace InferenceRouter.BackendSet

open Interleaving

variable {cfg : Config} {s s' : State} {e : Event}

/-- The caller was given a handle. -/
def Caller.given : Caller → Nat
  | .held _ _ | .releasing _ _ | .released _ | .returned _ => 1
  | _ => 0

/-- The caller has the handle that `borrow` returned. -/
def Caller.hasHandle : Caller → Nat
  | .held _ _ => 1
  | _ => 0

/-- Whether caller `c` has its handle. -/
def State.holds (s : State) (c : Nat) : Nat := (s.callers[c]?).elim 0 Caller.hasHandle

theorem State.holds_of_stage {c : Nat} {p : Stage} (h : s.stage c = some p) :
    s.holds c = match p with
      | .held _ => 1
      | _ => 0 := by
  obtain ⟨a, ha, rfl⟩ := Option.map_eq_some_iff.mp h
  rw [State.holds, ha]
  cases a <;> rfl

theorem holds_set {c : Nat} {a : Caller} (b : Caller) (hc : s.callers[c]? = some a) (d : Nat) :
    ((s.callers.set c b)[d]?).elim 0 Caller.hasHandle =
      if d = c then b.hasHandle else s.holds d := by
  rw [getElem?_set_eq b hc]
  split <;> rfl

/-- The set gives handles away one at a time, when it counts them. -/
theorem given_step (h : Step cfg s e s') (hinner : e.inner = true) :
    (total Caller.given s'.callers = total Caller.given s.callers ∧
        ∀ d, s'.holds d = s.holds d) ∨
      ∃ c, total Caller.given s'.callers = total Caller.given s.callers + 1 ∧ s.holds c = 0 ∧
        s'.holds c = 1 ∧ ∀ d, d ≠ c → s'.holds d = s.holds d := by
  have hset : ∀ {c : Nat} {a : Caller} (b : Caller), s.callers[c]? = some a →
      a.given = b.given → a.hasHandle = b.hasHandle →
      total Caller.given (s.callers.set c b) = total Caller.given s.callers ∧
        ∀ d, ((s.callers.set c b)[d]?).elim 0 Caller.hasHandle = s.holds d := by
    intro c a b hc hgiven hholds
    refine ⟨total_set_of_eq _ hc hgiven, fun d => ?_⟩
    rw [holds_set b hc]
    split
    next heq =>
      subst heq
      rw [State.holds, hc]
      exact hholds.symm
    next => rfl
  cases h with
  | borrowEmpty | borrow | releaseNothing | releaseInvalid | release => cases hinner
  | clock | foreignOpen | foreignClose | pool | shutdown | shutdownCall | shutdownNext
  | shutdownReturn => exact .inl ⟨rfl, fun d => rfl⟩
  | @count c i k fd hc =>
      refine .inr ⟨c, ?_, ?_, ?_, fun d hd => ?_⟩
      · exact total_set Caller.given _ hc
      · rw [State.holds, hc]
        rfl
      · exact (holds_set _ hc c).trans (if_pos rfl)
      · exact (holds_set _ hc d).trans (if_neg hd)
  | pickLock hc | pickFirst hc | pickNext hc | bump hc | poolBorrow hc | poolHeld hc
  | poolRefused hc | compensate hc | releaseReturn hc | decrement hc =>
      exact .inl (hset _ hc rfl rfl)

/-- A call of `borrow` is given nothing yet. -/
theorem given_borrow (h : Step cfg s .borrow s') :
    total Caller.given s'.callers = total Caller.given s.callers ∧
      s'.callers.length = s.callers.length + 1 ∧ ∀ d, s'.holds d = s.holds d := by
  have hnew : ∀ b : Caller, b.hasHandle = 0 → ∀ d,
      ((s.callers ++ [b])[d]?).elim 0 Caller.hasHandle = s.holds d := by
    intro b hb d
    rw [getElem?_append_eq]
    split
    next heq =>
      subst heq
      rw [State.holds, List.getElem?_eq_none le_rfl]
      exact hb
    next => rfl
  cases h with
  | borrowEmpty => exact ⟨by simp [Caller.given], by simp, hnew .failed rfl⟩
  | borrow => exact ⟨by simp [Caller.given], by simp, hnew .entered rfl⟩

/-- A call of `release` takes the handle from its holder. -/
theorem given_release {c : Nat} {ok : Bool} (h : Step cfg s (.release c ok) s') :
    total Caller.given s'.callers = total Caller.given s.callers ∧
      s'.callers.length = s.callers.length ∧ ∀ d, d ≠ c → s'.holds d = s.holds d := by
  have hset : ∀ {a : Caller} (b : Caller), s.callers[c]? = some a → a.given = b.given →
      total Caller.given (s.callers.set c b) = total Caller.given s.callers ∧
        (s.callers.set c b).length = s.callers.length ∧
        ∀ d, d ≠ c → ((s.callers.set c b)[d]?).elim 0 Caller.hasHandle = s.holds d := by
    intro a b hc hgiven
    exact ⟨total_set_of_eq _ hc hgiven, List.length_set, fun d hd =>
      (holds_set b hc d).trans (if_neg hd)⟩
  cases h with
  | releaseNothing _ hc | releaseInvalid _ hc | release _ hc => exact hset _ hc rfl

theorem length_callers_step (h : Step cfg s e s') (hinner : e.inner = true) :
    s'.callers.length = s.callers.length := (stages_step h hinner).1

/-- The counters `handled_` together are the handles given away. -/
theorem sum_handled (h : (machine cfg).Reachable s) :
    ∑ i ∈ Finset.range cfg.count, s.handled i = total Caller.given s.callers := by
  have ha := reachable_accounted h
  have hc := reachable_confined h
  rw [Finset.sum_congr rfl (fun i _ => ha.handled i), sum_total]
  apply total_congr
  intro c hmem
  have hlt := hc.callers c hmem
  cases c with
  | held h | releasing h | released h | returned h =>
      have hindex : h.poolIndex < cfg.count := hlt _ rfl
      simp [Caller.handled, Caller.given, hindex]
  | entered | locked | picking | picked | borrowing | borrowed | refused | failed =>
      simp [Caller.handled, Caller.given]

end InferenceRouter.BackendSet

namespace InferenceRouter.Process

open Interleaving Handler
open Router (Job)

variable {cfg : Config} {s s' : State} {e : Event}

/-! ## The protocol of a run -/

/-- Where a run is between `borrow` and its settlement. -/
inductive Service where
  | fresh
  /-- `borrow` has failed. -/
  | failed
  | holding
  /-- The handle is released. -/
  | served
  /-- Completed or errored. -/
  | settled

/-- Whether a run may make a call. -/
def Service.allows (g : Service) : Op → Prop
  | .setBorrow => g = .fresh
  | .setRelease _ _ => g = .holding
  | .incCompleted => g = .served
  | .incErrored => g = .fresh ∨ g = .failed ∨ g = .served
  | _ => True

def Service.next (g : Service) : (o : Op) → o.Ret → Service
  | .setBorrow, h => if h.fd < 0 then .failed else .holding
  | .setRelease _ _, _ => .served
  | .incCompleted, _ | .incErrored, _ => .settled
  | _, _ => g

def service : Protocol Op Op.Ret Service where
  allowed := Service.allows
  next := Service.next
  final g := g = .settled

theorem handleOneSet_serves (opts : HandlerOptions) :
    (handleOneSet opts).Follows service .fresh := by
  simp +contextual [handleOneSet, service, Service.allows, Service.next]

/-! ## A worker and its phase -/

/-- How the phase of a worker goes with its lease and with what it runs. -/
inductive Serves : Lease → Option (ThreadPool.Worker Job) → Service → Prop where
  | idle {x : Option (ThreadPool.Worker Job)} : (∀ t, x ≠ some (.running t)) →
      Serves .none x .fresh
  | free {t : ThreadPool.Task Job} {g : Service} : t.body.rest.Follows service g →
      g ≠ .holding → Serves .none (some (.running t)) g
  | borrowing {c : Nat} {t : ThreadPool.Task Job} : t.body.rest.nextCall = some .setBorrow →
      t.body.rest.Follows service .fresh → Serves (.borrowing c) (some (.running t)) .fresh
  | holding {c : Nat} {t : ThreadPool.Task Job} : t.body.rest.Follows service .holding →
      Serves (.holding c) (some (.running t)) .holding
  | releasing {c : Nat} {t : ThreadPool.Task Job} {h : Handle} {ok : Bool} :
      t.body.rest.nextCall = some (.setRelease h ok) → t.body.rest.Follows service .holding →
      Serves (.releasing c) (some (.running t)) .holding

/-- A handle that was counted for the worker and for which it is not completed yet.
`holds` says which callers of the set have their handle. -/
def owed (holds : Nat → Nat) : Lease → Service → Nat
  | .borrowing c, _ => holds c
  | _, .holding | _, .served => 1
  | _, _ => 0

/-- Only the caller that the worker waits for matters. -/
theorem owed_congr {holds holds' : Nat → Nat} {l : Lease} (p : Service)
    (h : ∀ c, l = .borrowing c → holds' c = holds c) : owed holds' l p = owed holds l p := by
  cases l with
  | borrowing c => exact h c rfl
  | none | holding | releasing => cases p <;> rfl

/-- The worker's run has called `borrow`, or will not call it any more. -/
def engaged : Lease → Service → Nat
  | .none, .fresh => 0
  | _, _ => 1

/-- The phases of all workers, and the counters balanced against them. -/
structure Books (cfg : Config) (s : State) (g : Nat → Service) : Prop where
  serves : ∀ w, Serves (s.leases w) s.router.pool.workers[w]? (g w)
  completed : s.router.metrics.completed +
    ∑ w ∈ Finset.range cfg.workerCount, owed s.backends.holds (s.leases w) (g w) ≤
      total BackendSet.Caller.given s.backends.callers
  callers : s.backends.callers.length ≤ s.router.returned.length +
    ∑ w ∈ Finset.range cfg.workerCount, engaged (s.leases w) (g w)

variable {g : Nat → Service}

/-- One worker moves on, with its lease. -/
theorem Books.exchange (h : Books cfg s g) {v : Nat} {l : Lease} {p : Service}
    {router : Router.State} {backends : BackendSet.State} (hv : v < cfg.workerCount)
    (hserves : Serves l router.pool.workers[v]? p)
    (hothers : ∀ w, w ≠ v → Serves (s.leases w) router.pool.workers[w]? (g w))
    (howed : ∀ w, w ≠ v →
      owed backends.holds (s.leases w) (g w) = owed s.backends.holds (s.leases w) (g w))
    (hcompleted : router.metrics.completed + owed backends.holds l p +
        total BackendSet.Caller.given s.backends.callers ≤
      s.router.metrics.completed + owed s.backends.holds (s.leases v) (g v) +
        total BackendSet.Caller.given backends.callers)
    (hcallers : backends.callers.length + s.router.returned.length +
        engaged (s.leases v) (g v) ≤
      s.backends.callers.length + router.returned.length + engaged l p) :
    Books cfg { router := router, backends := backends, leases := Function.update s.leases v l }
      (Function.update g v p) where
  serves := by
    intro w
    by_cases hwv : w = v
    · subst hwv
      simpa only [Function.update_self] using hserves
    · simpa only [Function.update_of_ne hwv] using hothers w hwv
  completed := by
    have hsum := sum_range_exchange
      (f := fun w => owed s.backends.holds (s.leases w) (g w))
      (g := fun w => owed backends.holds (Function.update s.leases v l w)
        (Function.update g v p w)) hv (fun w hwv => by
          simpa only [Function.update_of_ne hwv] using howed w hwv)
    simp only [Function.update_self] at hsum
    have hold := h.completed
    dsimp only
    omega
  callers := by
    have hsum := sum_range_exchange (f := fun w => engaged (s.leases w) (g w))
      (g := fun w => engaged (Function.update s.leases v l w) (Function.update g v p w)) hv
      (fun w hwv => by simp only [Function.update_of_ne hwv])
    simp only [Function.update_self] at hsum
    have hold := h.callers
    dsimp only
    omega

/-- The same for a worker that keeps its lease. -/
theorem Books.advance (h : Books cfg s g) {v : Nat} {p : Service} {router : Router.State}
    (hv : v < cfg.workerCount) (hserves : Serves (s.leases v) router.pool.workers[v]? p)
    (hothers : ∀ w, w ≠ v → Serves (s.leases w) router.pool.workers[w]? (g w))
    (hcompleted : router.metrics.completed + owed s.backends.holds (s.leases v) p ≤
      s.router.metrics.completed + owed s.backends.holds (s.leases v) (g v))
    (hcallers : s.router.returned.length + engaged (s.leases v) (g v) ≤
      router.returned.length + engaged (s.leases v) p) :
    Books cfg { s with router := router } (Function.update g v p) := by
  have howed : ∀ w, w ≠ v →
      owed s.backends.holds (s.leases w) (g w) = owed s.backends.holds (s.leases w) (g w) :=
    fun _ _ => rfl
  have hbooks := h.exchange hv hserves hothers howed (by omega) (by omega)
  rw [Function.update_eq_self] at hbooks
  exact hbooks

/-- The router moves, but no worker does. -/
theorem Books.quiet (h : Books cfg s g) {router : Router.State}
    (hserves : ∀ w, Serves (s.leases w) router.pool.workers[w]? (g w))
    (hcompleted : router.metrics.completed = s.router.metrics.completed)
    (hreturned : router.returned = s.router.returned) :
    Books cfg { s with router := router } g where
  serves := hserves
  completed := by
    show router.metrics.completed + _ ≤ _
    rw [hcompleted]
    exact h.completed
  callers := by
    show _ ≤ router.returned.length + _
    rw [hreturned]
    exact h.callers

/-- A call of a run that has no handle, and is none of the set: only a run that was served
is completed, and once. -/
theorem Service.call {p : Service} {o : Op} (r : o.Ret) (ho : Router.isBackendSetCall o = false)
    (ha : p.allows o) (hp : p ≠ .holding) (holds : Nat → Nat) (m : Router.Metrics) :
    (m.record o).completed + owed holds .none (p.next o r) ≤ m.completed + owed holds .none p ∧
      engaged .none p ≤ engaged .none (p.next o r) ∧ p.next o r ≠ .holding := by
  have hle : engaged .none p ≤ 1 := by cases p <;> simp [engaged]
  cases o with
  | setBorrow | setRelease => cases ho
  | incCompleted =>
      cases (show p = .served from ha)
      exact ⟨le_rfl, hle, by simp [Service.next]⟩
  | incErrored => exact ⟨Nat.add_le_add_left (Nat.zero_le _) _, hle, by simp [Service.next]⟩
  | incInFlight | decInFlight | acceptHandshake | readMessage | writeMessage | replyErrorPlain
  | replyErrorTls | poolBorrow | poolRelease | safeClose | closeStream =>
      exact ⟨le_rfl, le_rfl, hp⟩

/-- A run with a handle does not settle. -/
theorem Service.call_holding {o : Op} (r : o.Ret) (ho : Router.isBackendSetCall o = false)
    (ha : Service.holding.allows o) (m : Router.Metrics) :
    (m.record o).completed = m.completed ∧ Service.holding.next o r = .holding := by
  cases o with
  | setBorrow | setRelease => cases ho
  | incCompleted => cases (show Service.holding = .served from ha)
  | incErrored => rcases ha with ha | ha | ha <;> cases ha
  | incInFlight | decInFlight | acceptHandshake | readMessage | writeMessage | replyErrorPlain
  | replyErrorTls | poolBorrow | poolRelease | safeClose | closeStream => exact ⟨rfl, rfl⟩

/-- A call of a handler that is none of the set. -/
theorem Books.call (h : Books cfg s g) {w : Nat} {t : ThreadPool.Task Job} {o : Op}
    {k : o.Ret → Code Unit} (r : o.Ret) {router : Router.State} (hw : w < cfg.workerCount)
    (ht : s.router.pool.workers[w]? = some (.running t)) (hrest : t.body.rest = .call o k)
    (ho : Router.isBackendSetCall o = false)
    (hworkers : router.pool.workers = s.router.pool.workers.set w (.running
      { t with body := { t.body with rest := k r, tally := t.body.tally.count o } }))
    (hmetrics : router.metrics = s.router.metrics.record o)
    (hreturned : router.returned = s.router.returned) :
    Books cfg { s with router := router } (Function.update g w ((g w).next o r)) := by
  have hself : router.pool.workers[w]? = some (.running
      { t with body := { t.body with rest := k r, tally := t.body.tally.count o } }) := by
    rw [hworkers, getElem?_set_eq _ ht, if_pos rfl]
  have hothers : ∀ v, v ≠ w → Serves (s.leases v) router.pool.workers[v]? (g v) := by
    intro v hvw
    rw [hworkers, getElem?_set_eq _ ht, if_neg hvw]
    exact h.serves v
  have hserves := h.serves w
  have hmoves : Serves (s.leases w) router.pool.workers[w]? ((g w).next o r) ∧
      router.metrics.completed + owed s.backends.holds (s.leases w) ((g w).next o r) ≤
        s.router.metrics.completed + owed s.backends.holds (s.leases w) (g w) ∧
      engaged (s.leases w) (g w) ≤ engaged (s.leases w) ((g w).next o r) := by
    rw [ht] at hserves
    rw [hself, hmetrics]
    generalize s.leases w = l at hserves
    generalize g w = p at hserves
    cases hserves with
    | idle hidle => exact absurd rfl (hidle t)
    | free hfollows hp =>
        rw [hrest, Prog.follows_call] at hfollows
        obtain ⟨hcompleted, hengaged, hne⟩ :=
          Service.call r ho hfollows.1 hp s.backends.holds s.router.metrics
        exact ⟨.free (hfollows.2 r) hne, hcompleted, hengaged⟩
    | borrowing hnext | releasing hnext =>
        rw [hrest] at hnext
        cases hnext
        cases ho
    | holding hfollows =>
        rw [hrest, Prog.follows_call] at hfollows
        obtain ⟨hcompleted, hsame⟩ := Service.call_holding r ho hfollows.1 s.router.metrics
        have hrun : (k r).Follows service .holding := by
          have hrun := hfollows.2 r
          rw [show service.next .holding o r = .holding from hsame] at hrun
          exact hrun
        rw [hsame, hcompleted]
        exact ⟨.holding hrun, le_rfl, le_rfl⟩
  obtain ⟨hnew, hcompleted, hengaged⟩ := hmoves
  refine h.advance hw hnew hothers hcompleted ?_
  rw [hreturned]
  omega

/-- A handler returns. -/
theorem Books.finish (h : Books cfg s g) {w : Nat} {t : ThreadPool.Task Job}
    {router : Router.State} (hw : w < cfg.workerCount)
    (ht : s.router.pool.workers[w]? = some (.running t)) (hrest : t.body.rest = .pure ())
    (hworkers : router.pool.workers = s.router.pool.workers.set w .ready)
    (hcompleted : router.metrics.completed = s.router.metrics.completed)
    (hreturned : router.returned = s.router.returned ++ [t]) :
    Books cfg { s with router := router } (Function.update g w .fresh) := by
  have hself : router.pool.workers[w]? = some .ready := by
    rw [hworkers, getElem?_set_eq _ ht, if_pos rfl]
  have hsettled : s.leases w = .none ∧ g w = .settled := by
    have hserves := h.serves w
    rw [ht] at hserves
    generalize s.leases w = l at hserves
    generalize g w = p at hserves
    cases hserves with
    | idle hidle => exact absurd rfl (hidle t)
    | free hfollows =>
        rw [hrest] at hfollows
        exact ⟨rfl, hfollows⟩
    | borrowing hnext | releasing hnext =>
        rw [hrest] at hnext
        cases hnext
    | holding hfollows =>
        rw [hrest] at hfollows
        cases hfollows
  refine h.advance hw ?_ ?_ ?_ ?_
  · rw [hsettled.1, hself]
    exact .idle (by simp)
  · intro v hvw
    rw [hworkers, getElem?_set_eq _ ht, if_neg hvw]
    exact h.serves v
  · rw [hcompleted, hsettled.1]
    exact Nat.add_le_add_left (Nat.zero_le _) _
  · rw [hreturned, List.length_append, List.length_singleton, hsettled.1, hsettled.2]
    exact le_rfl

/-- A step of the router alone. -/
theorem Books.router (h : Books cfg s g) {e : Router.Event} {x : Router.State}
    (hs : (Router.machine cfg.router).Reachable s.router)
    (hstep : Router.Step cfg.router s.router e x)
    (hcall : ∀ w o a, e = .handlerCall w o a → Router.isBackendSetCall o = false) :
    ∃ g', Books cfg { s with router := x } g' := by
  have hworker : ∀ {w : Nat} {y : ThreadPool.Worker Job},
      s.router.pool.workers[w]? = some y → w < cfg.workerCount := by
    intro w y hy
    have hlen := ThreadPool.reachable_workers ((Router.poolView cfg.router).reachable hs)
    exact (lt_of_getElem? hy).trans_eq hlen
  cases hstep with
  | handlerCall r ht hrest =>
      exact ⟨_, h.call r (hworker ht) ht hrest (hcall _ _ _ rfl) rfl rfl rfl⟩
  | handlerReturn ht hrest => exact ⟨_, h.finish (hworker ht) ht hrest rfl rfl rfl⟩
  | @pool _ p hquiet hp =>
      refine ⟨g, h.quiet (fun w => ?_) rfl rfl⟩
      show Serves _ p.workers[w]? _
      rcases ThreadPool.worker_step (ThreadPool.step_cases hp) hquiet w with hsame | ⟨hidle, hnew⟩
      · rw [hsame]
        exact h.serves w
      · -- a worker that ran nothing may begin a run
        have hserves := h.serves w
        generalize s.leases w = l at hserves
        generalize g w = q at hserves
        generalize s.router.pool.workers[w]? = y at hserves hidle
        cases hserves with
        | free | borrowing | holding | releasing => exact absurd rfl (hidle _)
        | idle =>
            by_cases hrun : ∃ t, p.workers[w]? = some (.running t)
            · obtain ⟨t, ht⟩ := hrun
              have hfresh := ((Router.reachable_routed hs).jobs.waiting.queue t (hnew t ht)).2
              rw [ht]
              refine .free ?_ (by simp)
              rw [hfresh]
              exact handleOneSet_serves cfg.router.handler
            · exact .idle (fun t ht => hrun ⟨t, ht⟩)
  | stopPool =>
      refine ⟨g, h.quiet (fun w => ?_) rfl rfl⟩
      show Serves _ (s.router.pool.stopCall .drain).workers[w]? _
      rw [ThreadPool.stopCall_workers]
      exact h.serves w
  | clock | wander | accept | incAccepted | submit | submitted | refused | closeRefused
  | countRefused | leave | join | grace | readRemaining | drop | dropped | poolStopped
  | finale => exact ⟨g, h.quiet h.serves rfl rfl⟩

/-! ## Calls of the set -/

/-- A call of the set returns to the handler that made it. -/
theorem Books.resume (h : Books cfg s g) {w : Nat} {o : Op} {a : o.Ret} {x : Router.State}
    (hs : (Router.machine cfg.router).Reachable s.router)
    (hx : Router.step cfg.router s.router (.handlerCall w o a) = some x)
    (ho : Router.isBackendSetCall o = true) (l : Lease) (p : Service)
    (hnew : ∀ t k, s.router.pool.workers[w]? = some (.running t) → t.body.rest = .call o k →
      Serves l (some (.running
        { t with body := { t.body with rest := k a, tally := t.body.tally.count o } })) p)
    (howed : owed s.backends.holds l p ≤ owed s.backends.holds (s.leases w) (g w))
    (hengaged : engaged (s.leases w) (g w) ≤ engaged l p) :
    Books cfg { s with router := x, leases := Function.update s.leases w l }
      (Function.update g w p) := by
  have hrecord : (s.router.metrics.record o).completed = s.router.metrics.completed := by
    cases o with
    | setBorrow | setRelease => rfl
    | incInFlight | decInFlight | incCompleted | incErrored | acceptHandshake | readMessage
    | writeMessage | replyErrorPlain | replyErrorTls | poolBorrow | poolRelease | safeClose
    | closeStream => cases ho
  have hstep : Router.Step cfg.router s.router (.handlerCall w o a) x := Router.step_cases hx
  cases hstep with
  | wander hacceptor => cases hacceptor
  | handlerCall _ ht hrest =>
      have hlen := ThreadPool.reachable_workers ((Router.poolView cfg.router).reachable hs)
      refine h.exchange ((lt_of_getElem? ht).trans_eq hlen) ?_ ?_ (fun _ _ => rfl) ?_ ?_
      · rw [getElem?_set_eq _ ht, if_pos rfl]
        exact hnew _ _ ht hrest
      · intro v hvw
        rw [getElem?_set_eq _ ht, if_neg hvw]
        exact h.serves v
      · dsimp only
        omega
      · dsimp only
        omega

/-- `borrow` returns a handle, which was owed. -/
theorem Books.borrowed (h : Books cfg s g) {w c : Nat} {hd : Handle} {x : Router.State}
    (hs : (Router.machine cfg.router).Reachable s.router)
    (ha : BackendSet.Accounted cfg.backends s.backends) (hlease : s.leases w = .borrowing c)
    (hstage : s.backends.stage c = some (.held hd))
    (hx : Router.step cfg.router s.router (.handlerCall w .setBorrow hd) = some x) :
    Books cfg { s with router := x, leases := Function.update s.leases w (.holding c) }
      (Function.update g w .holding) := by
  refine h.resume hs hx rfl (.holding c) .holding ?_ ?_ ?_
  · intro t k ht hrest
    have hserves := h.serves w
    rw [hlease, ht] at hserves
    generalize g w = p at hserves
    cases hserves with
    | borrowing _ hfollows =>
        rw [hrest, Prog.follows_call] at hfollows
        have hrun : (k hd).Follows service (if hd.fd < 0 then .failed else .holding) :=
          hfollows.2 hd
        rw [if_neg (Int.not_lt.mpr (ha.fd_nonneg hstage))] at hrun
        exact .holding hrun
  · rw [hlease]
    show 1 ≤ s.backends.holds c
    rw [BackendSet.State.holds_of_stage hstage]
  · rw [hlease]
    exact le_rfl

/-- `borrow` returns without a handle. -/
theorem Books.borrowFailed (h : Books cfg s g) {w c : Nat} {x : Router.State}
    (hs : (Router.machine cfg.router).Reachable s.router) (hlease : s.leases w = .borrowing c)
    (hx : Router.step cfg.router s.router
      (.handlerCall w .setBorrow { fd := -1, poolIndex := 0 }) = some x) :
    Books cfg { s with router := x, leases := Function.update s.leases w .none }
      (Function.update g w .failed) := by
  refine h.resume hs hx rfl .none .failed ?_ (Nat.zero_le _) ?_
  · intro t k ht hrest
    have hserves := h.serves w
    rw [hlease, ht] at hserves
    generalize g w = p at hserves
    cases hserves with
    | borrowing _ hfollows =>
        rw [hrest, Prog.follows_call] at hfollows
        exact .free (hfollows.2 { fd := -1, poolIndex := 0 }) (by simp)
  · rw [hlease]
    exact le_rfl

/-- `release` returns. -/
theorem Books.released (h : Books cfg s g) {w c : Nat} {hd : Handle} {ok : Bool}
    {x : Router.State} (hs : (Router.machine cfg.router).Reachable s.router)
    (hlease : s.leases w = .releasing c)
    (hx : Router.step cfg.router s.router (.handlerCall w (.setRelease hd ok) ()) = some x) :
    Books cfg { s with router := x, leases := Function.update s.leases w .none }
      (Function.update g w .served) := by
  have hserves := h.serves w
  refine h.resume hs hx rfl .none .served ?_ ?_ ?_
  · intro t k ht hrest
    rw [hlease, ht] at hserves
    generalize g w = p at hserves
    cases hserves with
    | releasing _ hfollows =>
        rw [hrest, Prog.follows_call] at hfollows
        exact .free (hfollows.2 ()) (by simp)
  · rw [hlease] at hserves ⊢
    generalize g w = p at hserves ⊢
    generalize s.router.pool.workers[w]? = y at hserves
    cases hserves with
    | releasing => exact le_rfl
  · rw [hlease]
    exact le_rfl

/-- A handler calls `borrow`. -/
theorem Books.borrow (h : Books cfg s g) {w : Nat} {x : BackendSet.State}
    (hs : (Router.machine cfg.router).Reachable s.router) (hlease : s.leases w = .none)
    (hcall : s.nextCall w = some .setBorrow)
    (hx : BackendSet.Step cfg.backends s.backends .borrow x) :
    Books cfg { s with
      backends := x
      leases := Function.update s.leases w (.borrowing s.backends.callers.length) }
      (Function.update g w .fresh) := by
  obtain ⟨t, k, ht, hrest⟩ := nextCall_cases hcall
  obtain ⟨hgiven, hlength, hholds⟩ := BackendSet.given_borrow hx
  have hserves := h.serves w
  rw [hlease, ht] at hserves
  have hfresh : g w = .fresh ∧ t.body.rest.Follows service .fresh := by
    generalize g w = p at hserves
    cases hserves with
    | idle hidle => exact absurd rfl (hidle t)
    | free hfollows =>
        have hallowed := hfollows
        rw [hrest, Prog.follows_call] at hallowed
        cases (show p = .fresh from hallowed.1)
        exact ⟨rfl, hfollows⟩
  have hlen := ThreadPool.reachable_workers ((Router.poolView cfg.router).reachable hs)
  have hnew : s.backends.holds s.backends.callers.length = 0 := by
    rw [BackendSet.State.holds, List.getElem?_eq_none le_rfl]
    rfl
  refine h.exchange ((lt_of_getElem? ht).trans_eq hlen) ?_ (fun v _ => h.serves v) ?_ ?_ ?_
  · rw [ht]
    exact .borrowing (by rw [hrest]; rfl) hfresh.2
  · intro v _
    rw [funext hholds]
  · show _ + x.holds s.backends.callers.length + _ ≤ _
    rw [hholds, hnew, hgiven]
    omega
  · rw [hlength, hlease, hfresh.1]
    simp only [engaged]
    omega

/-- A handler calls `release`. -/
theorem Books.release (h : Books cfg s g) {w c : Nat} {hd : Handle} {ok : Bool}
    {x : BackendSet.State} (hl : Leased s)
    (hs : (Router.machine cfg.router).Reachable s.router) (hlease : s.leases w = .holding c)
    (hcall : s.nextCall w = some (.setRelease hd ok))
    (hx : BackendSet.Step cfg.backends s.backends (.release c ok) x) :
    Books cfg { s with backends := x, leases := Function.update s.leases w (.releasing c) }
      (Function.update g w .holding) := by
  obtain ⟨t, k, ht, hrest⟩ := nextCall_cases hcall
  obtain ⟨hgiven, hlength, hholds⟩ := BackendSet.given_release hx
  have hserves := h.serves w
  rw [hlease, ht] at hserves
  have hheld : g w = .holding ∧ t.body.rest.Follows service .holding := by
    generalize g w = p at hserves
    cases hserves with
    | holding hfollows => exact ⟨rfl, hfollows⟩
  have hlen := ThreadPool.reachable_workers ((Router.poolView cfg.router).reachable hs)
  refine h.exchange ((lt_of_getElem? ht).trans_eq hlen) ?_ (fun v _ => h.serves v) ?_ ?_ ?_
  · rw [ht]
    exact .releasing (by rw [hrest]; rfl) hheld.2
  · intro v hvw
    refine owed_congr (g v) (fun d hv => hholds d ?_)
    rintro rfl
    exact hvw (hl.unique v w d (by rw [hv]; rfl) (by rw [hlease]; rfl))
  · rw [hgiven, hlease, hheld.1]
    simp only [owed]
    omega
  · rw [hlength, hlease, hheld.1]
    simp only [engaged]
    omega

/-- The set moves on its own: it may count a handle, and then owes it. -/
theorem Books.backends (h : Books cfg s g) {e : BackendSet.Event} {x : BackendSet.State}
    (hl : Leased s) (hs : (Router.machine cfg.router).Reachable s.router)
    (hx : BackendSet.Step cfg.backends s.backends e x) (hinner : e.inner = true) :
    Books cfg { s with backends := x } g := by
  refine ⟨h.serves, ?_, ?_⟩
  · have hold := h.completed
    dsimp only
    rcases BackendSet.given_step hx hinner with ⟨hgiven, hholds⟩ | ⟨c, hgiven, hzero, hone, hholds⟩
    · rw [hgiven, funext hholds]
      exact hold
    · -- at most one worker waits for caller `c`
      have hsum : ∑ w ∈ Finset.range cfg.workerCount, owed x.holds (s.leases w) (g w) ≤
          ∑ w ∈ Finset.range cfg.workerCount, owed s.backends.holds (s.leases w) (g w) + 1 := by
        have hsame : ∀ v, s.leases v ≠ .borrowing c →
            owed x.holds (s.leases v) (g v) = owed s.backends.holds (s.leases v) (g v) := by
          intro v hv
          exact owed_congr (g v) (fun d hd => hholds d (fun heq => hv (by rw [hd, heq])))
        by_cases hw : ∃ w, s.leases w = .borrowing c
        · obtain ⟨w, hlease⟩ := hw
          obtain ⟨t, ht, -⟩ := (hl.suits w).present (c := c) (by rw [hlease]; rfl)
          have hlen := ThreadPool.reachable_workers ((Router.poolView cfg.router).reachable hs)
          have hlt : w < cfg.workerCount := (lt_of_getElem? ht).trans_eq hlen
          have hexchange := sum_range_exchange
            (f := fun v => owed s.backends.holds (s.leases v) (g v))
            (g := fun v => owed x.holds (s.leases v) (g v)) hlt
            (fun v hvw => hsame v (fun hv => hvw (hl.unique v w c (by rw [hv]; rfl)
              (by rw [hlease]; rfl))))
          have hbefore : owed s.backends.holds (s.leases w) (g w) = 0 := by
            rw [hlease]
            exact hzero
          have hafter : owed x.holds (s.leases w) (g w) = 1 := by
            rw [hlease]
            exact hone
          omega
        · rw [Finset.sum_congr rfl (fun v _ => hsame v (fun hv => hw ⟨v, hv⟩))]
          omega
      omega
  · have hlength : x.callers.length = s.backends.callers.length :=
      BackendSet.length_callers_step hx hinner
    show x.callers.length ≤ _
    rw [hlength]
    exact h.callers

theorem books_step (hs : (machine cfg).Reachable s) (h : Step cfg s e s') (hb : Books cfg s g) :
    ∃ g', Books cfg s' g' := by
  have hrouter := (routerView cfg).reachable hs
  have ha := BackendSet.reachable_accounted ((backendsView cfg).reachable hs)
  have hl := reachable_leased hs
  cases h with
  | clock => exact ⟨g, hb.serves, hb.completed, hb.callers⟩
  | router halone hx =>
      apply hb.router hrouter (Router.step_cases hx)
      rintro w o a rfl
      simpa [Router.State.alone] using halone
  | backends hinner hx => exact ⟨g, hb.backends hl hrouter (BackendSet.step_cases hx) hinner⟩
  | borrow hlease hcall hx =>
      exact ⟨_, hb.borrow hrouter hlease hcall (BackendSet.step_cases hx)⟩
  | borrowed hlease hstage hx => exact ⟨_, hb.borrowed hrouter ha hlease hstage hx⟩
  | borrowFailed hlease _ hx => exact ⟨_, hb.borrowFailed hrouter hlease hx⟩
  | release hlease hcall _ hx =>
      exact ⟨_, hb.release hl hrouter hlease hcall (BackendSet.step_cases hx)⟩
  | released hlease _ _ hx => exact ⟨_, hb.released hrouter hlease hx⟩
  | @shutdown x y _ hx hy =>
      have hy : BackendSet.Step cfg.backends s.backends .shutdown y := BackendSet.step_cases hy
      obtain ⟨g', hg⟩ := hb.router hrouter (Router.step_cases hx) (by
        rintro w o a heq
        cases heq)
      cases hy with
      | shutdown => exact ⟨g', hg.serves, hg.completed, hg.callers⟩
  | shutdownReturn _ _ hx =>
      apply hb.router hrouter (Router.step_cases hx)
      rintro w o a heq
      cases heq

theorem reachable_books (h : (machine cfg).Reachable s) : ∃ g, Books cfg s g := by
  refine Machine.Reachable.invariant_with (P := fun t => ∃ g, Books cfg t g)
    (fun _ ht => ht) ⟨fun _ => .fresh, ?_⟩ ?_ h
  · refine ⟨fun w => .idle (fun t ht => ?_), ?_, ?_⟩
    · have hready := List.eq_of_mem_replicate (List.mem_of_getElem? ht)
      cases hready
    · simp [machine, BackendSet.machine, Router.machine, owed]
    · simp [machine, BackendSet.machine]
  · rintro t e t' ht ⟨g, hb⟩ hstep
    exact books_step ht (step_cases hstep) hb

/-- A worker that is engaged runs a task. -/
theorem Serves.engaged_le {l : Lease} {x : Option (ThreadPool.Worker Job)} {p : Service}
    (h : Serves l x p) : engaged l p ≤ x.elim 0 (fun w => w.runningIds.card) := by
  cases h with
  | idle => exact Nat.zero_le _
  | free =>
      cases p with
      | fresh => exact Nat.zero_le _
      | failed | holding | served | settled => exact le_rfl
  | borrowing | holding | releasing => exact le_rfl

theorem completed_le_sum_handled (h : (machine cfg).Reachable s) :
    s.router.metrics.completed ≤ ∑ i ∈ Finset.range cfg.backends.count, s.backends.handled i := by
  obtain ⟨g, hb⟩ := reachable_books h
  rw [BackendSet.sum_handled ((backendsView cfg).reachable h)]
  exact Nat.le_of_add_right_le hb.completed

theorem sum_handled_le_callers (h : (machine cfg).Reachable s) :
    ∑ i ∈ Finset.range cfg.backends.count, s.backends.handled i ≤ s.backends.callers.length := by
  rw [BackendSet.sum_handled ((backendsView cfg).reachable h)]
  apply total_le_length
  intro c _
  cases c <;> simp [BackendSet.Caller.given]

theorem callers_le_popped (h : (machine cfg).Reachable s) :
    s.backends.callers.length ≤ s.router.pool.popped.length := by
  obtain ⟨g, hb⟩ := reachable_books h
  have hrouter := (routerView cfg).reachable h
  have hpopped := congrArg Multiset.card (Router.reachable_pool hrouter).ledger.popped_eq
  have hreturned : s.router.pool.finished.length = s.router.returned.length := by
    rw [(Router.reachable_routed hrouter).jobs.finished, List.length_map]
  have hlen := ThreadPool.reachable_workers ((Router.poolView cfg.router).reachable hrouter)
  have hengaged : ∑ w ∈ Finset.range cfg.workerCount, engaged (s.leases w) (g w) ≤
      s.router.pool.runningIds.card := by
    rw [s.router.pool.card_runningIds, total_eq_sum_range, hlen]
    exact Finset.sum_le_sum (fun w _ => (hb.serves w).engaged_le)
  have hcallers := hb.callers
  rw [Multiset.coe_card, Multiset.card_add, Multiset.coe_card] at hpopped
  omega

/-- In every state of the process: the completed requests are at most the handles that the
set has counted in `handled_`, over all backends; those are at most the calls of `borrow`;
and those are at most the runs of `handle_one` that have begun. -/
theorem completed_le_handled (cfg : Config) {s : State} (h : (machine cfg).Reachable s) :
    s.router.metrics.completed ≤ ∑ i ∈ Finset.range cfg.backends.count, s.backends.handled i ∧
      ∑ i ∈ Finset.range cfg.backends.count, s.backends.handled i ≤
        s.backends.callers.length ∧
      s.backends.callers.length ≤ s.router.pool.popped.length :=
  ⟨completed_le_sum_handled h, sum_handled_le_callers h, callers_le_popped h⟩

/-- The request is answered and completed. -/
def oneAnswer : List Event :=
  oneRequest ++ [.backends (.poolBorrow 0), .backends (.pool 0 (.borrowLock 0)),
    .backends (.pool 0 (.dialOk 0 3)), .backends (.pool 0 (.incPoolCreate 0)),
    .backends (.pool 0 (.incPoolBorrow 0)), .backends (.poolReturn 0), .backends (.count 0),
    .borrowReturn 0, .router (.handlerCall 0 (.writeMessage (.backend 3) [] 5000) .kOk),
    .router (.handlerCall 0 (.readMessage (.backend 3) (16 * 1024 * 1024) 5000) (.kOk, [])),
    .router (.handlerCall 0 (.writeMessage .client [] 5000) .kOk), .release 0,
    .backends (.pool 0 (.sample 0)), .backends (.pool 0 (.releaseLock 0 none)),
    .backends (.releaseReturn 0), .backends (.decrement 0), .releaseReturn 0,
    .router (.handlerCall 0 .incCompleted ())]

theorem completed_le_handled_oneAnswer : ∃ s,
    (machine (.ofArgs spareBackendArgs)).run oneAnswer = some s ∧
      s.router.metrics.completed = 1 ∧
      1 ≤ ∑ i ∈ Finset.range spareBackendArgs.backendSet.count, s.backends.handled i := by
  refine ⟨_, rfl, rfl, ?_⟩
  have h := @completed_le_handled (.ofArgs spareBackendArgs) _ ⟨oneAnswer, rfl⟩
  exact h.1

end InferenceRouter.Process
