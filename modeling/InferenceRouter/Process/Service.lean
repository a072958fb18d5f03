import InferenceRouter.Process.Exit
import InferenceRouter.Router.Service

/-!
# No request is left waiting

`Process.Termination` follows the shutdown to its end.  A process that serves has no such
end, but it has to come to rest between requests.  Until main calls `pool.stop()`, the
clients that have been accepted are all settled after boundedly many steps, whatever the
schedule, without a signal and without another client (`requests_settle`): no handler waits
for ever for a lock, for a connection of a pool that others hold, or for a wakeup that was
lost.

A client that waits in the queue does not depend on the end of what comes after it either
(`queued_request_reached`).
-/

namespace InferenceRouter.Process

open Interleaving Handler

variable {cfg : Config} {s s' : State} {e : Event}

/-- The steps with which the threads serve the clients they have. -/
def Event.serves : Event → Bool := Event.by Router.Event.serves

theorem Event.productive_of_serves (h : e.serves = true) : e.productive = true :=
  countedBy_of_by (by_mono (fun _ => Router.Event.productive_of_serves) h)

/-- How many steps of the threads an event of the environment can cause. -/
def Event.load (cfg : Config) : Event → Nat := Event.priceBy cfg Router.Event.load

theorem Event.load_of_serves (h : e.serves = true) : e.load cfg = 0 :=
  priceBy_of_by (fun _ => Router.Event.load_of_serves) h

/-- The work until rest. -/
noncomputable def State.backlog (cfg : Config) (s : State) : Nat :=
  s.effortBy cfg (Router.State.backlog cfg.router)

theorem backlog_measures (h : (machine cfg).Reachable s) (x : Router.State) :
    Measures cfg s.router x Router.Event.productive (Router.State.backlog cfg.router)
      Router.Event.load where
  step := Router.backlog_step ((routerView cfg).reachable h)
  call _ _ _ := ⟨rfl, rfl⟩
  main _ := ⟨rfl, rfl⟩
  clock _ := rfl

theorem backlog_step (h : (machine cfg).Reachable s) (hstep : (machine cfg).step s e = some s') :
    e.productive.toNat + s'.backlog cfg ≤ s.backlog cfg + e.load cfg :=
  effort_step h (step_cases hstep) (backlog_measures h s'.router)

theorem countP_le_backlog (h : (machine cfg).Reachable s) {es : List Event}
    (hexec : (machine cfg).exec s es = some s') :
    es.countP Event.productive + s'.backlog cfg ≤ s.backlog cfg + total (Event.load cfg) es :=
  Machine.countP_le_rank (I := (machine cfg).Reachable) (fun _ _ _ ht hstep => ht.step hstep)
    (fun _ _ _ ht hstep => backlog_step ht hstep) h hexec

/-- A step that the router can take for a client, the process can take, or a step inside the
call of the set that it is. -/
theorem canTake_of_router {q : Router.Event → Bool} (h : (machine cfg).Reachable s)
    (hq : ∀ e, q e = true → e.serves = true) (htake : s.router.CanTake cfg.router q) :
    s.CanTake cfg q := by
  obtain ⟨e, he, hsome⟩ := htake
  obtain ⟨x, hx⟩ := Option.isSome_iff_exists.mp hsome
  by_cases halone : s.router.alone e = true
  · refine ⟨0, .router e, he, ?_⟩
    have hwait : s.wait 0 = s := by simp [State.wait]
    rw [hwait]
    simp [step, halone, hx]
  · have hserves := hq e he
    cases e with
    | handlerCall w o r =>
        have ho : Router.isBackendSetCall o = true := by
          simpa [Router.State.alone] using halone
        have hcases : Router.Step cfg.router s.router (.handlerCall w o r) x :=
          Router.step_cases hx
        cases hcases with
        | wander hacceptor => cases hacceptor
        | handlerCall _ hw hcall => exact canTake_of_call h hw hcall ho
    | main | clock => cases hserves
    | acceptor | epollWait | accept4 | pool | handlerReturn => exact absurd rfl halone

/-- It is a step after a wait. -/
theorem State.CanTake.exists_exec {q : Router.Event → Bool} (h : s.CanTake cfg q) :
    ∃ ms e s', e.by q = true ∧ (machine cfg).exec s [.clock ms, e] = some s' := by
  obtain ⟨ms, e, he, hsome⟩ := h
  obtain ⟨s', hs'⟩ := Option.isSome_iff_exists.mp hsome
  refine ⟨ms, e, s', he, ?_⟩
  exact Machine.exec_cons_iff.mpr ⟨s.wait ms, rfl, Machine.exec_single_iff.mpr hs'⟩

/-! ## Until `pool.stop()` -/

/-- The process is reachable, and its thread pool has not been stopped. -/
def Open (cfg : Config) (s : State) : Prop :=
  (machine cfg).Reachable s ∧ s.router.pool.stop = false

/-- The steps of the threads for their clients, and waits. -/
def Event.calm (e : Event) : Prop := e.serves = true ∨ ∃ ms, e = .clock ms

theorem Event.price_of_calm (h : e.calm) : e.price cfg = 0 := by
  rcases h with h | ⟨ms, rfl⟩
  · exact priceBy_of_by (fun _ => Router.Event.price_of_serves) h
  · rfl

theorem Open.step (h : Open cfg s) (hcalm : e.calm)
    (hstep : (machine cfg).step s e = some s') : Open cfg s' := by
  refine ⟨h.1.step hstep, ?_⟩
  have hkeep : ∀ {e : Router.Event} {x : Router.State}, e ≠ .main →
      Router.step cfg.router s.router e = some x → x.pool.stop = false :=
    fun he hx => (Router.poolStop_step hx he).trans h.2
  have hcases : Step cfg s e s' := step_cases hstep
  cases hcases with
  | router _ hx =>
      refine hkeep ?_ hx
      rintro rfl
      rcases hcalm with hserves | ⟨ms, hclock⟩
      · cases hserves
      · cases hclock
  | borrowed _ _ hx | borrowFailed _ _ hx | released _ _ _ hx => exact hkeep (by simp) hx
  | clock | backends | borrow | release => exact h.2
  | shutdown | shutdownReturn =>
      rcases hcalm with hserves | ⟨ms, hclock⟩
      · cases hserves
      · cases hclock

/-- Short of rest, a thread can take a step for a client. -/
theorem Open.exists_exec (h : Open cfg s) (hnot : ¬ s.router.Resting) :
    ∃ ms e s', e.serves = true ∧ (machine cfg).exec s [.clock ms, e] = some s' :=
  State.CanTake.exists_exec (canTake_of_router h.1 (fun _ he => he)
    (Router.canServe_of_not_resting ((routerView cfg).reachable h.1) h.2 hnot))

/-- And comes nearer to rest. -/
theorem Open.exists_lower (h : Open cfg s) (hnot : ¬ s.router.Resting) :
    ∃ s', (machine cfg).Reaches Event.calm s s' ∧ s'.backlog cfg < s.backlog cfg := by
  obtain ⟨ms, e, s', he, hexec⟩ := h.exists_exec hnot
  have hle := countP_le_backlog h.1 hexec
  refine ⟨s', ⟨[.clock ms, e], ?_, hexec⟩, ?_⟩
  · intro e' he'
    rcases List.mem_cons.mp he' with rfl | he'
    · exact .inr ⟨ms, rfl⟩
    · rw [List.mem_singleton.mp he']
      exact .inl he
  · have hclock : (Event.clock ms).load cfg = 0 := rfl
    simp only [List.countP_cons, List.countP_nil, e.productive_of_serves he, if_true, total_cons,
      total_nil, Event.load_of_serves he, hclock] at hle
    omega

/-- From every reachable state of the process in which main has not called `pool.stop()`,
whatever the schedule: the threads take only boundedly many steps for their clients, up to
the load of what `epoll_wait` and `accept4` return and of spurious wakeups; as long as a
client is not settled, one of them can take such a step, after at most a wait; and so the
process gets, by these steps and waits alone, to a state in which every accepted client is
settled, nothing is in flight, every load is zero and no connection of any pool is in use. -/
theorem requests_settle (cfg : Config) {s : State} (h : (machine cfg).Reachable s)
    (hopen : s.router.pool.stop = false) :
    (∃ bound, ∀ es s', (machine cfg).exec s es = some s' →
        es.countP Event.serves ≤ bound + total (Event.load cfg) es) ∧
      (s.router.metrics.completed + s.router.metrics.errored ≠ s.router.clients.length →
        ∃ ms e s', e.serves = true ∧ (machine cfg).exec s [.clock ms, e] = some s') ∧
      ∃ s', (machine cfg).Reaches Event.calm s s' ∧
        s'.router.clients = s.router.clients ∧
        s'.router.metrics.completed + s'.router.metrics.errored = s.router.clients.length ∧
        s'.router.metrics.inFlight = 0 ∧ (∀ i, s'.backends.inFlight i = 0) ∧
        ∀ (i : Nat) (p : BackendPool.Pool), s'.backends.pools[i]? = some p →
          p.inUse = 0 ∧ ∀ c ∈ p.callers, c.done = true := by
  have hs : Open cfg s := ⟨h, hopen⟩
  refine ⟨⟨s.backlog cfg, ?_⟩, ?_, ?_⟩
  · intro es s' hexec
    have hle := countP_le_backlog h hexec
    have hserves : es.countP Event.serves ≤ es.countP Event.productive :=
      List.countP_mono_left (fun e _ he => e.productive_of_serves he)
    omega
  · intro hunsettled
    refine hs.exists_exec (fun hrest => hunsettled ?_)
    exact hrest.settled ((routerView cfg).reachable h)
  · have hend : ∃ t, (machine cfg).Reaches Event.calm s t ∧ t.router.Resting :=
      Machine.exists_reaches_of_rank (P := Open cfg) (State.backlog cfg)
        (fun _ _ _ ht hcalm hstep => ht.step hcalm hstep) (fun _ ht hnot => ht.exists_lower hnot) hs
    obtain ⟨t, ht, hrest⟩ := hend
    have hclients : t.router.clients = s.router.clients :=
      ht.invariant (P := fun t => t.router.clients = s.router.clients)
        (fun _ _ _ hu hcalm hstep => (clients_step (Event.price_of_calm hcalm) hstep).trans hu) rfl
    have hreach : (machine cfg).Reachable t := by
      obtain ⟨es, -, hexec⟩ := ht
      exact h.exec hexec
    have hrouter := (routerView cfg).reachable hreach
    have hbackends := (backendsView cfg).reachable hreach
    have hover := over_of_quiescent hreach hrest.quiescent
    refine ⟨t, ht, hclients, ?_, ?_, ?_, ?_⟩
    · rw [hrest.settled hrouter, hclients]
    · exact (Router.reachable_routed hrouter).inFlight_eq_zero hrest.quiescent
    · exact (BackendSet.reachable_accounted hbackends).inFlight_of_over hover
    · intro i p hp
      exact ⟨inUse_of_over hreach hover hp,
        (BackendSet.reachable_linked hbackends).done_of_over hover hp⟩

/-- The worker of the only client dials. -/
def servedWhileDialing : List Event :=
  oneRequest ++ [.backends (.poolBorrow 0), .backends (.pool 0 (.borrowLock 0))]

theorem requests_settle_servedWhileDialing : ∃ s,
    (machine (.ofArgs spareBackendArgs)).run servedWhileDialing = some s ∧
      s.backends.entry 0 0 = some .dialing ∧
      (∃ ms e s', e.serves = true ∧
        (machine (.ofArgs spareBackendArgs)).exec s [.clock ms, e] = some s') ∧
      ∃ s', (machine (.ofArgs spareBackendArgs)).Reaches Event.calm s s' ∧
        s'.router.metrics.completed + s'.router.metrics.errored = 1 ∧
        s'.router.metrics.inFlight = 0 := by
  refine ⟨_, rfl, rfl, ?_⟩
  have h := @requests_settle (.ofArgs spareBackendArgs) _ ⟨servedWhileDialing, rfl⟩ rfl
  obtain ⟨-, hmove, s', hreach, -, hsettled, hflight, -⟩ := h
  exact ⟨hmove (by decide), s', hreach, hsettled, hflight⟩

/-! ## A request in the queue -/

/-- The steps of the workers, in the router and in the set. -/
def Event.ofWorker : Event → Bool := Event.by Router.Event.ofWorker

/-- The spurious wakeups in the pools, which are all that can prolong a worker's call. -/
def Event.wakeups (cfg : Config) : Event → Nat := Event.priceBy cfg (fun _ => 0)

/-- The steps of the workers until client `k` is popped. -/
noncomputable def State.ahead (cfg : Config) (k : Nat) (s : State) : Nat :=
  s.effortBy cfg (Router.State.ahead k)

/-- Client `k` has been pushed. -/
def Queued (cfg : Config) (k : Nat) (s : State) : Prop :=
  (machine cfg).Reachable s ∧ k < s.router.pool.pushed.length

variable {k : Nat}

theorem Queued.router (h : Queued cfg k s) : Router.Queued cfg.router k s.router :=
  ⟨(routerView cfg).reachable h.1, h.2⟩

/-- Nothing is taken back from what was pushed or popped. -/
theorem pushed_step (h : (machine cfg).step s e = some s') :
    s.router.pool.pushed.length ≤ s'.router.pool.pushed.length ∧
      s.router.pool.popped.length ≤ s'.router.pool.popped.length := by
  have hkeep : ∀ {e : Router.Event} {x : Router.State},
      Router.step cfg.router s.router e = some x →
      s.router.pool.pushed.length ≤ x.pool.pushed.length ∧
        s.router.pool.popped.length ≤ x.pool.popped.length :=
    fun hx => Router.pushed_step hx
  have hcases : Step cfg s e s' := step_cases h
  cases hcases with
  | router _ hx | borrowed _ _ hx | borrowFailed _ _ hx | released _ _ _ hx | shutdown _ hx
  | shutdownReturn _ _ hx => exact hkeep hx
  | clock | backends | borrow | release => exact ⟨le_rfl, le_rfl⟩

theorem Queued.step (h : Queued cfg k s) (hstep : (machine cfg).step s e = some s') :
    Queued cfg k s' :=
  ⟨h.1.step hstep, h.2.trans_le (pushed_step hstep).1⟩

/-- While a client waits in the queue, main is not at the backends. -/
theorem Queued.measures (h : Queued cfg k s) (hwait : s.router.pool.popped.length ≤ k)
    {x : Router.State} (hwait' : x.pool.popped.length ≤ k) :
    Measures cfg s.router x Router.Event.ofWorker (Router.State.ahead k) (fun _ => 0) where
  step hx := Router.ahead_step h.router hwait' hx
  call _ _ _ := ⟨rfl, rfl⟩
  main hm := by
    have hstopped : s.router.main.poolStopped = true := by
      cases hpc : s.router.main <;> rw [hpc] at hm <;> first | rfl | cases hm
    exact absurd (Router.settled_of_poolStopped h.router.1 hstopped).queue
      (h.router.queue_ne_nil hwait)
  clock _ := rfl

theorem Queued.ahead_step (h : Queued cfg k s) (hwait : s'.router.pool.popped.length ≤ k)
    (hstep : (machine cfg).step s e = some s') :
    e.ofWorker.toNat + s'.ahead cfg k ≤ s.ahead cfg k + e.wakeups cfg := by
  have hle := effort_step h.1 (step_cases hstep)
    (h.measures ((pushed_step hstep).2.trans hwait) hwait)
  have hcounted : e.ofWorker.toNat ≤ (e.countedBy Router.Event.ofWorker).toNat := by
    cases hw : e.ofWorker with
    | false => exact Nat.zero_le _
    | true => rw [Event.countedBy_of_by hw]
  exact (Nat.add_le_add_right hcounted _).trans hle

theorem Queued.countP_le (h : Queued cfg k s) {es : List Event}
    (hexec : (machine cfg).exec s es = some s') (hwait : s'.router.pool.popped.length ≤ k) :
    es.countP Event.ofWorker + s'.ahead cfg k ≤
      s.ahead cfg k + total (Event.wakeups cfg) es :=
  (Machine.countP_le_rank_while (W := fun t : State => t.router.pool.popped.length ≤ k)
    (fun _ _ _ ht hstep => ht.step hstep)
    (fun _ _ _ hstep hwait => (pushed_step hstep).2.trans hwait)
    (fun _ _ _ ht hwait hstep => Queued.ahead_step ht hwait hstep) h hexec hwait).2

theorem Queued.exists_exec (h : Queued cfg k s) (hwait : s.router.pool.popped.length ≤ k) :
    ∃ ms e s', e.ofWorker = true ∧ (machine cfg).exec s [.clock ms, e] = some s' :=
  State.CanTake.exists_exec
    (canTake_of_router h.1 (fun e => e.serves_of_ofWorker) (h.router.canTake hwait))

/-- A worker's step, or a wait for it. -/
def Event.atWork (e : Event) : Prop := e.ofWorker = true ∨ ∃ ms, e = .clock ms

/-- The workers can come nearer to client `k`, or one of them pops it. -/
theorem Queued.exists_nearer (h : Queued cfg k s) (hwait : s.router.pool.popped.length ≤ k) :
    ∃ s', (machine cfg).Reaches Event.atWork s s' ∧
      (k < s'.router.pool.popped.length ∨ s'.ahead cfg k < s.ahead cfg k) := by
  obtain ⟨ms, e, s', he, hexec⟩ := h.exists_exec hwait
  refine ⟨s', ⟨[.clock ms, e], ?_, hexec⟩, ?_⟩
  · intro e' he'
    rcases List.mem_cons.mp he' with rfl | he'
    · exact .inr ⟨ms, rfl⟩
    · rw [List.mem_singleton.mp he']
      exact .inl he
  · by_cases hwait' : s'.router.pool.popped.length ≤ k
    · right
      have hle := h.countP_le hexec hwait'
      have hclock : (Event.clock ms).wakeups cfg = 0 := rfl
      have hprice : e.wakeups cfg = 0 := Event.priceBy_of_by (fun _ _ => rfl) he
      simp only [List.countP_cons, List.countP_nil, he, if_true, total_cons, total_nil, hprice,
        hclock] at hle
      omega
    · exact .inl (Nat.lt_of_not_le hwait')

/-- In every reachable state of the process with a request in the queue: before the request
is popped the workers take only boundedly many steps, up to spurious wakeups in the pools,
however many clients are accepted behind it in the meantime; one of the workers can take a
step, after at most a wait; and so a worker gets to the request by steps of the workers and
waits alone. -/
theorem queued_request_reached (cfg : Config) {s : State} (h : (machine cfg).Reachable s)
    {t : ThreadPool.Task Router.Job} (ht : t ∈ s.router.pool.queue) :
    (∃ bound, ∀ es s', (machine cfg).exec s es = some s' → t.id ∉ s'.router.pool.popped →
        es.countP Event.ofWorker ≤ bound + total (Event.wakeups cfg) es) ∧
      (∃ ms e s', e.ofWorker = true ∧ (machine cfg).exec s [.clock ms, e] = some s') ∧
      ∃ s', (machine cfg).Reaches Event.atWork s s' ∧ t.id ∈ s'.router.pool.popped := by
  have hrouter := (routerView cfg).reachable h
  have hs : Queued cfg t.id s := ⟨h, (Router.queued_of_mem hrouter ht).2⟩
  have hwaits : ∀ {u : State}, (machine cfg).Reachable u → t.id ∉ u.router.pool.popped →
      u.router.pool.popped.length ≤ t.id := by
    intro u hu hnot
    rw [Router.mem_popped_iff ((routerView cfg).reachable hu)] at hnot
    exact Nat.le_of_not_lt hnot
  refine ⟨⟨s.ahead cfg t.id, ?_⟩, ?_, ?_⟩
  · intro es s' hexec hnot
    have hle := hs.countP_le hexec (hwaits (h.exec hexec) hnot)
    omega
  · exact hs.exists_exec (hwaits h (Router.not_mem_popped hrouter ht))
  · -- the rank of the states in which the request has been popped does not matter
    obtain ⟨u, hu, hpopped⟩ : ∃ u, (machine cfg).Reaches Event.atWork s u ∧
        t.id < u.router.pool.popped.length := by
      refine Machine.exists_reaches_of_rank (P := Queued cfg t.id)
        (fun u => if t.id < u.router.pool.popped.length then 0 else u.ahead cfg t.id + 1)
        (fun _ _ _ hv _ hstep => hv.step hstep) ?_ hs
      intro u hu hnot
      obtain ⟨v, hv, hnearer⟩ := hu.exists_nearer (Nat.le_of_not_lt hnot)
      refine ⟨v, hv, ?_⟩
      rw [if_neg hnot]
      split
      · exact Nat.succ_pos _
      · exact Nat.succ_lt_succ (hnearer.resolve_left ‹_›)
    have hreach : (machine cfg).Reachable u := by
      obtain ⟨es, -, hexec⟩ := hu
      exact h.exec hexec
    exact ⟨u, hu, (Router.mem_popped_iff ((routerView cfg).reachable hreach) _).mpr hpopped⟩

/-- While the only worker dials, a second client is queued. -/
def queuedBehindDial : List Event :=
  servedWhileDialing ++ [.router .acceptor, .router (.accept4 (.ok 8)), .router .acceptor,
    .router .acceptor, .router (.pool (.submitLock 1 none))]

theorem queued_request_reached_queuedBehindDial : ∃ s t,
    (machine (.ofArgs spareBackendArgs)).run queuedBehindDial = some s ∧
      s.router.pool.queue = [t] ∧ t.id = 1 ∧ s.backends.entry 0 0 = some .dialing ∧
      ∃ s', (machine (.ofArgs spareBackendArgs)).Reaches Event.atWork s s' ∧
        1 ∈ s'.router.pool.popped := by
  refine ⟨_, _, rfl, rfl, rfl, rfl, ?_⟩
  have h := @queued_request_reached (.ofArgs spareBackendArgs) _ ⟨queuedBehindDial, rfl⟩ _
    List.mem_cons_self
  obtain ⟨-, -, s', hreach, hpopped⟩ := h
  exact ⟨s', hreach, hpopped⟩

end InferenceRouter.Process
