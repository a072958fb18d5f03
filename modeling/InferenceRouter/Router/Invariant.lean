import InferenceRouter.Router.Model

/-!
# Invariants of the router

Five invariants, each kept by every step.

* `Ordered`: how far the shutdown has come.  Main stops the pool only after the
  acceptor thread has exited, so no `submit` call meets a stopped pool and none
  is refused.
* `Handover`: every client that `accept4` returned is either in the acceptor's
  hands or the argument of its own `submit` call.
* `Jobs`: a task belongs to the client of its number; a run that waits has made
  no call, a run that goes on follows the protocol of the counters, and a run
  that has returned is settled.
* `Counters`: each counter is the sum of what the runs have added to it.
* `lateCalls = 0`: the backend set is shut down when no run is left.

The pool's own invariants come from `ThreadPool.Accounting` through `poolView`:
the pool of the router moves only as the pool alone can.
-/

namespace InferenceRouter.Router

open Interleaving Handler

variable {cfg : Config} {s s' : State} {e : Event}

/-! ## The pool inside the router -/

theorem poolView (cfg : Config) :
    Machine.Projection (machine cfg) (ThreadPool.machine cfg.poolOptions) State.pool where
  init := rfl
  step := by
    intro s e s' h
    have hone : ∀ {e : ThreadPool.Event Job} {p : ThreadPool.State Job},
        ThreadPool.step cfg.poolOptions.normalise s.pool e = some p →
        ∃ es, (ThreadPool.machine cfg.poolOptions).exec s.pool es = some p := by
      intro e p hp
      exact ⟨[e], Machine.exec_single_iff.mpr hp⟩
    cases step_cases h with
    | @submit fd => exact hone (e := .submit (.fresh cfg.handler fd)) rfl
    | pool _ hp => exact hone hp
    | @handlerCall w t o k r hw =>
        refine hone (e := .work w { t.body with rest := k r, tally := t.body.tally.count o }) ?_
        simp [ThreadPool.step, ThreadPool.State.work, hw]
    | @handlerReturn w t hw =>
        refine hone (e := .finish w false) ?_
        simp [ThreadPool.step, ThreadPool.State.finish, hw]
    | stopPool => exact hone (e := .stop .drain) rfl
    | clock | wander | accept | incAccepted | submitted | refused | closeRefused | countRefused
    | leave | join | grace | readRemaining | drop | dropped | poolStopped | finale =>
        exact ⟨[], rfl⟩

/-- The pool of a reachable router is accounted for. -/
theorem reachable_pool (h : (machine cfg).Reachable s) :
    ThreadPool.Accounted cfg.poolOptions.normalise s.pool :=
  ThreadPool.reachable_accounted ((poolView cfg).reachable h)

theorem reachable_pool_workers (h : (machine cfg).Reachable s) : 0 < s.pool.workers.length := by
  rw [ThreadPool.reachable_workers ((poolView cfg).reachable h)]
  exact cfg.poolOptions.normalise_workerCount_pos

/-! ## The order of the shutdown -/

/-- The call of `submit` that the acceptor is in. -/
def Acceptor.submitCall : Acceptor → Option Nat
  | .submitting i _ _ => some i
  | _ => none

/-- The acceptor is in the branch for a refused task. -/
def Acceptor.inRefusal : Acceptor → Bool
  | .refused _ _ | .closed _ => true
  | _ => false

/-- Main has called `pool.stop()`. -/
def Main.stopCalled : Main → Bool
  | .stoppingPool | .stoppedPool | .shuttingBackends | .logFinal | .returned => true
  | _ => false

/-- What each phase of main implies. -/
structure Ordered (main : Main) (acceptor : Acceptor) (pool : ThreadPool.State Job)
    (refusals : Nat) : Prop where
  joined : main.beforeJoin = false → acceptor = .exited
  stopped : pool.stop = true → main.stopCalled = true
  drains : pool.stopper.mode ≠ some .noDrain
  returned : main.poolStopped = true → pool.stopper = .returned .drain
  calls : ∀ (i : Nat) (p : ThreadPool.Submitter Job), pool.submitters[i]? = some p →
    p ≠ .returned false ∧ (p = .returned true ∨ acceptor.submitCall = some i)
  refusals_eq : refusals = 0
  inRefusal : acceptor.inRefusal = false

/-- The invariant of the order of the shutdown. -/
def State.Ordered (s : State) : Prop := Router.Ordered s.main s.acceptor s.pool s.refusals

theorem Main.beforeJoin_of_stopCalled {m : Main} (h : m.stopCalled = true) :
    m.beforeJoin = false := by
  cases m <;> simp_all [stopCalled, beforeJoin]

theorem Main.stopCalled_of_poolStopped {m : Main} (h : m.poolStopped = true) :
    m.stopCalled = true := by
  cases m <;> simp_all [poolStopped, stopCalled]

theorem Main.poolStopped_of_shutdownBegun {m : Main} (h : m.shutdownBegun = true) :
    m.poolStopped = true := by
  cases m <;> simp_all [shutdownBegun, poolStopped]

section Ordered

variable {main : Main} {acceptor : Acceptor} {pool : ThreadPool.State Job} {refusals : Nat}

theorem Ordered.beforeJoin (h : Ordered main acceptor pool refusals)
    (hlive : acceptor ≠ .exited) : main.beforeJoin = true := by
  by_contra hjoined
  exact hlive (h.joined (by simpa using hjoined))

/-- While the acceptor thread lives, the pool is open. -/
theorem Ordered.stop_eq_false (h : Ordered main acceptor pool refusals)
    (hlive : acceptor ≠ .exited) : pool.stop = false := by
  by_contra hstop
  have hjoined := Main.beforeJoin_of_stopCalled (h.stopped (by simpa using hstop))
  rw [h.beforeJoin hlive] at hjoined
  cases hjoined

/-- The live acceptor moves without entering or leaving a `submit` call that has
not returned. -/
theorem Ordered.setAcceptor (h : Ordered main acceptor pool refusals) (hlive : acceptor ≠ .exited)
    {a : Acceptor} (href : a.inRefusal = false)
    (hcalls : ∀ i, acceptor.submitCall = some i → pool.submitters[i]? = some (.returned true)) :
    Ordered main a pool refusals where
  joined hjoined := by
    rw [h.beforeJoin hlive] at hjoined
    cases hjoined
  stopped := h.stopped
  drains := h.drains
  returned := h.returned
  calls := by
    intro i p hp
    obtain ⟨hfalse, htrue | hcall⟩ := h.calls i p hp
    · exact ⟨hfalse, .inl htrue⟩
    · have hreturned := hcalls i hcall
      rw [hp, Option.some.injEq] at hreturned
      exact ⟨hfalse, .inl hreturned⟩
  refusals_eq := h.refusals_eq
  inRefusal := href

/-- Main moves within one phase. -/
theorem Ordered.setMain (h : Ordered main acceptor pool refusals) {m : Main}
    (hjoined : m.beforeJoin = false → main.beforeJoin = false)
    (hstop : main.stopCalled = true → m.stopCalled = true)
    (hreturned : m.poolStopped = true → main.poolStopped = true) :
    Ordered m acceptor pool refusals where
  joined := fun hm => h.joined (hjoined hm)
  stopped := fun hp => hstop (h.stopped hp)
  drains := h.drains
  returned := fun hm => h.returned (hreturned hm)
  calls := h.calls
  refusals_eq := h.refusals_eq
  inRefusal := h.inRefusal

/-- Main moves between the join and `pool.stop()`. -/
theorem Ordered.drain (h : Ordered main acceptor pool refusals)
    (hjoined : main.beforeJoin = false) (hcalled : main.stopCalled = false) {m : Main}
    (hm : m.poolStopped = false) : Ordered m acceptor pool refusals := by
  refine h.setMain (fun _ => hjoined) ?_ ?_
  · intro hcalls
    rw [hcalled] at hcalls
    cases hcalls
  · intro hstopped
    rw [hm] at hstopped
    cases hstopped

end Ordered

theorem Acceptor.submitCall_of_idle {a : Acceptor} (h : a.idle = true) : a.submitCall = none := by
  cases a <;> simp_all [idle, submitCall]

theorem Acceptor.inRefusal_of_idle {a : Acceptor} (h : a.idle = true) : a.inRefusal = false := by
  cases a <;> simp_all [idle, inRefusal]

theorem Main.stopCalled_of_beforeJoin {m : Main} (h : m.beforeJoin = true) :
    m.stopCalled = false := by
  cases m <;> simp_all [beforeJoin, stopCalled]

theorem Main.draining_phase {m : Main} (h : m.draining = true) :
    m.beforeJoin = false ∧ m.stopCalled = false ∧ m.poolStopped = false := by
  cases m <;> simp_all [draining, beforeJoin, stopCalled, poolStopped]

/-- A quiet step of the pool ends no call with `false`: the acceptor that makes
the call is alive, so the pool is open, and it does not reject. -/
theorem ordered_quiet {e : ThreadPool.Event Job} {p : ThreadPool.State Job}
    (h : ThreadPool.Step cfg.poolOptions.normalise s.pool e p) (hquiet : e.quiet = true)
    (ho : s.Ordered) : Ordered s.main s.acceptor p s.refusals where
  joined := ho.joined
  stopped := by
    rw [(ThreadPool.quiet_step h hquiet).1]
    exact ho.stopped
  drains := by
    rw [(ThreadPool.quiet_step h hquiet).2.1]
    exact ho.drains
  returned := by
    intro hm
    exact ThreadPool.quiet_returned h hquiet (ho.returned hm)
  calls := by
    intro i q hq
    obtain ⟨p, hp, rfl | ⟨⟨t, ht⟩, hfalse⟩⟩ := ThreadPool.submitter_step h hquiet hq
    · exact ho.calls i q hp
    · have hcall : s.acceptor.submitCall = some i := by
        rcases (ho.calls i p hp).2 with rfl | hcall
        · cases ht
        · exact hcall
      have hlive : s.acceptor ≠ .exited := by
        intro hex
        rw [hex] at hcall
        cases hcall
      refine ⟨?_, .inr hcall⟩
      intro hq
      rcases hfalse hq with hstop | hreject
      · rw [ho.stop_eq_false hlive] at hstop
        cases hstop
      · cases hreject
  refusals_eq := ho.refusals_eq
  inRefusal := ho.inRefusal

theorem ordered_step (h : Step cfg s e s') (ho : s.Ordered) : s'.Ordered := by
  have hlive : ∀ {a : Acceptor}, s.acceptor = a → a ≠ .exited → s.acceptor ≠ .exited := by
    intro a ha hne
    rw [ha]
    exact hne
  cases h with
  | clock => exact ho
  | wander _ hidle hex hidle' =>
      refine ho.setAcceptor hex (Acceptor.inRefusal_of_idle hidle') ?_
      intro i hi
      rw [Acceptor.submitCall_of_idle hidle] at hi
      cases hi
  | accept hpc =>
      refine ho.setAcceptor (hlive hpc (by simp)) rfl ?_
      intro i hi
      rw [hpc] at hi
      cases hi
  | incAccepted hpc =>
      refine ho.setAcceptor (hlive hpc (by simp)) rfl ?_
      intro i hi
      rw [hpc] at hi
      cases hi
  | submit hpc =>
      have hex := hlive hpc (by simp)
      have hbefore := ho.beforeJoin hex
      refine ⟨?_, ho.stopped, ho.drains, ho.returned, ?_, ho.refusals_eq, rfl⟩
      · intro hjoined
        rw [hbefore] at hjoined
        cases hjoined
      · intro i p hp
        rcases getElem?_append_single hp with hp | ⟨rfl, rfl⟩
        · obtain ⟨hfalse, htrue | hcall⟩ := ho.calls i p hp
          · exact ⟨hfalse, .inl htrue⟩
          · rw [hpc] at hcall
            cases hcall
        · exact ⟨by simp, .inr rfl⟩
  | submitted hpc hi =>
      refine ho.setAcceptor (hlive hpc (by simp)) rfl ?_
      intro j hj
      rw [hpc] at hj
      cases hj
      exact hi
  | refused _ hi => exact absurd rfl (ho.calls _ _ hi).1
  | closeRefused hpc =>
      have href := ho.inRefusal
      rw [hpc] at href
      cases href
  | countRefused hpc =>
      have href := ho.inRefusal
      rw [hpc] at href
      cases href
  | pool hquiet hp => exact ordered_quiet (s := s) (ThreadPool.step_cases hp) hquiet ho
  | handlerCall => exact ⟨ho.joined, ho.stopped, ho.drains, ho.returned, ho.calls, ho.refusals_eq,
      ho.inRefusal⟩
  | handlerReturn => exact ⟨ho.joined, ho.stopped, ho.drains, ho.returned, ho.calls,
      ho.refusals_eq, ho.inRefusal⟩
  | leave _ hm hm' =>
      refine ho.setMain ?_ ?_ ?_
      · intro hjoined
        rw [hm'] at hjoined
        cases hjoined
      · intro hcalled
        rw [Main.stopCalled_of_beforeJoin hm] at hcalled
        cases hcalled
      · intro hstopped
        have := Main.stopCalled_of_poolStopped hstopped
        rw [Main.stopCalled_of_beforeJoin hm'] at this
        cases this
  | join hpc hex =>
      refine ⟨fun _ => hex, ?_, ho.drains, ?_, ho.calls, ho.refusals_eq, ho.inRefusal⟩
      · intro hstop
        have hcalled := ho.stopped hstop
        rw [hpc] at hcalled
        cases hcalled
      · intro hstopped
        cases hstopped
  | grace hm _ hm' =>
      obtain ⟨hjoined, hcalled, -⟩ := Main.draining_phase hm
      exact ho.drain hjoined hcalled (Main.draining_phase hm').2.2
  | readRemaining hpc => exact ho.drain (by rw [hpc]; rfl) (by rw [hpc]; rfl) rfl
  | drop hpc => exact ho.drain (by rw [hpc]; rfl) (by rw [hpc]; rfl) rfl
  | dropped hpc => exact ho.drain (by rw [hpc]; rfl) (by rw [hpc]; rfl) rfl
  | stopPool hpc =>
      have hopen : s.pool.stop = false := by
        by_contra hstop
        have hcalled := ho.stopped (by simpa using hstop)
        rw [hpc] at hcalled
        cases hcalled
      have hcall : s.pool.stopCall .drain =
          { s.pool with stop := true, drainOnStop := true, stopper := .set .drain } := by
        simp [ThreadPool.State.stopCall, hopen]
      show Ordered _ _ (s.pool.stopCall .drain) _
      rw [hcall]
      refine ⟨?_, fun _ => rfl, ?_, ?_, ho.calls, ho.refusals_eq, ho.inRefusal⟩
      · intro _
        exact ho.joined (by rw [hpc]; rfl)
      · simp [ThreadPool.Stopper.mode]
      · intro hstopped
        cases hstopped
  | @poolStopped mode hpc hret =>
      refine ⟨fun _ => ho.joined (by rw [hpc]; rfl), fun _ => rfl, ho.drains, ?_, ho.calls,
        ho.refusals_eq, ho.inRefusal⟩
      intro _
      have hdrain := ho.drains
      cases mode with
      | drain => exact hret
      | noDrain => simp [hret, ThreadPool.Stopper.mode] at hdrain
  | finale hm hm' =>
      refine ho.setMain ?_ (fun _ => Main.stopCalled_of_poolStopped hm') (fun _ => hm)
      intro _
      exact Main.beforeJoin_of_stopCalled (Main.stopCalled_of_poolStopped hm)

theorem ordered_init (cfg : Config) : (machine cfg).init.Ordered := by
  refine ⟨?_, ?_, ?_, ?_, ?_, rfl, rfl⟩
  · intro hjoined
    cases hjoined
  · intro hstop
    cases hstop
  · simp [machine, ThreadPool.init, ThreadPool.Stopper.mode]
  · intro hstopped
    cases hstopped
  · intro i p hp
    cases hp

/-! ## From `accept4` to `submit` -/

/-- The client that `accept4` returned and `submit` has not been called for. -/
def Acceptor.inHand : Acceptor → List Nat
  | .accepted fd _ | .counted fd _ => [fd]
  | _ => []

/-- The clients in hand that `inc_accepted` has not counted. -/
def Acceptor.uncounted : Acceptor → Nat
  | .accepted _ _ => 1
  | _ => 0

theorem Acceptor.inHand_of_idle {a : Acceptor} (h : a.idle = true) : a.inHand = [] := by
  cases a <;> simp_all [idle, inHand]

theorem Acceptor.uncounted_of_idle {a : Acceptor} (h : a.idle = true) : a.uncounted = 0 := by
  cases a <;> simp_all [idle, uncounted]

/-- The first clients have had their `submit` calls, and the rest are in hand. -/
structure Handover (acceptor : Acceptor) (calls : Nat) (clients : List Nat) (accepted : Nat) :
    Prop where
  calls_le : calls ≤ clients.length
  inHand : clients.drop calls = acceptor.inHand
  counted : accepted + acceptor.uncounted = clients.length

/-- The invariant of the way from `accept4` to `submit`. -/
def State.Handover (s : State) : Prop :=
  Router.Handover s.acceptor s.pool.submitters.length s.clients s.metrics.accepted

section Handover

variable {acceptor : Acceptor} {calls : Nat} {clients : List Nat} {accepted : Nat}

/-- The acceptor moves with the same clients in hand. -/
theorem Handover.setAcceptor (h : Handover acceptor calls clients accepted) {a : Acceptor}
    (hhand : a.inHand = acceptor.inHand) (hcount : a.uncounted = acceptor.uncounted) :
    Handover a calls clients accepted where
  calls_le := h.calls_le
  inHand := by rw [hhand, h.inHand]
  counted := by rw [hcount, h.counted]

theorem Handover.length_of_inHand (h : Handover acceptor calls clients accepted) :
    clients.length = calls + acceptor.inHand.length := by
  have hle := h.calls_le
  rw [← h.inHand, List.length_drop]
  omega

/-- The client in hand is the one of the next call. -/
theorem Handover.next_client (h : Handover acceptor calls clients accepted) {fd : Nat}
    (hhand : acceptor.inHand = [fd]) : clients[calls]? = some fd := by
  have hdrop := h.inHand
  rw [hhand] at hdrop
  rw [← List.head?_drop, hdrop]
  rfl

end Handover

theorem record_accepted (m : Metrics) (o : Op) : (m.record o).accepted = m.accepted := by
  cases o <;> rfl

theorem handover_step (h : Step cfg s e s') (hh : s.Handover) : s'.Handover := by
  cases h with
  | wander _ hidle _ hidle' =>
      refine hh.setAcceptor ?_ ?_
      · rw [Acceptor.inHand_of_idle hidle, Acceptor.inHand_of_idle hidle']
      · rw [Acceptor.uncounted_of_idle hidle, Acceptor.uncounted_of_idle hidle']
  | @accept fd ready hpc =>
      have hlen := hh.length_of_inHand
      have hcount := hh.counted
      simp only [hpc, Acceptor.inHand, Acceptor.uncounted, List.length_nil] at hlen hcount
      refine ⟨?_, ?_, ?_⟩
      · show s.pool.submitters.length ≤ (s.clients ++ [fd]).length
        rw [List.length_append]
        omega
      · rw [show s.pool.submitters.length = s.clients.length by omega, List.drop_left]
        rfl
      · rw [List.length_append]
        exact congrArg (· + 1) hcount
  | incAccepted hpc =>
      obtain ⟨hle, hhand, hcount⟩ := hh
      rw [hpc] at hhand hcount
      exact ⟨hle, hhand, hcount⟩
  | submit hpc =>
      have hlen := hh.length_of_inHand
      have hcount := hh.counted
      simp only [hpc, Acceptor.inHand, Acceptor.uncounted, List.length_singleton] at hlen hcount
      refine ⟨?_, ?_, hcount⟩
      · rw [List.length_append]
        exact hlen.ge
      · apply List.drop_eq_nil_of_le
        rw [List.length_append]
        exact hlen.le
  | submitted hpc | refused hpc | closeRefused hpc | countRefused hpc =>
      exact hh.setAcceptor (by rw [hpc]; rfl) (by rw [hpc]; rfl)
  | @pool _ p hquiet hp =>
      show Router.Handover s.acceptor p.submitters.length s.clients s.metrics.accepted
      rw [(ThreadPool.quiet_step (ThreadPool.step_cases hp) hquiet).2.2.2]
      exact hh
  | @handlerCall w t o k r =>
      show Router.Handover s.acceptor s.pool.submitters.length s.clients
        (s.metrics.record o).accepted
      rw [record_accepted]
      exact hh
  | stopPool =>
      show Router.Handover s.acceptor (s.pool.stopCall .drain).submitters.length s.clients
        s.metrics.accepted
      rw [ThreadPool.stopCall_submitters]
      exact hh
  | clock | handlerReturn | leave | join | grace | readRemaining | drop | dropped | poolStopped
  | finale => exact hh

/-! ## Jobs -/

/-- The task of a client whose run has not begun. -/
def IsFresh (cfg : Config) (clients : List Nat) (t : ThreadPool.Task Job) : Prop :=
  clients[t.id]? = some t.body.fd ∧ t.body = .fresh cfg.handler t.body.fd

/-- The task of a client whose run has begun. -/
def IsUnderway (clients : List Nat) (t : ThreadPool.Task Job) : Prop :=
  clients[t.id]? = some t.body.fd ∧ t.body.rest.Follows settlement t.body.tally ∧
    t.body.tally.Sound

/-- The task of a client whose run has returned. -/
def IsDone (clients : List Nat) (t : ThreadPool.Task Job) : Prop :=
  clients[t.id]? = some t.body.fd ∧ t.body.tally.settled

/-- Every task is its client's, at its stage. -/
structure Jobs (cfg : Config) (s : State) : Prop where
  waiting : ThreadPool.Waiting (IsFresh cfg s.clients) s.pool
  running : ThreadPool.Running (IsUnderway s.clients) s.pool
  returned : ∀ t ∈ s.returned, IsDone s.clients t
  finished : s.pool.finished = s.returned.map ThreadPool.Task.id

theorem IsFresh.underway {clients : List Nat} {t : ThreadPool.Task Job}
    (h : IsFresh cfg clients t) : IsUnderway clients t := by
  obtain ⟨hclient, hfresh⟩ := h
  refine ⟨hclient, ?_, ?_⟩
  · rw [hfresh]
    exact handleOneSet_settles cfg.handler
  · rw [hfresh]
    exact ⟨Nat.zero_le _, le_rfl, le_rfl⟩

theorem getElem?_client {clients : List Nat} {i fd : Nat} (new : Nat)
    (h : clients[i]? = some fd) : (clients ++ [new])[i]? = some fd := by
  rw [List.getElem?_append_left (lt_of_getElem? h), h]

/-- Old clients keep their places when a new one comes. -/
theorem Jobs.accept (hj : Jobs cfg s) (fd : Nat) (acceptor : Acceptor) :
    Jobs cfg { s with acceptor := acceptor, clients := s.clients ++ [fd] } where
  waiting := hj.waiting.mono (fun _ ht => ⟨getElem?_client fd ht.1, ht.2⟩)
  running := fun w hw t ht =>
    ⟨getElem?_client fd (hj.running w hw t ht).1, (hj.running w hw t ht).2⟩
  returned := fun t ht => ⟨getElem?_client fd (hj.returned t ht).1, (hj.returned t ht).2⟩
  finished := hj.finished

theorem jobs_step (h : Step cfg s e s') (hh : s.Handover) (hj : Jobs cfg s) : Jobs cfg s' := by
  obtain ⟨hwaiting, hrunning, hreturned, hfinished⟩ := hj
  have hset : ∀ {w : Nat} {worker : ThreadPool.Worker Job},
      (∀ t, worker = .running t → IsUnderway s.clients t) →
      ∀ v ∈ s.pool.workers.set w worker, ∀ t, v = .running t → IsUnderway s.clients t :=
    fun hnew => forall_mem_set hrunning hnew
  cases h with
  | accept => exact Jobs.accept ⟨hwaiting, hrunning, hreturned, hfinished⟩ _ _
  | submit hpc =>
      refine ⟨hwaiting.submit ⟨hh.next_client ?_, rfl⟩, hrunning, hreturned, hfinished⟩
      rw [hpc]
      rfl
  | pool hquiet hp =>
      have hstep := ThreadPool.step_cases hp
      refine ⟨ThreadPool.waiting_step hstep ?_ hwaiting,
        ThreadPool.running_step hstep hquiet (hwaiting.mono (fun _ ht => ht.underway)) hrunning,
        hreturned, ?_⟩
      · intro body heq
        rw [heq] at hquiet
        cases hquiet
      · exact (ThreadPool.quiet_step hstep hquiet).2.2.1.trans hfinished
  | @handlerCall w t o k r hw hrest =>
      refine ⟨⟨hwaiting.submitters, hwaiting.queue⟩, hset ?_, hreturned, hfinished⟩
      intro t' ht'
      cases ht'
      obtain ⟨hclient, hfollows, hsound⟩ := hrunning.of_getElem? hw
      rw [hrest, Prog.follows_call] at hfollows
      exact ⟨hclient, hfollows.2 r, hsound.count hfollows.1⟩
  | @handlerReturn w t hw hrest =>
      refine ⟨⟨hwaiting.submitters, hwaiting.queue⟩, hset ?_, ?_, ?_⟩
      · intro t' ht'
        cases ht'
      · intro t' ht'
        rcases List.mem_append.mp ht' with hold | hnew
        · exact hreturned t' hold
        · rw [List.mem_singleton.mp hnew]
          obtain ⟨hclient, hfollows, -⟩ := hrunning.of_getElem? hw
          rw [hrest, Prog.follows_pure] at hfollows
          exact ⟨hclient, hfollows⟩
      · simp [hfinished]
  | stopPool =>
      refine ⟨ThreadPool.waiting_step (o := cfg.poolOptions) (ThreadPool.stopCall_cases .drain) ?_
        hwaiting, ?_, hreturned, ?_⟩
      · intro body heq
        cases heq
      · intro w hw
        rw [ThreadPool.stopCall_workers] at hw
        exact hrunning w hw
      · rw [ThreadPool.stopCall_finished]
        exact hfinished
  | clock | wander | incAccepted | submitted | refused | closeRefused | countRefused | leave | join
  | grace | readRemaining | drop | dropped | poolStopped | finale =>
      exact ⟨hwaiting, hrunning, hreturned, hfinished⟩

/-! ## Workers -/

/-- What a step makes of worker `w`. -/
inductive WorkerStep (cfg : Config) (e : Event) (w : Nat) (x : Option (ThreadPool.Worker Job)) :
    Option (ThreadPool.Worker Job) → Prop where
  | same : WorkerStep cfg e w x x
  /-- A worker that runs nothing may pop a task, whose run has not begun. -/
  | idle {y : Option (ThreadPool.Worker Job)} : (∀ t, x ≠ some (.running t)) →
      (∀ t, y = some (.running t) → ∃ fd, t.body = .fresh cfg.handler fd) → WorkerStep cfg e w x y
  | call {t : ThreadPool.Task Job} {o : Op} {k : o.Ret → Code Unit} (r : o.Ret) :
      e = .handlerCall w o r → x = some (.running t) → t.body.rest = .call o k →
      WorkerStep cfg e w x (some (.running
        { t with body := { t.body with rest := k r, tally := t.body.tally.count o } }))
  | finish {t : ThreadPool.Task Job} : x = some (.running t) → t.body.rest = .pure () →
      WorkerStep cfg e w x (some .ready)

theorem worker_step (h : Step cfg s e s') (hj : Jobs cfg s) (w : Nat) :
    WorkerStep cfg e w s.pool.workers[w]? s'.pool.workers[w]? := by
  cases h with
  | @pool _ p hquiet hp =>
      rcases ThreadPool.worker_step (ThreadPool.step_cases hp) hquiet w with hsame | ⟨hidle, hnew⟩
      · show WorkerStep cfg _ w _ p.workers[w]?
        rw [hsame]
        exact .same
      · refine .idle hidle (fun t ht => ?_)
        exact ⟨t.body.fd, (hj.waiting.queue t (hnew t ht)).2⟩
  | @handlerCall v t o k r hv hrest =>
      show WorkerStep cfg _ w _ (s.pool.workers.set v _)[w]?
      rw [getElem?_set_eq _ hv]
      by_cases hwv : w = v
      · subst hwv
        rw [if_pos rfl]
        exact .call r rfl hv hrest
      · rw [if_neg hwv]
        exact .same
  | @handlerReturn v t hv hrest =>
      show WorkerStep cfg _ w _ (s.pool.workers.set v _)[w]?
      rw [getElem?_set_eq _ hv]
      by_cases hwv : w = v
      · subst hwv
        rw [if_pos rfl]
        exact .finish hv hrest
      · rw [if_neg hwv]
        exact .same
  | stopPool =>
      show WorkerStep cfg _ w _ (s.pool.stopCall .drain).workers[w]?
      rw [ThreadPool.stopCall_workers]
      exact .same
  | clock | wander | accept | incAccepted | submit | submitted | refused | closeRefused
  | countRefused | leave | join | grace | readRemaining | drop | dropped | poolStopped
  | finale => exact .same

/-! ## Counters -/

section Spent

variable {M : Type} [AddCancelCommMonoid M]

/-- What all runs together, going on or returned, have counted. -/
def spent (f : Tally → M) (workers : List (ThreadPool.Worker Job))
    (returned : List (ThreadPool.Task Job)) : M :=
  total (ThreadPool.Worker.weight (fun j => f j.tally)) workers +
    total (fun t => f t.body.tally) returned

def State.spent (f : Tally → M) (s : State) : M := Router.spent f s.pool.workers s.returned

/-- A handler's call exchanges what its run had counted. -/
theorem spent_set (f : Tally → M) {workers : List (ThreadPool.Worker Job)}
    (returned : List (ThreadPool.Task Job)) {w : Nat} {t : ThreadPool.Task Job} (j : Job)
    (hw : workers[w]? = some (.running t)) :
    spent f (workers.set w (.running { t with body := j })) returned + f t.body.tally =
      spent f workers returned + f j.tally := by
  have hset := total_set (ThreadPool.Worker.weight (fun j => f j.tally))
    (.running { t with body := j }) hw
  simp only [ThreadPool.Worker.weight] at hset
  rw [spent, spent, add_right_comm, hset, add_right_comm]

/-- Nothing else changes it. -/
theorem spent_step {f : Tally → M} (hf : f {} = 0) (h : Step cfg s e s')
    (hcall : ∀ w o r, e ≠ .handlerCall w o r) (hj : Jobs cfg s) : s'.spent f = s.spent f := by
  cases h with
  | handlerCall => exact absurd rfl (hcall _ _ _)
  | @pool _ p hquiet hp =>
      have hweight : p.weight (fun j => f j.tally) = s.pool.weight (fun j => f j.tally) := by
        refine ThreadPool.weight_step (ThreadPool.step_cases hp) hquiet (hj.waiting.mono ?_)
        intro t ht
        rw [ht.2]
        exact hf
      exact congrArg (· + total (fun t => f t.body.tally) s.returned) hweight
  | @handlerReturn w t hw =>
      have hset := total_set (ThreadPool.Worker.weight (fun j => f j.tally)) .ready hw
      simp only [State.spent, spent, total_append, total_cons, total_nil, ThreadPool.Worker.weight,
        add_zero] at hset ⊢
      rw [← hset]
      abel
  | stopPool => simp [State.spent]
  | clock | wander | accept | incAccepted | submit | submitted | refused | closeRefused
  | countRefused | leave | join | grace | readRemaining | drop | dropped | poolStopped
  | finale => rfl

end Spent

/-- The counters are sums over the runs. -/
structure Counters (s : State) : Prop where
  completed : s.metrics.completed = s.spent Tally.completed
  errored : s.metrics.errored = s.spent Tally.errored
  inFlight : s.metrics.inFlight = s.spent Tally.present

theorem record_completed (m : Metrics) (g : Tally) (o : Op) :
    (m.record o).completed + g.completed = m.completed + (g.count o).completed := by
  cases o <;> simp only [Metrics.record, Tally.count]
  omega

theorem record_errored (m : Metrics) (g : Tally) (o : Op) :
    (m.record o).errored + g.errored = m.errored + (g.count o).errored := by
  cases o <;> simp only [Metrics.record, Tally.count]
  omega

theorem record_inFlight (m : Metrics) (g : Tally) (o : Op) :
    (m.record o).inFlight + Tally.present g = m.inFlight + Tally.present (g.count o) := by
  cases o <;> simp only [Metrics.record, Tally.count, Tally.present] <;> omega

theorem counters_step (h : Step cfg s e s') (ho : s.Ordered) (hj : Jobs cfg s)
    (hc : Counters s) : Counters s' := by
  obtain ⟨hcompleted, herrored, hinFlight⟩ := hc
  by_cases hcall : ∃ w o r, e = .handlerCall w o r
  · obtain ⟨w, o, r, rfl⟩ := hcall
    cases h with
    | wander hacceptor => cases hacceptor
    | @handlerCall _ t _ k _ hw hrest =>
        -- the run exchanges its tally as the counters are updated
        have hset := fun {M : Type} [AddCancelCommMonoid M] (f : Tally → M) =>
          spent_set f s.returned
            { t.body with rest := k r, tally := t.body.tally.count o } hw
        refine ⟨?_, ?_, ?_⟩
        · have hrecord := record_completed s.metrics t.body.tally o
          rw [hcompleted] at hrecord
          exact add_right_cancel (hrecord.trans (hset Tally.completed).symm)
        · have hrecord := record_errored s.metrics t.body.tally o
          rw [herrored] at hrecord
          exact add_right_cancel (hrecord.trans (hset Tally.errored).symm)
        · have hrecord := record_inFlight s.metrics t.body.tally o
          rw [hinFlight] at hrecord
          exact add_right_cancel (hrecord.trans (hset Tally.present).symm)
  · have hnot : ∀ w o r, e ≠ .handlerCall w o r := fun w o r heq => hcall ⟨w, o, r, heq⟩
    have hsame : s'.metrics.completed = s.metrics.completed ∧
        s'.metrics.errored = s.metrics.errored ∧ s'.metrics.inFlight = s.metrics.inFlight := by
      cases h with
      | handlerCall => exact absurd rfl (hnot _ _ _)
      | countRefused hpc =>
          have href := ho.inRefusal
          rw [hpc] at href
          cases href
      | clock | wander | accept | incAccepted | submit | submitted | refused | closeRefused | pool
      | handlerReturn | leave | join | grace | readRemaining | drop | dropped | stopPool
      | poolStopped | finale => exact ⟨rfl, rfl, rfl⟩
    obtain ⟨hcompleted', herrored', hinFlight'⟩ := hsame
    refine ⟨?_, ?_, ?_⟩
    · rw [hcompleted', hcompleted, spent_step rfl h hnot hj]
    · rw [herrored', herrored, spent_step rfl h hnot hj]
    · rw [hinFlight', hinFlight, spent_step rfl h hnot hj]

/-- A handler that calls the backend set does so before its shutdown: its worker
has not exited, so `pool.stop()` has not returned. -/
theorem lateCalls_step (h : Step cfg s e s') (ho : s.Ordered)
    (ha : ThreadPool.Accounted cfg.poolOptions.normalise s.pool) :
    s'.lateCalls = s.lateCalls := by
  cases h with
  | handlerCall r hw =>
      have hbefore : s.main.shutdownBegun = false := by
        by_contra hbegun
        have hret := ho.returned (Main.poolStopped_of_shutdownBegun (by simpa using hbegun))
        exact ha.stopping.absurd_worker hret hw rfl
      simp [hbefore]
  | clock | wander | accept | incAccepted | submit | submitted | refused | closeRefused
  | countRefused | pool | handlerReturn | leave | join | grace | readRemaining | drop | dropped
  | stopPool | poolStopped | finale => rfl

/-! ## Reachable states -/

/-- What holds in every reachable state of the router, besides `reachable_pool`. -/
structure Routed (cfg : Config) (s : State) : Prop where
  ordered : s.Ordered
  handover : s.Handover
  jobs : Jobs cfg s
  counters : Counters s
  lateCalls : s.lateCalls = 0

theorem routed_init (cfg : Config) : Routed cfg (machine cfg).init := by
  have hidle : ∀ w ∈ (machine cfg).init.pool.workers, w = .ready := by
    intro w hw
    exact List.eq_of_mem_replicate hw
  have hzero : ∀ {M : Type} [AddCancelCommMonoid M] (f : Tally → M),
      (machine cfg).init.spent f = 0 := by
    intro M _ f
    have hworkers : total (ThreadPool.Worker.weight (fun j => f j.tally))
        (machine cfg).init.pool.workers = 0 := by
      apply total_eq_zero
      intro w hw
      rw [hidle w hw]
      rfl
    rw [State.spent, spent, hworkers, zero_add]
    rfl
  refine ⟨ordered_init cfg, ⟨le_rfl, rfl, rfl⟩, ⟨⟨?_, ?_⟩, ?_, ?_, rfl⟩,
    ⟨(hzero _).symm, (hzero _).symm, (hzero _).symm⟩, rfl⟩
  · intro p hp
    cases hp
  · intro t ht
    cases ht
  · intro w hw t ht
    rw [hidle w hw] at ht
    cases ht
  · intro t ht
    cases ht

theorem reachable_routed (h : (machine cfg).Reachable s) : Routed cfg s := by
  refine Machine.Reachable.invariant_with (P := Routed cfg) (fun _ hs => reachable_pool hs)
    (routed_init cfg) ?_ h
  intro t e t' ha hr hstep
  have hstep := step_cases hstep
  exact {
    ordered := ordered_step hstep hr.ordered
    handover := handover_step hstep hr.handover
    jobs := jobs_step hstep hr.handover hr.jobs
    counters := counters_step hstep hr.ordered hr.jobs hr.counters
    lateCalls := (lateCalls_step hstep hr.ordered ha).trans hr.lateCalls }

end InferenceRouter.Router
