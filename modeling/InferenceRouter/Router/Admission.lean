import InferenceRouter.Router.Termination

/-!
# What the acceptor lets in

The acceptor is the only thread that calls `submit`, one call after the other, and
it waits while the queue is full.  Three things follow.

* The router holds a bounded number of accepted clients: those in the queue, those
  that a worker runs, and the one in the acceptor's hands (`outstanding_le`).
* Runs of `handle_one` begin in the order in which `accept4` returned their
  clients (`served_in_order`).
* The loop over `accept4` ends only when `accept4` fails.  While clients keep
  coming, a set `stop_` does not end it, so `Acceptor::stop` need not return
  (`accepts_after_stop`).
-/

namespace InferenceRouter.Router

open Interleaving Handler

variable {cfg : Config} {s s' : State} {e : Event}

/-! ## The calls of `submit` -/

/-- All calls before the acceptor's have returned `true`. -/
theorem returned_of_lt (h : (machine cfg).Reachable s) {i j : Nat}
    (hcall : s.acceptor.submitCall = some i) (hj : j < i) :
    s.pool.submitters[j]? = some (.returned true) := by
  have hlast := (reachable_calling h).submit i hcall
  obtain ⟨p, hp⟩ : ∃ p, s.pool.submitters[j]? = some p :=
    ⟨_, List.getElem?_eq_getElem (by omega)⟩
  rcases ((reachable_routed h).ordered.calls j p hp).2 with rfl | hother
  · exact hp
  · rw [hcall, Option.some.injEq] at hother
    omega

/-- While the acceptor's call has not pushed its task, the calls before it have. -/
theorem pushed_perm_of_call (h : (machine cfg).Reachable s) {i : Nat}
    (hcall : s.acceptor.submitCall = some i)
    (hi : s.pool.submitters[i]? ≠ some (.returned true)) :
    s.pool.pushed.Perm (List.range i) := by
  have ha := reachable_pool h
  rw [List.perm_ext_iff_of_nodup ha.numbered.nodup List.nodup_range]
  intro j
  rw [ha.numbered.pushed_iff, List.mem_range]
  constructor
  · intro hj
    have hlast := (reachable_calling h).submit i hcall
    have hlt := lt_of_getElem? hj
    have hne : j ≠ i := by
      rintro rfl
      exact hi hj
    omega
  · exact returned_of_lt h hcall

/-- With no call under way, every call has pushed its task. -/
theorem pushed_perm_of_idle (h : (machine cfg).Reachable s)
    (hnone : ∀ i, s.acceptor.submitCall = some i →
      s.pool.submitters[i]? = some (.returned true)) :
    s.pool.pushed.Perm (List.range s.pool.submitters.length) := by
  have ha := reachable_pool h
  rw [List.perm_ext_iff_of_nodup ha.numbered.nodup List.nodup_range]
  intro j
  rw [ha.numbered.pushed_iff, List.mem_range]
  constructor
  · exact lt_of_getElem?
  · intro hj
    obtain ⟨p, hp⟩ : ∃ p, s.pool.submitters[j]? = some p := ⟨_, List.getElem?_eq_getElem hj⟩
    rcases ((reachable_routed h).ordered.calls j p hp).2 with rfl | hcall
    · exact hp
    · exact hnone j hcall

/-! ## The number of clients -/

/-- At most one client is not yet pushed. -/
theorem clients_le_pushed (h : (machine cfg).Reachable s) :
    s.clients.length ≤ s.pool.pushed.length + 1 := by
  have hr := reachable_routed h
  have hclients := hr.handover.length_of_inHand
  cases hcall : s.acceptor.submitCall with
  | none =>
      have hpushed := (pushed_perm_of_idle h (by simp [hcall])).length_eq
      rw [List.length_range] at hpushed
      have hone : s.acceptor.inHand.length ≤ 1 := by
        cases s.acceptor <;> simp [Acceptor.inHand]
      omega
  | some i =>
      have hlast := (reachable_calling h).submit i hcall
      have hnone : s.acceptor.inHand.length = 0 := by
        cases hpc : s.acceptor <;> simp_all [Acceptor.inHand, Acceptor.submitCall]
      by_cases hi : s.pool.submitters[i]? = some (.returned true)
      · have hpushed := (pushed_perm_of_idle h (fun j hj => by
          rw [hcall, Option.some.injEq] at hj
          exact hj ▸ hi)).length_eq
        rw [List.length_range] at hpushed
        omega
      · have hpushed := (pushed_perm_of_call h hcall hi).length_eq
        rw [List.length_range] at hpushed
        omega

/-- Main never discards a task. -/
theorem discarded_nil (h : (machine cfg).Reachable s) : s.pool.discarded = [] := by
  have ha := reachable_pool h
  cases hstop : s.pool.stop with
  | false => exact ha.ledger.discarded_nil hstop
  | true =>
      apply ha.stopping.drained
      cases hmode : s.pool.stopper.mode with
      | none =>
          rw [ha.stopping.idle_iff.mpr hmode] at hstop
          cases hstop
      | some mode =>
          cases mode with
          | drain => rfl
          | noDrain => exact absurd hmode (reachable_routed h).ordered.drains

/-- In every reachable state, the clients that `accept4` has returned and whose runs have
not returned are at most those that fit the queue, one for each worker, and one in the
acceptor's hands. -/
theorem outstanding_le (cfg : Config) {s : State} (h : (machine cfg).Reachable s) :
    s.clients.length ≤ s.returned.length + (cfg.poolOptions.normalise.maxQueueDepth +
      cfg.poolOptions.normalise.workerCount + 1) := by
  have ha := reachable_pool h
  have hclients := clients_le_pushed h
  have hpushed := ha.length_pushed
  have hrunning : s.pool.runningIds.card ≤ s.pool.workers.length := by
    rw [s.pool.card_runningIds]
    apply total_le_length
    intro w _
    cases w <;> simp [ThreadPool.Worker.runningIds]
  have hworkers := ThreadPool.reachable_workers ((poolView cfg).reachable h)
  have hreturned : s.pool.finished.length = s.returned.length := by
    rw [(reachable_routed h).jobs.finished, List.length_map]
  have hbound := ha.bound
  rw [discarded_nil h, List.length_nil] at hpushed
  omega

/-! ## The order of service -/

/-- The calls of `submit` push their tasks in the order in which they were made. -/
def State.InOrder (s : State) : Prop := s.pool.pushed = List.range s.pool.pushed.length

theorem inOrder_step (h : (machine cfg).Reachable s) (hstep : Step cfg s e s')
    (hin : s.InOrder) : s'.InOrder := by
  cases hstep with
  | pool hquiet hp =>
      cases ThreadPool.step_cases hp with
      | @push i p t _ workers hi hlock =>
          have hr := reachable_routed h
          have hid : t.id = i := (reachable_pool h).numbered.own i p t hi
            (ThreadPool.Submitter.task_of_atLock hlock)
          have hne : p ≠ .returned true :=
            ThreadPool.Submitter.returned_ne_of_task (ThreadPool.Submitter.task_of_atLock hlock)
          have hcall : s.acceptor.submitCall = some i :=
            (hr.ordered.calls i p hi).2.resolve_left hne
          have hlen := (pushed_perm_of_call h hcall (by simpa [hi] using hne)).length_eq
          rw [List.length_range] at hlen
          show s.pool.pushed ++ [t.id] = List.range (s.pool.pushed ++ [t.id]).length
          rw [List.length_append, List.length_singleton, List.range_succ, ← hin, hid, hlen]
      | submit | work | finish | stopAgain | stopDrain | stopNoDrain => cases hquiet
      | refuse | sleepSubmitter | spuriousSubmitter | sleepWorker | exit | pop | spuriousWorker
      | notifyNotEmpty | notifyNotFull | join => exact hin
  | stopPool =>
      show (s.pool.stopCall .drain).pushed = List.range (s.pool.stopCall .drain).pushed.length
      unfold ThreadPool.State.stopCall
      split <;> exact hin
  | clock | wander | accept | incAccepted | submit | submitted | refused | closeRefused
  | countRefused | handlerCall | handlerReturn | leave | join | grace | readRemaining | drop
  | dropped | poolStopped | finale => exact hin

theorem reachable_inOrder (h : (machine cfg).Reachable s) : s.InOrder := by
  refine Machine.Reachable.invariant_with (P := State.InOrder) (Q := (machine cfg).Reachable)
    (fun _ ht => ht) ?_ ?_ h
  · rfl
  · intro t e t' ht hin hstep
    exact inOrder_step ht (step_cases hstep) hin

/-- In every reachable state, the tasks that workers have popped are those of the first
clients, popped in the order in which `accept4` returned them; and the queued ones follow
in that order. -/
theorem served_in_order (cfg : Config) {s : State} (h : (machine cfg).Reachable s) :
    s.pool.popped ++ s.pool.queue.map ThreadPool.Task.id =
        List.range (s.pool.popped.length + s.pool.queue.length) ∧
      ∀ t ∈ s.pool.queue, s.clients[t.id]? = some t.body.fd := by
  have ha := reachable_pool h
  have hpushed := ha.ledger.pushed_eq
  rw [discarded_nil h, List.append_nil] at hpushed
  refine ⟨?_, fun t ht => ((reachable_routed h).jobs.waiting.queue t ht).1⟩
  have hin : s.pool.pushed = List.range s.pool.pushed.length := reachable_inOrder h
  rw [hpushed] at hin
  rw [List.length_append, List.length_map] at hin
  exact hin

/-- One worker runs the first client, the second fills the queue, and the third is in the
acceptor's hands. -/
def threeClients : List Event :=
  [.acceptor, .epollWait (.ok [.listen]), .acceptor, .accept4 (.ok 7), .acceptor, .acceptor,
    .pool (.submitLock 0 none), .pool (.workerLock 0 none), .acceptor, .accept4 (.ok 9), .acceptor,
    .acceptor, .pool (.submitLock 1 none), .acceptor, .accept4 (.ok 11)]

theorem outstanding_le_threeClients : ∃ s,
    (machine { threads := 1, maxQueueDepth := 1 }).run threeClients = some s ∧
      s.clients.length = 3 ∧ s.clients.length ≤ 0 + (1 + 1 + 1) := by
  refine ⟨_, rfl, rfl, ?_⟩
  exact @outstanding_le { threads := 1, maxQueueDepth := 1 } _ ⟨threeClients, rfl⟩

theorem served_in_order_threeClients : ∃ s,
    (machine { threads := 1, maxQueueDepth := 1 }).run threeClients = some s ∧
      s.pool.popped ++ s.pool.queue.map ThreadPool.Task.id = [0, 1] := by
  refine ⟨_, rfl, ?_⟩
  exact (@served_in_order { threads := 1, maxQueueDepth := 1 } _ ⟨threeClients, rfl⟩).1

/-! ## The accept loop -/

/-- The run on worker `w` has returned, and nothing else but counters has changed. -/
structure Finishes (w : Nat) (s s' : State) : Prop where
  acceptor : s'.acceptor = s.acceptor
  main : s'.main = s.main
  stop : s'.stopAccepting = s.stopAccepting
  clients : s'.clients = s.clients
  queue : s'.pool.queue = s.pool.queue
  poolStop : s'.pool.stop = s.pool.stop
  submitters : s'.pool.submitters = s.pool.submitters
  workers : s'.pool.workers = s.pool.workers.set w .ready

/-- The router after the run `t` on worker `w` has made the call `o`. -/
def State.called (s : State) (w : Nat) (t : ThreadPool.Task Job) (o : Op) (rest : Code Unit) :
    State :=
  { s with
    pool := { s.pool with workers := s.pool.workers.set w (.running
      { t with body := { t.body with rest := rest, tally := t.body.tally.count o } }) }
    metrics := s.metrics.record o
    lateCalls :=
      if s.main.shutdownBegun && isBackendSetCall o then s.lateCalls + 1 else s.lateCalls }

/-- Every run of the handler can be brought to its end. -/
theorem exists_finishes (p : Code Unit) {w : Nat} {t : ThreadPool.Task Job}
    (hw : s.pool.workers[w]? = some (.running t)) (hrest : t.body.rest = p) :
    ∃ es s', (machine cfg).exec s es = some s' ∧ Finishes w s s' := by
  induction p generalizing s t with
  | pure u =>
      refine ⟨[.handlerReturn w], { s with
        pool := { s.pool with
          workers := s.pool.workers.set w .ready, finished := s.pool.finished ++ [t.id] }
        returned := s.returned ++ [t] }, Machine.exec_single_iff.mpr ?_,
        ⟨rfl, rfl, rfl, rfl, rfl, rfl, rfl, rfl⟩⟩
      simp [machine, step, State.handlerReturn, hw, hrest, Prog.isPure, ThreadPool.step,
        ThreadPool.State.finish]
  | call o k ih =>
      obtain ⟨r⟩ := Op.ret_nonempty o
      have hstep : (machine cfg).step s (.handlerCall w o r) = some (s.called w t o (k r)) := by
        simp [machine, step, State.handlerCall, hw, Job.call, hrest, ThreadPool.step,
          ThreadPool.State.work, State.called]
      have hw' : (s.called w t o (k r)).pool.workers[w]? = some (.running
          { t with body := { t.body with rest := k r, tally := t.body.tally.count o } }) :=
        (getElem?_set_eq _ hw w).trans (if_pos rfl)
      obtain ⟨es, s', hexec, hf⟩ := ih r hw' rfl
      exact ⟨.handlerCall w o r :: es, s', Machine.exec_cons_iff.mpr ⟨_, hstep, hexec⟩,
        hf.acceptor, hf.main, hf.stop, hf.clients, hf.queue, hf.poolStop, hf.submitters,
        hf.workers.trans (List.set_set ..)⟩

/-- The acceptor is in its loop over `accept4` while main waits for it to exit, and the
pool has nothing to do. -/
structure Lingering (s : State) : Prop where
  acceptor : ∃ ready, s.acceptor = .accepting ready
  main : s.main = .joinAcceptor
  stop : s.stopAccepting = true
  queue : s.pool.queue = []
  poolStop : s.pool.stop = false
  worker : ∃ rest, s.pool.workers = .ready :: rest
  workers : ∀ w ∈ s.pool.workers, w = .ready
  submitters : ∀ p ∈ s.pool.submitters, ThreadPool.notFull.asleep p = false

theorem step_pool {e : ThreadPool.Event Job} {p : ThreadPool.State Job} (hquiet : e.quiet = true)
    (hp : ThreadPool.step cfg.poolOptions.normalise s.pool e = some p) :
    (machine cfg).step s (.pool e) = some { s with pool := p } := by
  simp [machine, step, hquiet, hp]

/-- The state in which one more client has been taken in and popped by worker 0. -/
def State.admitted (cfg : Config) (s : State) (ready : List Ready)
    (rest : List (ThreadPool.Worker Job)) : State :=
  { s with
    acceptor := .accepting ready
    clients := s.clients ++ [7]
    metrics := { s.metrics with accepted := s.metrics.accepted + 1 }
    pool := { s.pool with
      submitters := s.pool.submitters ++ [.returned true]
      workers := .running ⟨s.pool.submitters.length, .fresh cfg.handler 7⟩ :: rest
      pushed := s.pool.pushed ++ [s.pool.submitters.length]
      popped := s.pool.popped ++ [s.pool.submitters.length] } }

/-- The acceptor takes a client in while a worker waits for it. -/
theorem Lingering.admit (h : Lingering s) {ready : List Ready}
    {rest : List (ThreadPool.Worker Job)} (hacceptor : s.acceptor = .accepting ready)
    (hworkers : s.pool.workers = .ready :: rest) :
    (machine cfg).exec s [.accept4 (.ok 7), .acceptor, .acceptor,
      .pool (.submitLock s.pool.submitters.length none), .acceptor,
      .pool (.workerLock 0 none)] = some (s.admitted cfg ready rest) := by
  have hpos : 0 < cfg.poolOptions.normalise.maxQueueDepth := by
    simp only [ThreadPool.Options.normalise]
    split <;> omega
  have hawake : ∀ w ∈ s.pool.workers, ThreadPool.notEmpty.asleep w = false := by
    intro w hw
    rw [h.workers w hw]
    rfl
  let t : ThreadPool.Task Job := ⟨s.pool.submitters.length, .fresh cfg.handler 7⟩
  let s₁ : State := { s with acceptor := .accepted 7 ready, clients := s.clients ++ [7] }
  let s₂ : State := { s₁ with
    acceptor := .counted 7 ready
    metrics := { s.metrics with accepted := s.metrics.accepted + 1 } }
  let s₃ : State := { s₂ with
    acceptor := .submitting s.pool.submitters.length 7 ready
    pool := { s.pool with submitters := s.pool.submitters ++ [.entered t] } }
  let s₄ : State := { s₃ with pool := { s.pool with
    queue := [t]
    submitters := s.pool.submitters ++ [.returned true]
    pushed := s.pool.pushed ++ [t.id] } }
  have h₁ : (machine cfg).step s (.accept4 (.ok 7)) = some s₁ := by
    simp [machine, step, State.accept4, hacceptor, s₁]
  have h₄ : (machine cfg).step s₃ (.pool (.submitLock t.id none)) = some s₄ := by
    have hpush := ThreadPool.step_push (o := cfg.poolOptions.normalise) (s := s₃.pool)
      (i := t.id) (t := t) (by simp [s₃, t]) h.poolStop rfl
      (by simpa [s₃, s₂, s₁, h.queue] using hpos) hawake
    rw [step_pool rfl hpush]
    simp [s₄, s₃, s₂, s₁, t, h.queue]
  let s₅ : State := { s₄ with acceptor := .accepting ready }
  have h₅ : (machine cfg).step s₄ .acceptor = some s₅ := by
    simp [machine, step, State.acceptorStep, s₅, s₄, s₃]
  have h₆ : (machine cfg).step s₅ (.pool (.workerLock 0 none)) =
      some (s.admitted cfg ready rest) := by
    have hpop := ThreadPool.step_pop (o := cfg.poolOptions.normalise) (s := s₅.pool) (w := 0)
      (t := t) (by simp [s₅, s₄, hworkers]) rfl (by
        intro p hp
        rcases List.mem_append.mp hp with hold | hnew
        · exact h.submitters p hold
        · rw [List.mem_singleton.mp hnew]
          rfl)
    rw [step_pool rfl hpop]
    simp [State.admitted, s₅, s₄, s₃, s₂, s₁, t, hworkers, h.queue]
  exact Machine.exec_cons_iff.mpr ⟨s₁, h₁, Machine.exec_cons_iff.mpr ⟨s₂, rfl,
    Machine.exec_cons_iff.mpr ⟨s₃, rfl, Machine.exec_cons_iff.mpr ⟨s₄, h₄,
    Machine.exec_cons_iff.mpr ⟨s₅, h₅, Machine.exec_single_iff.mpr h₆⟩⟩⟩⟩⟩

/-- And serves it, so that everything is as before but for one client. -/
theorem Lingering.serve (h : Lingering s) : ∃ es s', (machine cfg).exec s es = some s' ∧
    Lingering s' ∧ s'.clients.length = s.clients.length + 1 := by
  obtain ⟨ready, hacceptor⟩ := h.acceptor
  obtain ⟨rest, hworkers⟩ := h.worker
  obtain ⟨es, s', hexec, hf⟩ : ∃ es s', (machine cfg).exec (s.admitted cfg ready rest) es =
      some s' ∧ Finishes 0 (s.admitted cfg ready rest) s' := exists_finishes _ rfl rfl
  refine ⟨_ ++ es, s', Machine.exec_append_iff.mpr ⟨_, h.admit hacceptor hworkers, hexec⟩, ?_, ?_⟩
  · have hpool : s'.pool.workers = s.pool.workers := by
      rw [hf.workers, hworkers]
      rfl
    refine ⟨⟨ready, hf.acceptor⟩, hf.main.trans h.main, hf.stop.trans h.stop,
      hf.queue.trans h.queue, hf.poolStop.trans h.poolStop, ⟨rest, hpool.trans hworkers⟩, ?_, ?_⟩
    · rw [hpool]
      exact h.workers
    · rw [hf.submitters]
      intro p hp
      rcases List.mem_append.mp hp with hold | hnew
      · exact h.submitters p hold
      · rw [List.mem_singleton.mp hnew]
        rfl
  · rw [hf.clients]
    exact List.length_append

/-- The acceptor has just seen its listening socket ready when main sets `stop_`. -/
def stopWhileAccepting : List Event :=
  [.acceptor, .epollWait (.ok [.listen]), .acceptor, .main, .main, .main]

/-- Setting `stop_` does not end the loop over `accept4`: there is a state without any
client in which main has set `stop_` and waits for the acceptor thread, and from it, for
every `n`, a run in which `n` clients are accepted and main still waits. -/
theorem accepts_after_stop (cfg : Config) :
    ∃ s, (machine cfg).run stopWhileAccepting = some s ∧ s.stopAccepting = true ∧
      s.main = .joinAcceptor ∧ s.clients = [] ∧
      ∀ n, ∃ es s', (machine cfg).exec s es = some s' ∧ s'.clients.length = n ∧
        s'.main = .joinAcceptor := by
  have hlingering : Lingering { (machine cfg).init with
      acceptor := .accepting [], main := .joinAcceptor, stopAccepting := true } := by
    refine ⟨⟨[], rfl⟩, rfl, rfl, rfl, rfl, ?_, ?_, ?_⟩
    · obtain ⟨n, hn⟩ := Nat.exists_eq_succ_of_ne_zero
        cfg.poolOptions.normalise_workerCount_pos.ne'
      refine ⟨List.replicate n .ready, ?_⟩
      show List.replicate _ _ = _
      rw [hn, List.replicate_succ]
    · intro w hw
      exact List.eq_of_mem_replicate hw
    · intro p hp
      cases hp
  refine ⟨_, rfl, rfl, rfl, rfl, fun n => ?_⟩
  -- one more client each time round
  have hrun : ∃ es s', (machine cfg).exec { (machine cfg).init with
      acceptor := .accepting [], main := .joinAcceptor, stopAccepting := true } es = some s' ∧
      s'.clients.length = n ∧ Lingering s' := by
    induction n with
    | zero => exact ⟨[], _, rfl, rfl, hlingering⟩
    | succ n ih =>
        obtain ⟨es, t, hexec, hlen, ht⟩ := ih
        obtain ⟨es', t', hexec', ht', hlen'⟩ := @Lingering.serve cfg t ht
        exact ⟨es ++ es', t', Machine.exec_append_iff.mpr ⟨t, hexec, hexec'⟩, by omega, ht'⟩
  obtain ⟨es, s', hexec, hlen, hs'⟩ := hrun
  exact ⟨es, s', hexec, hlen, hs'.main⟩

end InferenceRouter.Router
