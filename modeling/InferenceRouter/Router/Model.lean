import InferenceRouter.Handler
import InferenceRouter.ThreadPool.Tasks

/-!
# The router process

The threads that `main` starts, as one machine: the acceptor thread in
`Acceptor::loop_`, the thread pool of `ThreadPool.Model` with the handler run of
each task, and the main thread from the end of its wait loop to the final log
line.

A task of the pool is a `Job`: the client's descriptor and what is left of
`handle_one`.  A handler makes one call at a time, with an arbitrary result, and
`finish` is the return of a run that has no calls left.  A run may also throw
(`State.handlerThrow`): that is a step of the process with allocations that fail,
`Process.attempts`, and not of the machine here.  The acceptor calls `submit`
through the pool's own events, and so does main call `stop`: the pool's component
moves by the pool's step function only.

Every access of an atomic counter is a step of its own.  `inFlight` is an
integer, so that a decrement below zero would show.

`clients`, `returned`, `refusals` and `lateCalls` record what happened and are
read by no step: the descriptors that `accept4` returned, the runs that have
returned, how often the accept callback took its branch for a refused task, and
how often a handler called the backend set after its shutdown had begun.
-/

namespace InferenceRouter.Router

open Interleaving Handler

/-! ## Metrics -/

/-- The counters of `Metrics` that the modelled threads touch. -/
structure Metrics where
  accepted : Nat := 0
  completed : Nat := 0
  errored : Nat := 0
  dropped : Nat := 0
  inFlight : Int := 0

/-- The effect of a handler's call on the counters. -/
def Metrics.record (m : Metrics) : Op → Metrics
  | .incInFlight => { m with inFlight := m.inFlight + 1 }
  | .decInFlight => { m with inFlight := m.inFlight - 1 }
  | .incCompleted => { m with completed := m.completed + 1 }
  | .incErrored => { m with errored := m.errored + 1 }
  | _ => m

/-! ## Jobs -/

/-- A run of `handle_one`: its client, what is left of it, and the counter
updates it has made. -/
structure Job where
  fd : Nat
  rest : Code Unit
  tally : Tally := {}

/-- The lambda that the accept callback submits. -/
def Job.fresh (opts : HandlerOptions) (fd : Nat) : Job where
  fd := fd
  rest := handleOneSet opts

/-- The next call of the run, when it is `o`, returns `r`. -/
def Job.call (j : Job) (o : Op) (r : o.Ret) : Option Job :=
  match j.rest with
  | .pure _ => none
  | .call o' k =>
      if h : o = o' then some { j with rest := k (h ▸ r), tally := j.tally.count o } else none

/-- Calls of `BackendSet::borrow` and `BackendSet::release`. -/
def isBackendSetCall : Op → Bool
  | .setBorrow | .setRelease .. => true
  | _ => false

/-! ## Threads -/

/-- The descriptors that `epoll_wait` reports. -/
inductive Ready where
  | wake
  | listen

inductive Errno where
  | eintr
  | eagain
  | other

/-- The acceptor thread.  Each list holds the ready descriptors that are still
to be looked at. -/
inductive Acceptor where
  /-- At the condition of the outer loop. -/
  | loopHead
  /-- In `epoll_wait`. -/
  | polling
  | dispatch (ready : List Ready)
  /-- In `accept4`. -/
  | accepting (ready : List Ready)
  /-- With a client, before `inc_accepted`. -/
  | accepted (fd : Nat) (ready : List Ready)
  /-- Before the call of `pool.submit`. -/
  | counted (fd : Nat) (ready : List Ready)
  /-- In the `i`-th call of `pool.submit`. -/
  | submitting (i fd : Nat) (ready : List Ready)
  /-- `submit` returned `false`, before `safe_close`. -/
  | refused (fd : Nat) (ready : List Ready)
  /-- Before `inc_errored`. -/
  | closed (ready : List Ready)
  | exited

/-- The main thread. -/
inductive Main where
  /-- In the wait loop. -/
  | serving
  /-- In `acceptor.stop()`, before `stop_.store`. -/
  | stopAcceptor
  /-- Before the write to the eventfd. -/
  | wakeAcceptor
  | joinAcceptor
  /-- Before `grace_end` is computed. -/
  | startGrace
  /-- At `metrics.in_flight() > 0` of the grace loop. -/
  | graceInFlight (graceEnd : Int)
  /-- At `now() < grace_end` of the grace loop. -/
  | graceClock (graceEnd : Int)
  | graceSleep (graceEnd wakeAt : Int)
  /-- At the test of `in_flight` after the loop. -/
  | checkDropped
  /-- At the warning, whose argument is one more load of `in_flight`. -/
  | warnDropped
  /-- At `remaining = metrics.in_flight()`. -/
  | readRemaining
  | dropping (remaining : Nat)
  /-- Before `pool.stop()`. -/
  | stopPool
  /-- In `pool.stop()`. -/
  | stoppingPool
  /-- `pool.stop()` has returned, before `backend_set.shutdown()`. -/
  | stoppedPool
  /-- In `backend_set.shutdown()`. -/
  | shuttingBackends
  /-- Before the final log line. -/
  | logFinal
  | returned

/-- `pool.stop()` has returned. -/
def Main.poolStopped : Main → Bool
  | .stoppedPool | .shuttingBackends | .logFinal | .returned => true
  | _ => false

/-- `backend_set.shutdown()` has begun. -/
def Main.shutdownBegun : Main → Bool
  | .shuttingBackends | .logFinal | .returned => true
  | _ => false

structure State where
  now : Int := 0
  acceptor : Acceptor := .loopHead
  /-- `Acceptor::stop_`. -/
  stopAccepting : Bool := false
  main : Main := .serving
  pool : ThreadPool.State Job
  metrics : Metrics := {}
  clients : List Nat := []
  returned : List (ThreadPool.Task Job) := []
  refusals : Nat := 0
  lateCalls : Nat := 0

/-- The arguments of the process that the modelled threads read. -/
structure Config where
  threads : Nat := 8
  maxQueueDepth : Nat := 4096
  handler : HandlerOptions := {}
  shutdownGraceMs : Int := 30000

/-- `topts` of `main`. -/
def Config.poolOptions (cfg : Config) : ThreadPool.Options where
  workerCount := cfg.threads
  maxQueueDepth := cfg.maxQueueDepth
  rejectOnFull := false

/-! ## The acceptor -/

/-- `kMaxEvents`. -/
def kMaxEvents : Nat := 16

/-- The steps of the acceptor that no system call decides. -/
def State.acceptorStep (cfg : Config) (s : State) : Option State :=
  match s.acceptor with
  | .loopHead =>
      some { s with acceptor := if s.stopAccepting = true then .exited else .polling }
  | .dispatch [] => some { s with acceptor := .loopHead }
  | .dispatch (.wake :: ready) => some { s with acceptor := .dispatch ready }
  | .dispatch (.listen :: ready) => some { s with acceptor := .accepting ready }
  | .accepted fd ready =>
      some { s with
        acceptor := .counted fd ready
        metrics := { s.metrics with accepted := s.metrics.accepted + 1 } }
  | .counted fd ready =>
      (ThreadPool.step cfg.poolOptions.normalise s.pool (.submit (.fresh cfg.handler fd))).map
        (fun pool => { s with
          acceptor := .submitting s.pool.submitters.length fd ready, pool := pool })
  | .submitting i fd ready =>
      match s.pool.submitters[i]? with
      | some (.returned true) => some { s with acceptor := .accepting ready }
      | some (.returned false) =>
          some { s with acceptor := .refused fd ready, refusals := s.refusals + 1 }
      | _ => none
  | .refused _ ready => some { s with acceptor := .closed ready }
  | .closed ready =>
      some { s with
        acceptor := .accepting ready
        metrics := { s.metrics with errored := s.metrics.errored + 1 } }
  | .polling | .accepting _ | .exited => none

/-- `epoll_wait` returns. -/
def State.epollWait (s : State) (r : Except Errno (List Ready)) : Option State :=
  match s.acceptor with
  | .polling =>
      match r with
      | .ok ready =>
          if ready.length ≤ kMaxEvents then some { s with acceptor := .dispatch ready } else none
      | .error .eintr => some { s with acceptor := .loopHead }
      | .error _ => some { s with acceptor := .exited }
  | _ => none

/-- `accept4` returns. -/
def State.accept4 (s : State) (r : Except Errno Nat) : Option State :=
  match s.acceptor with
  | .accepting ready =>
      match r with
      | .ok fd => some { s with acceptor := .accepted fd ready, clients := s.clients ++ [fd] }
      | .error .eintr => some s
      | .error _ => some { s with acceptor := .dispatch ready }
  | _ => none

/-! ## Handlers -/

/-- The handler on worker `w` makes a call that returns `r`. -/
def State.handlerCall (cfg : Config) (s : State) (w : Nat) (o : Op) (r : o.Ret) : Option State :=
  match s.pool.workers[w]? with
  | some (.running t) =>
      (t.body.call o r).bind (fun body =>
        (ThreadPool.step cfg.poolOptions.normalise s.pool (.work w body)).map (fun pool =>
          { s with
            pool := pool
            metrics := s.metrics.record o
            lateCalls :=
              if s.main.shutdownBegun && isBackendSetCall o then s.lateCalls + 1
              else s.lateCalls }))
  | _ => none

/-- The run on worker `w` returns. -/
def State.handlerReturn (cfg : Config) (s : State) (w : Nat) : Option State :=
  match s.pool.workers[w]? with
  | some (.running t) =>
      if t.body.rest.isPure = true then
        (ThreadPool.step cfg.poolOptions.normalise s.pool (.finish w false)).map (fun pool =>
          { s with pool := pool, returned := s.returned ++ [t] })
      else none
  | _ => none

/-- `out.resize(len)` throws in the `read_message` that the run on worker `w` is in.  The run
ends there, nothing of its clean-up is done, and `worker_main` catches the exception. -/
def State.handlerThrow (cfg : Config) (s : State) (w : Nat) : Option State :=
  match s.pool.workers[w]? with
  | some (.running t) =>
      match t.body.rest.nextCall with
      | some (.readMessage ..) =>
          (ThreadPool.step cfg.poolOptions.normalise s.pool (.finish w true)).map (fun pool =>
            { s with pool := pool })
      | _ => none
  | _ => none

/-! ## The main thread -/

/-- The steps of the main thread. -/
def State.mainStep (cfg : Config) (s : State) : Option State :=
  match s.main with
  | .serving => some { s with main := .stopAcceptor }
  | .stopAcceptor => some { s with main := .wakeAcceptor, stopAccepting := true }
  | .wakeAcceptor => some { s with main := .joinAcceptor }
  | .joinAcceptor =>
      match s.acceptor with
      | .exited => some { s with main := .startGrace }
      | _ => none
  | .startGrace => some { s with main := .graceInFlight (s.now + cfg.shutdownGraceMs) }
  | .graceInFlight graceEnd =>
      if 0 < s.metrics.inFlight then some { s with main := .graceClock graceEnd }
      else some { s with main := .checkDropped }
  | .graceClock graceEnd =>
      if s.now < graceEnd then some { s with main := .graceSleep graceEnd (s.now + 20) }
      else some { s with main := .checkDropped }
  | .graceSleep graceEnd wakeAt =>
      if wakeAt ≤ s.now then some { s with main := .graceInFlight graceEnd } else none
  | .checkDropped =>
      if 0 < s.metrics.inFlight then some { s with main := .warnDropped }
      else some { s with main := .stopPool }
  | .warnDropped => some { s with main := .readRemaining }
  | .readRemaining => some { s with main := .dropping s.metrics.inFlight.toNat }
  | .dropping 0 => some { s with main := .stopPool }
  | .dropping (n + 1) =>
      some { s with
        main := .dropping n
        metrics := { s.metrics with dropped := s.metrics.dropped + 1 } }
  | .stopPool =>
      (ThreadPool.step cfg.poolOptions.normalise s.pool (.stop .drain)).map (fun pool =>
        { s with main := .stoppingPool, pool := pool })
  | .stoppingPool =>
      match s.pool.stopper with
      | .returned _ => some { s with main := .stoppedPool }
      | _ => none
  | .stoppedPool => some { s with main := .shuttingBackends }
  | .shuttingBackends => some { s with main := .logFinal }
  | .logFinal => some { s with main := .returned }
  | .returned => none

/-! ## The machine -/

inductive Event where
  | clock (ms : Nat)
  | acceptor
  | epollWait (r : Except Errno (List Ready))
  | accept4 (r : Except Errno Nat)
  /-- A quiet event of the pool: a critical section, a wakeup, or a step of the
  rest of main's call of `stop`. -/
  | pool (e : ThreadPool.Event Job)
  | handlerCall (w : Nat) (o : Op) (r : o.Ret)
  | handlerReturn (w : Nat)
  | main

def step (cfg : Config) (s : State) : Event → Option State
  | .clock ms => some { s with now := s.now + ms }
  | .acceptor => s.acceptorStep cfg
  | .epollWait r => s.epollWait r
  | .accept4 r => s.accept4 r
  | .pool e =>
      if e.quiet = true then
        (ThreadPool.step cfg.poolOptions.normalise s.pool e).map (fun pool =>
          { s with pool := pool })
      else none
  | .handlerCall w o r => s.handlerCall cfg w o r
  | .handlerReturn w => s.handlerReturn cfg w
  | .main => s.mainStep cfg

def machine (cfg : Config) : Machine State Event where
  init := { pool := ThreadPool.init cfg.poolOptions.normalise }
  step := step cfg

/-! ## What a step can do -/

/-- The acceptor has no client in its hands. -/
def Acceptor.idle : Acceptor → Bool
  | .loopHead | .polling | .dispatch _ | .accepting _ | .exited => true
  | .accepted _ _ | .counted _ _ | .submitting _ _ _ | .refused _ _ | .closed _ => false

/-- The steps of the acceptor thread. -/
def Event.ofAcceptor : Event → Bool
  | .acceptor | .epollWait _ | .accept4 _ => true
  | _ => false

/-- Main is not past the join of the acceptor thread. -/
def Main.beforeJoin : Main → Bool
  | .serving | .stopAcceptor | .wakeAcceptor | .joinAcceptor => true
  | _ => false

/-- Main is past that join, before `pool.stop()`, and not counting drops. -/
def Main.draining : Main → Bool
  | .startGrace | .graceInFlight _ | .graceClock _ | .graceSleep _ _ | .checkDropped | .warnDropped
  | .readRemaining | .stopPool => true
  | _ => false

/-- Every way in which an event changes the router.  Steps that move only the
acceptor between two points where it has no client, or only main within one
phase of the shutdown, are one constructor each. -/
inductive Step (cfg : Config) (s : State) : Event → State → Prop where
  | clock (ms : Nat) : Step cfg s (.clock ms) { s with now := s.now + ms }
  | wander {e : Event} {a : Acceptor} : e.ofAcceptor = true → s.acceptor.idle = true →
      s.acceptor ≠ .exited → a.idle = true → Step cfg s e { s with acceptor := a }
  | accept {fd : Nat} {ready : List Ready} : s.acceptor = .accepting ready →
      Step cfg s (.accept4 (.ok fd))
        { s with acceptor := .accepted fd ready, clients := s.clients ++ [fd] }
  | incAccepted {fd : Nat} {ready : List Ready} : s.acceptor = .accepted fd ready →
      Step cfg s .acceptor { s with
        acceptor := .counted fd ready
        metrics := { s.metrics with accepted := s.metrics.accepted + 1 } }
  | submit {fd : Nat} {ready : List Ready} : s.acceptor = .counted fd ready →
      Step cfg s .acceptor { s with
        acceptor := .submitting s.pool.submitters.length fd ready
        pool := { s.pool with submitters :=
          s.pool.submitters ++ [.entered ⟨s.pool.submitters.length, .fresh cfg.handler fd⟩] } }
  | submitted {i fd : Nat} {ready : List Ready} : s.acceptor = .submitting i fd ready →
      s.pool.submitters[i]? = some (.returned true) →
      Step cfg s .acceptor { s with acceptor := .accepting ready }
  | refused {i fd : Nat} {ready : List Ready} : s.acceptor = .submitting i fd ready →
      s.pool.submitters[i]? = some (.returned false) →
      Step cfg s .acceptor { s with acceptor := .refused fd ready, refusals := s.refusals + 1 }
  | closeRefused {fd : Nat} {ready : List Ready} : s.acceptor = .refused fd ready →
      Step cfg s .acceptor { s with acceptor := .closed ready }
  | countRefused {ready : List Ready} : s.acceptor = .closed ready →
      Step cfg s .acceptor { s with
        acceptor := .accepting ready
        metrics := { s.metrics with errored := s.metrics.errored + 1 } }
  | pool {e : ThreadPool.Event Job} {p : ThreadPool.State Job} : e.quiet = true →
      ThreadPool.step cfg.poolOptions.normalise s.pool e = some p →
      Step cfg s (.pool e) { s with pool := p }
  | handlerCall {w : Nat} {t : ThreadPool.Task Job} {o : Op} {k : o.Ret → Code Unit} (r : o.Ret) :
      s.pool.workers[w]? = some (.running t) → t.body.rest = .call o k →
      Step cfg s (.handlerCall w o r) { s with
        pool := { s.pool with workers := s.pool.workers.set w (.running
          { t with body := { t.body with rest := k r, tally := t.body.tally.count o } }) }
        metrics := s.metrics.record o
        lateCalls :=
          if s.main.shutdownBegun && isBackendSetCall o then s.lateCalls + 1 else s.lateCalls }
  | handlerReturn {w : Nat} {t : ThreadPool.Task Job} :
      s.pool.workers[w]? = some (.running t) → t.body.rest = .pure () →
      Step cfg s (.handlerReturn w) { s with
        pool := { s.pool with
          workers := s.pool.workers.set w .ready, finished := s.pool.finished ++ [t.id] }
        returned := s.returned ++ [t] }
  | leave {m : Main} (stop : Bool) : s.main.beforeJoin = true → m.beforeJoin = true →
      Step cfg s .main { s with main := m, stopAccepting := stop }
  | join : s.main = .joinAcceptor → s.acceptor = .exited →
      Step cfg s .main { s with main := .startGrace }
  | grace {m : Main} : s.main.draining = true → s.main ≠ .readRemaining → m.draining = true →
      Step cfg s .main { s with main := m }
  | readRemaining : s.main = .readRemaining →
      Step cfg s .main { s with main := .dropping s.metrics.inFlight.toNat }
  | drop {n : Nat} : s.main = .dropping (n + 1) →
      Step cfg s .main { s with
        main := .dropping n, metrics := { s.metrics with dropped := s.metrics.dropped + 1 } }
  | dropped : s.main = .dropping 0 → Step cfg s .main { s with main := .stopPool }
  | stopPool : s.main = .stopPool →
      Step cfg s .main { s with main := .stoppingPool, pool := s.pool.stopCall .drain }
  | poolStopped {mode : ThreadPool.StopMode} : s.main = .stoppingPool →
      s.pool.stopper = .returned mode → Step cfg s .main { s with main := .stoppedPool }
  | finale {m : Main} : s.main.poolStopped = true → m.poolStopped = true →
      Step cfg s .main { s with main := m }

variable {cfg : Config} {s s' : State}

theorem acceptorStep_cases (h : s.acceptorStep cfg = some s') : Step cfg s .acceptor s' := by
  simp only [State.acceptorStep] at h
  split at h
  next hpc =>
    cases h
    refine .wander rfl (by rw [hpc]; rfl) (by simp [hpc]) ?_
    split <;> rfl
  next hpc =>
    cases h
    exact .wander rfl (by rw [hpc]; rfl) (by simp [hpc]) rfl
  next ready hpc =>
    cases h
    exact .wander rfl (by rw [hpc]; rfl) (by simp [hpc]) rfl
  next ready hpc =>
    cases h
    exact .wander rfl (by rw [hpc]; rfl) (by simp [hpc]) rfl
  next fd ready hpc =>
    cases h
    exact .incAccepted hpc
  next fd ready hpc =>
    cases h
    exact .submit hpc
  next i fd ready hpc =>
    split at h
    next hi =>
      cases h
      exact .submitted hpc hi
    next hi =>
      cases h
      exact .refused hpc hi
    next => cases h
  next fd ready hpc =>
    cases h
    exact .closeRefused hpc
  next ready hpc =>
    cases h
    exact .countRefused hpc
  next => cases h
  next => cases h
  next => cases h

theorem epollWait_cases {r : Except Errno (List Ready)} (h : s.epollWait r = some s') :
    Step cfg s (.epollWait r) s' := by
  simp only [State.epollWait] at h
  split at h
  next hpc =>
    have hmove : ∀ a : Acceptor, a.idle = true →
        Step cfg s (.epollWait r) { s with acceptor := a } := by
      intro a ha
      exact .wander rfl (by rw [hpc]; rfl) (by simp [hpc]) ha
    split at h
    next =>
      split at h
      next =>
        cases h
        exact hmove _ rfl
      next => cases h
    next =>
      cases h
      exact hmove _ rfl
    next =>
      cases h
      exact hmove _ rfl
  next => cases h

theorem accept4_cases {r : Except Errno Nat} (h : s.accept4 r = some s') :
    Step cfg s (.accept4 r) s' := by
  simp only [State.accept4] at h
  split at h
  next ready hpc =>
    have hmove : ∀ a : Acceptor, a.idle = true →
        Step cfg s (.accept4 r) { s with acceptor := a } := by
      intro a ha
      exact .wander rfl (by rw [hpc]; rfl) (by simp [hpc]) ha
    split at h
    next fd =>
      cases h
      exact .accept hpc
    next =>
      cases h
      exact hmove s.acceptor (by rw [hpc]; rfl)
    next =>
      cases h
      exact hmove _ rfl
  next => cases h

theorem handlerCall_cases {w : Nat} {o : Op} {r : o.Ret} (h : s.handlerCall cfg w o r = some s') :
    Step cfg s (.handlerCall w o r) s' := by
  simp only [State.handlerCall] at h
  split at h
  next t hw =>
    rw [Option.bind_eq_some_iff] at h
    obtain ⟨body, hbody, hpool⟩ := h
    simp only [Job.call] at hbody
    split at hbody
    next => cases hbody
    next o' k hrest =>
      split at hbody
      next heq =>
        subst heq
        cases hbody
        simp only [ThreadPool.step, ThreadPool.State.work, hw, Option.map_some] at hpool
        cases hpool
        exact .handlerCall r hw hrest
      next => cases hbody
  next => cases h

theorem handlerReturn_cases {w : Nat} (h : s.handlerReturn cfg w = some s') :
    Step cfg s (.handlerReturn w) s' := by
  simp only [State.handlerReturn] at h
  split at h
  next t hw =>
    split at h
    next hpure =>
      simp only [ThreadPool.step, ThreadPool.State.finish, hw, Option.map_some] at h
      cases h
      refine .handlerReturn hw ?_
      cases hrest : t.body.rest with
      | pure u => rfl
      | call o k => simp [hrest, Prog.isPure] at hpure
    next => cases h
  next => cases h

theorem mainStep_cases (h : s.mainStep cfg = some s') : Step cfg s .main s' := by
  unfold State.mainStep at h
  have hleave : ∀ {m m' : Main}, s.main = m → m.beforeJoin = true → m'.beforeJoin = true →
      Step cfg s .main { s with main := m' } := by
    intro m m' hm hbefore hbefore'
    exact .leave s.stopAccepting (by rw [hm]; exact hbefore) hbefore'
  have hgrace : ∀ {m m' : Main}, s.main = m → m.draining = true → m ≠ .readRemaining →
      m'.draining = true → Step cfg s .main { s with main := m' } := by
    intro m m' hm hdrain hne hdrain'
    exact .grace (by rw [hm]; exact hdrain) (by rw [hm]; exact hne) hdrain'
  have hfinale : ∀ {m m' : Main}, s.main = m → m.poolStopped = true → m'.poolStopped = true →
      Step cfg s .main { s with main := m' } := by
    intro m m' hm hstopped hstopped'
    exact .finale (by rw [hm]; exact hstopped) hstopped'
  cases hpc : s.main with
  | serving =>
      simp only [hpc] at h
      cases h
      exact hleave hpc rfl rfl
  | stopAcceptor =>
      simp only [hpc] at h
      cases h
      exact .leave true (by rw [hpc]; rfl) rfl
  | wakeAcceptor =>
      simp only [hpc] at h
      cases h
      exact hleave hpc rfl rfl
  | joinAcceptor =>
      simp only [hpc] at h
      split at h
      next hexited =>
        cases h
        exact .join hpc hexited
      next => cases h
  | startGrace =>
      simp only [hpc] at h
      cases h
      exact hgrace hpc rfl (by simp) rfl
  | graceInFlight graceEnd =>
      simp only [hpc] at h
      split at h <;> cases h <;> exact hgrace hpc rfl (by simp) rfl
  | graceClock graceEnd =>
      simp only [hpc] at h
      split at h <;> cases h <;> exact hgrace hpc rfl (by simp) rfl
  | graceSleep graceEnd wakeAt =>
      simp only [hpc] at h
      split at h
      next =>
        cases h
        exact hgrace hpc rfl (by simp) rfl
      next => cases h
  | checkDropped =>
      simp only [hpc] at h
      split at h <;> cases h <;> exact hgrace hpc rfl (by simp) rfl
  | warnDropped =>
      simp only [hpc] at h
      cases h
      exact hgrace hpc rfl (by simp) rfl
  | readRemaining =>
      simp only [hpc] at h
      cases h
      exact .readRemaining hpc
  | dropping n =>
      cases n with
      | zero =>
          simp only [hpc] at h
          cases h
          exact .dropped hpc
      | succ n =>
          simp only [hpc] at h
          cases h
          exact .drop hpc
  | stopPool =>
      simp only [hpc] at h
      cases h
      exact .stopPool hpc
  | stoppingPool =>
      simp only [hpc] at h
      split at h
      next mode hmode =>
        cases h
        exact .poolStopped hpc hmode
      next => cases h
  | stoppedPool =>
      simp only [hpc] at h
      cases h
      exact hfinale hpc rfl rfl
  | shuttingBackends =>
      simp only [hpc] at h
      cases h
      exact hfinale hpc rfl rfl
  | logFinal =>
      simp only [hpc] at h
      cases h
      exact hfinale hpc rfl rfl
  | returned =>
      simp only [hpc] at h
      cases h

/-- The inversion of a step. -/
theorem step_cases {e : Event} (h : step cfg s e = some s') : Step cfg s e s' := by
  cases e with
  | clock ms =>
      cases h
      exact .clock ms
  | acceptor => exact acceptorStep_cases h
  | epollWait r => exact epollWait_cases h
  | accept4 r => exact accept4_cases h
  | pool e =>
      simp only [step] at h
      split at h
      next hquiet =>
        obtain ⟨p, hp, rfl⟩ := Option.map_eq_some_iff.mp h
        exact .pool hquiet hp
      next => cases h
  | handlerCall w o r => exact handlerCall_cases h
  | handlerReturn w => exact handlerReturn_cases h
  | main => exact mainStep_cases h

end InferenceRouter.Router
