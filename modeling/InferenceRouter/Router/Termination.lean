import InferenceRouter.ThreadPool.Effort
import InferenceRouter.Router.Drain

/-!
# The shutdown comes to its end

`Router.Drain` says what main finds when `pool.stop()` has returned.  Here is why
it returns.  Two facts together give it, for every schedule.

* The threads of the router are never all stuck (`exists_step`): as long as main
  has not returned, some thread has a step to take, which needs no new client and
  no spurious wakeup, and at most the end of main's own `sleep_for`.
* From the moment `stop_` of the acceptor is set, every such step lowers
  `State.effort` (`effort_step`).  A run of `handle_one` has at most eleven calls,
  the acceptor looks at no more than the sixteen events of its last `epoll_wait`,
  and the grace loop sleeps for twenty milliseconds each time.

What can still prolong the shutdown is a client that `accept4` returns: `stop_` is
looked at only after `accept4` has failed, so each such client is taken in and
served, at the price of `Event.price` steps.
-/

namespace InferenceRouter.Router

open Interleaving Handler

variable {cfg : Config} {s s' : State} {e : Event}

/-! ## Steps and their prices -/

/-- The steps of the threads.  The clock, a spurious wakeup and an interrupted `accept4`
are none. -/
def Event.productive : Event → Bool
  | .clock _ => false
  | .accept4 (.error .eintr) => false
  | .pool e => !e.spurious
  | _ => true

/-- How many steps of the threads an event of the environment can cause. -/
def Event.price : Event → Nat
  | .accept4 (.ok _) => 22
  | .pool e => e.spurious.toNat
  | _ => 0

/-! ## Runs of the handler are short -/

/-- A run makes at most eleven calls. -/
theorem handleOneSet_within (opts : HandlerOptions) : (handleOneSet opts).Within 11 := by
  simp [Prog.Within, handleOneSet]

/-- Every run that goes on has a bound on the calls it has still to make. -/
def State.Brief (s : State) : Prop :=
  ThreadPool.Running (fun t => ∃ n, t.body.rest.Within n) s.pool

theorem brief_step (h : Step cfg s e s') (hj : Jobs cfg s) (hb : s.Brief) : s'.Brief := by
  intro v hv t ht
  subst ht
  obtain ⟨w, hw⟩ := List.mem_iff_getElem?.mp hv
  have hstep := worker_step h hj w
  rw [hw] at hstep
  generalize hx : s.pool.workers[w]? = x at hstep
  cases hstep with
  | same => exact hb.of_getElem? hx
  | idle _ hfresh =>
      obtain ⟨fd, hfd⟩ := hfresh t rfl
      rw [hfd]
      exact ⟨11, handleOneSet_within cfg.handler⟩
  | call r _ hrun hrest =>
      obtain ⟨n, hwithin⟩ := hb.of_getElem? (hx.trans hrun)
      rw [hrest, Prog.within_call_iff] at hwithin
      exact ⟨n - 1, hwithin.2 r⟩

theorem brief_init (cfg : Config) : (machine cfg).init.Brief := by
  intro w hw t ht
  rw [List.eq_of_mem_replicate hw] at ht
  cases ht

/-! ## Calls that are under way -/

/-- What the threads inside a call of the pool have done. -/
structure Calling (s : State) : Prop where
  /-- The acceptor's call of `submit` is the last one that was made. -/
  submit : ∀ i, s.acceptor.submitCall = some i → i + 1 = s.pool.submitters.length
  /-- Main's call of `stop` has set `stop_`. -/
  stop : s.main = .stoppingPool → s.pool.stop = true

theorem Calling.setAcceptor (hc : Calling s) {a : Acceptor} (ha : a.submitCall = none) :
    Calling { s with acceptor := a } where
  submit := by
    intro i hi
    rw [ha] at hi
    cases hi
  stop := hc.stop

theorem Calling.setMain (hc : Calling s) {m : Main} (hm : m ≠ .stoppingPool) :
    Calling { s with main := m } where
  submit := hc.submit
  stop := fun hpc => absurd hpc hm

theorem calling_step (h : Step cfg s e s') (hc : Calling s) : Calling s' := by
  have hphase : ∀ {m : Main}, m.stopCalled = false → m ≠ .stoppingPool := by
    rintro m hm rfl
    cases hm
  cases h with
  | clock | handlerCall | handlerReturn => exact ⟨hc.submit, hc.stop⟩
  | wander _ _ _ hidle => exact hc.setAcceptor (Acceptor.submitCall_of_idle hidle)
  | accept => exact ⟨(hc.setAcceptor (a := .accepted _ _) rfl).submit, hc.stop⟩
  | incAccepted => exact ⟨(hc.setAcceptor (a := .counted _ _) rfl).submit, hc.stop⟩
  | submit =>
      refine ⟨?_, hc.stop⟩
      intro i hi
      cases hi
      simp
  | submitted => exact hc.setAcceptor rfl
  | refused => exact ⟨(hc.setAcceptor (a := .refused _ _) rfl).submit, hc.stop⟩
  | closeRefused => exact hc.setAcceptor rfl
  | countRefused => exact ⟨(hc.setAcceptor (a := .accepting _) rfl).submit, hc.stop⟩
  | pool hquiet hp =>
      obtain ⟨hstop, -, -, hlen⟩ := ThreadPool.quiet_step (ThreadPool.step_cases hp) hquiet
      refine ⟨?_, ?_⟩
      · intro i hi
        rw [hlen]
        exact hc.submit i hi
      · intro hpc
        rw [hstop]
        exact hc.stop hpc
  | leave _ _ hm => exact ⟨hc.submit, (hc.setMain (hphase (Main.stopCalled_of_beforeJoin hm))).stop⟩
  | join => exact hc.setMain (by simp)
  | grace _ _ hm => exact hc.setMain (hphase (Main.draining_phase hm).2.1)
  | readRemaining => exact hc.setMain (by simp)
  | drop => exact ⟨hc.submit, (hc.setMain (m := .dropping _) (by simp)).stop⟩
  | dropped => exact hc.setMain (by simp)
  | stopPool =>
      refine ⟨?_, fun _ => ?_⟩
      · intro i hi
        rw [ThreadPool.stopCall_submitters]
        exact hc.submit i hi
      · show (s.pool.stopCall .drain).stop = true
        unfold ThreadPool.State.stopCall
        split
        next hset => exact hset
        next => rfl
  | poolStopped => exact hc.setMain (by simp)
  | finale _ hm =>
      refine hc.setMain ?_
      rintro rfl
      cases hm

theorem calling_init (cfg : Config) : Calling (machine cfg).init := by
  refine ⟨?_, ?_⟩
  · intro i hi
    cases hi
  · intro hpc
    cases hpc

theorem reachable_brief (h : (machine cfg).Reachable s) : s.Brief :=
  Machine.Reachable.invariant_with (P := State.Brief) (fun _ hs => (reachable_routed hs).jobs)
    (brief_init cfg) (fun _ _ _ hj hb hstep => brief_step (step_cases hstep) hj hb) h

theorem reachable_calling (h : (machine cfg).Reachable s) : Calling s :=
  h.invariant (P := Calling) (calling_init cfg)
    (fun _ _ _ hc hstep => calling_step (step_cases hstep) hc)

/-! ## Some thread can move -/

/-- Some thread has a step to take after at most a wait, which is no new client and no
spurious wakeup. -/
def State.CanMove (cfg : Config) (s : State) : Prop :=
  ∃ ms e s', e.productive = true ∧ e.price = 0 ∧ (machine cfg).exec s [.clock ms, e] = some s'

theorem State.CanMove.after (ms : Nat) (he : e.productive = true) (hprice : e.price = 0)
    (h : (step cfg { s with now := s.now + ms } e).isSome) : s.CanMove cfg := by
  obtain ⟨s', hs'⟩ := Option.isSome_iff_exists.mp h
  refine ⟨ms, e, s', he, hprice, ?_⟩
  exact Machine.exec_cons_iff.mpr ⟨_, rfl, Machine.exec_single_iff.mpr hs'⟩

theorem State.CanMove.now (he : e.productive = true) (hprice : e.price = 0)
    (h : (step cfg { s with now := s.now + (0 : Nat) } e).isSome) : s.CanMove cfg :=
  .after 0 he hprice h

/-- The steps with which the threads serve the clients they have: none of main, no
`epoll_wait` and no new client. -/
def Event.serves : Event → Bool
  | .main | .epollWait _ | .accept4 (.ok _) => false
  | e => e.productive

theorem Event.productive_of_serves (h : e.serves = true) : e.productive = true := by
  cases e with
  | accept4 r =>
      cases r with
      | ok => cases h
      | error => exact h
  | main | epollWait => cases h
  | clock | acceptor | pool | handlerCall | handlerReturn => exact h

theorem Event.price_of_serves (h : e.serves = true) : e.price = 0 := by
  cases e with
  | accept4 r =>
      cases r with
      | ok => cases h
      | error => rfl
  | pool e =>
      have hspurious : e.spurious = false := by simpa [serves, productive] using h
      rw [price, hspurious, Bool.toNat_false]
  | main | epollWait => cases h
  | clock | acceptor | handlerCall | handlerReturn => rfl

/-- The steps of the workers. -/
def Event.ofWorker : Event → Bool
  | .pool e => e.ofWorker
  | .handlerCall _ _ _ | .handlerReturn _ => true
  | _ => false

theorem Event.serves_of_ofWorker (h : e.ofWorker = true) : e.serves = true := by
  cases e with
  | pool e =>
      cases e with
      | workerLock => rfl
      | _ => cases h
  | handlerCall | handlerReturn => rfl
  | clock | acceptor | epollWait | accept4 | main => cases h

/-- Some thread has a step of kind `q` to take. -/
def State.CanTake (cfg : Config) (q : Event → Bool) (s : State) : Prop :=
  ∃ e, q e = true ∧ (step cfg s e).isSome

theorem State.CanTake.canServe (h : s.CanTake cfg Event.ofWorker) :
    s.CanTake cfg Event.serves := by
  obtain ⟨e, he, hsome⟩ := h
  exact ⟨e, e.serves_of_ofWorker he, hsome⟩

theorem State.CanTake.canMove (h : s.CanTake cfg Event.serves) : s.CanMove cfg := by
  obtain ⟨e, he, hsome⟩ := h
  refine .now (Event.productive_of_serves he) (Event.price_of_serves he) ?_
  simpa using hsome

/-- Every call of the handler has a result. -/
theorem Op.ret_nonempty (o : Op) : Nonempty o.Ret := by
  cases o with
  | acceptHandshake => exact ⟨false⟩
  | readMessage => exact ⟨(.kOk, [])⟩
  | writeMessage => exact ⟨.kOk⟩
  | poolBorrow => exact ⟨(0 : Int)⟩
  | setBorrow => exact ⟨{}⟩
  | incInFlight | decInFlight | incCompleted | incErrored | replyErrorPlain | replyErrorTls
  | poolRelease | setRelease | safeClose | closeStream => exact ⟨()⟩

/-- A worker that neither sleeps nor has exited can move. -/
theorem canTake_of_worker {w : Nat} {worker : ThreadPool.Worker Job}
    (hw : s.pool.workers[w]? = some worker) (hactive : worker.Attentive) :
    s.CanTake cfg Event.ofWorker := by
  have hlocked : worker.atLock = true → s.CanTake cfg Event.ofWorker := by
    intro hlock
    obtain ⟨pick, p, hp⟩ := ThreadPool.exists_workerLock (o := cfg.poolOptions.normalise) hw hlock
    refine ⟨.pool (.workerLock w pick), rfl, ?_⟩
    simp [step, ThreadPool.Event.quiet, hp]
  cases worker with
  | ready | notified | spurious => exact hlocked rfl
  | asleep => cases hactive.1
  | exited => cases hactive.2
  | running t =>
      cases hrest : t.body.rest with
      | pure u =>
          refine ⟨.handlerReturn w, rfl, ?_⟩
          simp [step, State.handlerReturn, hw, hrest, Prog.isPure, ThreadPool.step,
            ThreadPool.State.finish]
      | call o k =>
          obtain ⟨r⟩ := Op.ret_nonempty o
          refine ⟨.handlerCall w o r, rfl, ?_⟩
          simp [step, State.handlerCall, hw, Job.call, hrest, ThreadPool.step,
            ThreadPool.State.work]

/-- The acceptor asleep in `submit` sleeps in front of a full queue, so a worker is awake. -/
theorem canServe_of_asleep (h : (machine cfg).Reachable s) {i : Nat} {t : ThreadPool.Task Job}
    (hcall : s.acceptor.submitCall = some i) (hi : s.pool.submitters[i]? = some (.asleep t)) :
    s.CanTake cfg Event.serves := by
  have ho := (reachable_routed h).ordered
  have hlive : s.acceptor ≠ .exited := by
    intro hex
    rw [hex] at hcall
    cases hcall
  have hwakeful := ThreadPool.reachable_wakeful ((poolView cfg).reachable h)
  have hnone : s.pool.notifiedCount = 0 := by
    apply total_eq_zero
    intro p hp
    obtain ⟨j, hj⟩ := List.mem_iff_getElem?.mp hp
    rcases (ho.calls j p hj).2 with rfl | hother
    · rfl
    · rw [hcall, Option.some.injEq] at hother
      subst hother
      rw [hi, Option.some.injEq] at hj
      subst hj
      rfl
  have hfull := hwakeful.handedOn (ho.stop_eq_false hlive) ⟨_, List.mem_of_getElem? hi, rfl⟩
  have hpos : 0 < cfg.poolOptions.normalise.maxQueueDepth := by
    simp only [ThreadPool.Options.normalise]
    split <;> omega
  have hne : s.pool.queue ≠ [] := by
    intro hempty
    rw [hnone, hempty, List.length_nil] at hfull
    omega
  obtain ⟨worker, hmem, hactive⟩ := hwakeful.served hne
  obtain ⟨w, hw⟩ := List.mem_iff_getElem?.mp hmem
  exact (canTake_of_worker hw hactive).canServe

/-- Outside `epoll_wait` the acceptor thread can move until it exits, or somebody it waits
for can. -/
theorem canServe_of_acceptor (h : (machine cfg).Reachable s) (hlive : s.acceptor ≠ .exited)
    (hpolling : s.acceptor ≠ .polling) : s.CanTake cfg Event.serves := by
  cases hpc : s.acceptor with
  | exited => exact absurd hpc hlive
  | polling => exact absurd hpc hpolling
  | accepting ready =>
      refine ⟨.accept4 (.error .eagain), rfl, ?_⟩
      simp [step, State.accept4, hpc]
  | submitting i fd ready =>
      have hcall : s.acceptor.submitCall = some i := by rw [hpc]; rfl
      have hlt := (reachable_calling h).submit i hcall
      cases hi : s.pool.submitters[i]? with
      | none => exact absurd (List.getElem?_eq_none_iff.mp hi) (by omega)
      | some p =>
          cases p with
          | asleep t => exact canServe_of_asleep h hcall hi
          | entered t | notified t | spurious t =>
              obtain ⟨pick, p, hp⟩ :=
                ThreadPool.exists_submitLock (o := cfg.poolOptions.normalise) hi rfl
              refine ⟨.pool (.submitLock i pick), rfl, ?_⟩
              simp [step, ThreadPool.Event.quiet, hp]
          | returned ok =>
              refine ⟨.acceptor, rfl, ?_⟩
              cases ok <;> simp [step, State.acceptorStep, hpc, hi]
  | dispatch ready =>
      refine ⟨.acceptor, rfl, ?_⟩
      rcases ready with _ | ⟨_ | _, ready⟩ <;> simp [step, State.acceptorStep, hpc]
  | loopHead | accepted fd ready | counted fd ready | refused fd ready | closed ready =>
      refine ⟨.acceptor, rfl, ?_⟩
      simp [step, State.acceptorStep, hpc, ThreadPool.step]

/-- The acceptor thread can move until it exits, or somebody it waits for can. -/
theorem canMove_of_acceptor (h : (machine cfg).Reachable s) (hlive : s.acceptor ≠ .exited) :
    s.CanMove cfg := by
  by_cases hpc : s.acceptor = .polling
  · refine .now (e := .epollWait (.ok [])) rfl rfl ?_
    simp [step, State.epollWait, hpc]
  · exact (canServe_of_acceptor h hlive hpc).canMove

/-- Main's call of `stop` goes on until it returns, or a worker that it joins does. -/
theorem canMove_of_stopping (h : (machine cfg).Reachable s) (hpc : s.main = .stoppingPool) :
    s.CanMove cfg := by
  have ha := reachable_pool h
  have hwakeful := ThreadPool.reachable_wakeful ((poolView cfg).reachable h)
  cases hstopper : s.pool.stopper with
  | idle =>
      have hset := (reachable_calling h).stop hpc
      have hopen := ha.stopping.idle_iff.mpr (by rw [hstopper]; rfl)
      rw [hset] at hopen
      cases hopen
  | set mode =>
      refine .now (e := .pool .notifyNotEmpty) rfl rfl ?_
      simp [step, ThreadPool.Event.quiet, ThreadPool.step, hstopper]
  | notifiedWorkers mode =>
      refine .now (e := .pool .notifyNotFull) rfl rfl ?_
      simp [step, ThreadPool.Event.quiet, ThreadPool.step, hstopper]
  | joining mode =>
      by_cases hexited : s.pool.workers.all ThreadPool.Worker.hasExited = true
      · refine .now (e := .pool .join) rfl rfl ?_
        simp only [step, ThreadPool.Event.quiet, ThreadPool.step, hstopper, if_pos hexited]
        rfl
      · -- the `notify_all` has left nobody asleep
        obtain ⟨worker, hmem, hlive⟩ : ∃ w ∈ s.pool.workers, w.hasExited = false := by
          simpa using hexited
        obtain ⟨w, hw⟩ := List.mem_iff_getElem?.mp hmem
        exact (canTake_of_worker hw
          ⟨hwakeful.roused.workers (by rw [hstopper]; rfl) worker hmem, hlive⟩).canServe.canMove
  | returned mode =>
      refine .now (e := .main) rfl rfl ?_
      simp [step, State.mainStep, hpc, hstopper]

/-- Until main returns, some thread can move. -/
theorem exists_step (h : (machine cfg).Reachable s) (hpc : s.main ≠ .returned) :
    s.CanMove cfg := by
  have hmain : (State.mainStep cfg { s with now := s.now + (0 : Nat) }).isSome → s.CanMove cfg :=
    fun hstep => .now (e := .main) rfl rfl hstep
  cases hm : s.main with
  | returned => exact absurd hm hpc
  | joinAcceptor =>
      by_cases hex : s.acceptor = .exited
      · exact hmain (by simp [State.mainStep, hm, hex])
      · exact canMove_of_acceptor h hex
  | graceSleep graceEnd wakeAt =>
      have hdue : wakeAt ≤ s.now + (wakeAt - s.now).toNat := by omega
      refine .after (wakeAt - s.now).toNat (e := .main) rfl rfl ?_
      simp only [step, State.mainStep, hm, if_pos hdue]
      rfl
  | stoppingPool => exact canMove_of_stopping h hm
  | dropping n => cases n <;> exact hmain (by simp [State.mainStep, hm])
  | graceInFlight graceEnd | graceClock graceEnd | checkDropped =>
      refine hmain ?_
      simp only [State.mainStep, hm]
      split <;> rfl
  | serving | stopAcceptor | wakeAcceptor | startGrace | warnDropped | readRemaining | stopPool
  | stoppedPool | shuttingBackends | logFinal =>
      exact hmain (by simp [State.mainStep, hm, ThreadPool.step])

/-! ## The work that is left -/

/-- What a queued request costs: its pop, its calls and its return. -/
def requestCost : Nat := 14

/-- The steps of the acceptor once `stop_` is set, with those of the requests in its hands. -/
def Acceptor.effort : Acceptor → Nat
  | .exited => 0
  | .loopHead => 1
  | .polling => 2 * kMaxEvents + 3
  | .dispatch ready => 2 * ready.length + 2
  | .accepting ready => 2 * ready.length + 3
  | .closed ready => 2 * ready.length + 4
  | .refused _ ready => 2 * ready.length + 5
  | .submitting _ _ ready => 2 * ready.length + 6
  | .counted _ ready => 2 * ready.length + 9 + requestCost
  | .accepted _ ready => 2 * ready.length + 10 + requestCost

/-- How often the grace loop can still sleep when it has `ms` milliseconds. -/
def naps (ms : Int) : Nat := (ms.toNat + 19) / 20

theorem naps_mono {a b : Int} (h : a ≤ b) : naps a ≤ naps b := by
  unfold naps
  omega

theorem naps_sub_twenty {ms : Int} (h : 0 < ms) : naps (ms - 20) + 1 ≤ naps ms := by
  unfold naps
  omega

/-- The steps of main, with `workers` threads to count as dropped and to wake. -/
def Main.effort (workers : Nat) (grace now : Int) : Main → Nat
  | .returned => 0
  | .logFinal => 1
  | .shuttingBackends => 2
  | .stoppedPool => 3
  | .stoppingPool => 4
  | .stopPool => workers + 8
  | .dropping n => n + workers + 9
  | .readRemaining => 2 * workers + 10
  | .warnDropped => 2 * workers + 11
  | .checkDropped => 2 * workers + 12
  | .graceClock graceEnd => 2 * workers + 13 + 3 * naps (graceEnd - now)
  | .graceInFlight graceEnd => 2 * workers + 14 + 3 * naps (graceEnd - now)
  | .graceSleep graceEnd wakeAt => 2 * workers + 15 + 3 * naps (graceEnd - max wakeAt now)
  | .startGrace => 2 * workers + 15 + 3 * naps grace
  | .joinAcceptor => 2 * workers + 16 + 3 * naps grace
  | .wakeAcceptor => 2 * workers + 17 + 3 * naps grace
  | .stopAcceptor => 2 * workers + 18 + 3 * naps grace
  | .serving => 2 * workers + 19 + 3 * naps grace

noncomputable def State.effort (cfg : Config) (s : State) : Nat :=
  s.acceptor.effort + s.pool.effort (fun j => j.rest.depth) requestCost +
    s.main.effort cfg.poolOptions.normalise.workerCount cfg.shutdownGraceMs s.now

theorem Main.effort_clock (m : Main) (workers : Nat) (grace now : Int) (ms : Nat) :
    m.effort workers grace (now + ms) ≤ m.effort workers grace now := by
  cases m with
  | graceClock graceEnd | graceInFlight graceEnd =>
      have := naps_mono (show graceEnd - (now + ms) ≤ graceEnd - now by omega)
      simp only [effort]
      omega
  | graceSleep graceEnd wakeAt =>
      have := naps_mono
        (show graceEnd - max wakeAt (now + ms) ≤ graceEnd - max wakeAt now by omega)
      simp only [effort]
      omega
  | returned | logFinal | shuttingBackends | stoppedPool | stoppingPool | stopPool | dropping n
  | readRemaining | warnDropped | checkDropped | startGrace | joinAcceptor | wakeAcceptor
  | stopAcceptor | serving => exact le_rfl

theorem effort_setAcceptor {a : Acceptor} (h : a.effort < s.acceptor.effort) :
    1 + State.effort cfg { s with acceptor := a } ≤ s.effort cfg := by
  simp only [State.effort]
  omega

theorem effort_setMain {m : Main}
    (h : m.effort cfg.poolOptions.normalise.workerCount cfg.shutdownGraceMs s.now <
      s.main.effort cfg.poolOptions.normalise.workerCount cfg.shutdownGraceMs s.now) :
    1 + State.effort cfg { s with main := m } ≤ s.effort cfg := by
  simp only [State.effort]
  omega

theorem effort_acceptorStep (hstop : s.acceptor = .loopHead → s.stopAccepting = true)
    (h : s.acceptorStep cfg = some s') : 1 + s'.effort cfg ≤ s.effort cfg := by
  simp only [State.acceptorStep] at h
  split at h
  next hpc =>
    cases h
    exact effort_setAcceptor (by simp [hpc, hstop hpc, Acceptor.effort])
  next hpc =>
    cases h
    exact effort_setAcceptor (by simp [hpc, Acceptor.effort])
  next ready hpc =>
    cases h
    exact effort_setAcceptor (by simp [hpc, Acceptor.effort])
  next ready hpc =>
    cases h
    exact effort_setAcceptor (by simp only [hpc, Acceptor.effort, List.length_cons]; omega)
  next fd ready hpc =>
    cases h
    simp only [State.effort, hpc, Acceptor.effort]
    omega
  next fd ready hpc =>
    -- the call brings a submitter that has everything before it
    cases h
    simp only [State.effort, hpc, Acceptor.effort, ThreadPool.State.effort, total_append,
      total_cons, total_nil, ThreadPool.Submitter.effort]
    omega
  next i fd ready hpc =>
    split at h
    next =>
      cases h
      exact effort_setAcceptor (by simp [hpc, Acceptor.effort])
    next =>
      cases h
      simp only [State.effort, hpc, Acceptor.effort]
      omega
    next => cases h
  next fd ready hpc =>
    cases h
    exact effort_setAcceptor (by simp [hpc, Acceptor.effort])
  next ready hpc =>
    cases h
    simp only [State.effort, hpc, Acceptor.effort]
    omega
  next => cases h
  next => cases h
  next => cases h

theorem effort_epollWait {r : Except Errno (List Ready)} (h : s.epollWait r = some s') :
    1 + s'.effort cfg ≤ s.effort cfg := by
  simp only [State.epollWait] at h
  split at h
  next hpc =>
    split at h
    next ready =>
      split at h
      next hfew =>
        cases h
        exact effort_setAcceptor (by simp only [hpc, Acceptor.effort]; omega)
      next => cases h
    next =>
      cases h
      exact effort_setAcceptor (by simp [hpc, Acceptor.effort])
    next =>
      cases h
      exact effort_setAcceptor (by simp [hpc, Acceptor.effort])
  next => cases h

theorem effort_accept4 {r : Except Errno Nat} (h : s.accept4 r = some s') :
    (Event.accept4 r).productive.toNat + s'.effort cfg ≤
      s.effort cfg + (Event.accept4 r).price := by
  simp only [State.accept4] at h
  split at h
  next ready hpc =>
    split at h
    next fd =>
      cases h
      simp only [Event.productive, Event.price, Bool.toNat_true, State.effort, hpc,
        Acceptor.effort, requestCost]
      omega
    next =>
      cases h
      simp [Event.productive, Event.price]
    next e hne =>
      cases h
      have hone : (Event.accept4 (.error e)).productive.toNat ≤ 1 := Bool.toNat_le _
      have hlower : 1 + State.effort cfg { s with acceptor := .dispatch ready } ≤ s.effort cfg :=
        effort_setAcceptor (by simp [hpc, Acceptor.effort])
      omega
  next => cases h

/-- No more drops are counted than there are workers. -/
theorem Routed.inFlight_le (hr : Routed cfg s) :
    s.metrics.inFlight.toNat ≤ s.pool.workers.length := by
  have hle : total (ThreadPool.Worker.weight
      (fun j : Job => j.tally.entered - j.tally.left)) s.pool.workers ≤
      s.pool.workers.length := by
    apply total_le_length
    intro w hw
    cases w with
    | running t =>
        obtain ⟨-, -, hsound⟩ := hr.jobs.running _ hw t rfl
        have hone := hsound.entered_le
        simp only [ThreadPool.Worker.weight]
        omega
    | ready | asleep | notified | spurious | exited => exact Nat.zero_le _
  have heq := hr.inFlight_eq
  omega

theorem effort_mainStep (h : (machine cfg).Reachable s) (hstep : s.mainStep cfg = some s') :
    1 + s'.effort cfg ≤ s.effort cfg := by
  have hr := reachable_routed h
  have hworkers : s.pool.workers.length = cfg.poolOptions.normalise.workerCount :=
    ThreadPool.reachable_workers ((poolView cfg).reachable h)
  unfold State.mainStep at hstep
  cases hpc : s.main with
  | serving =>
      simp only [hpc] at hstep
      cases hstep
      exact effort_setMain (by simp [hpc, Main.effort])
  | stopAcceptor =>
      simp only [hpc] at hstep
      cases hstep
      simp only [State.effort, hpc, Main.effort]
      omega
  | joinAcceptor =>
      simp only [hpc] at hstep
      split at hstep
      next =>
        cases hstep
        exact effort_setMain (by simp [hpc, Main.effort])
      next => cases hstep
  | startGrace =>
      simp only [hpc] at hstep
      cases hstep
      have hgrace : s.now + cfg.shutdownGraceMs - s.now = cfg.shutdownGraceMs := by omega
      exact effort_setMain (by simp [hpc, Main.effort, hgrace])
  | graceInFlight graceEnd =>
      simp only [hpc] at hstep
      split at hstep <;> cases hstep <;>
        exact effort_setMain (by simp only [hpc, Main.effort]; omega)
  | graceClock graceEnd =>
      simp only [hpc] at hstep
      split at hstep
      next hearly =>
        -- one nap less is left when this one is over
        cases hstep
        have hnap := naps_sub_twenty (show 0 < graceEnd - s.now by omega)
        have hwake : graceEnd - max (s.now + 20) s.now = graceEnd - s.now - 20 := by omega
        exact effort_setMain (by simp only [hpc, Main.effort, hwake]; omega)
      next =>
        cases hstep
        exact effort_setMain (by simp only [hpc, Main.effort]; omega)
  | graceSleep graceEnd wakeAt =>
      simp only [hpc] at hstep
      split at hstep
      next hdue =>
        cases hstep
        exact effort_setMain (by simp [hpc, Main.effort, max_eq_right hdue])
      next => cases hstep
  | checkDropped =>
      simp only [hpc] at hstep
      split at hstep <;> cases hstep <;>
        exact effort_setMain (by simp only [hpc, Main.effort]; omega)
  | readRemaining =>
      simp only [hpc] at hstep
      cases hstep
      have hfew := hr.inFlight_le
      exact effort_setMain (by simp only [hpc, Main.effort]; omega)
  | dropping n =>
      cases n with
      | zero =>
          simp only [hpc] at hstep
          cases hstep
          exact effort_setMain (by simp [hpc, Main.effort])
      | succ n =>
          simp only [hpc] at hstep
          cases hstep
          simp only [State.effort, hpc, Main.effort]
          omega
  | stopPool =>
      simp only [hpc] at hstep
      cases hstep
      have hopen : s.pool.stop = false := by
        by_contra hset
        have hcalled := hr.ordered.stopped (by simpa using hset)
        rw [hpc] at hcalled
        cases hcalled
      have hidle := ThreadPool.Stopper.eq_idle ((reachable_pool h).stopping.idle_iff.mp hopen)
      simp only [State.effort, hpc, Main.effort, ThreadPool.State.effort,
        ThreadPool.State.stopCall, hopen, Bool.false_eq_true, if_false, hidle,
        ThreadPool.Stopper.effort, hworkers]
      omega
  | stoppingPool =>
      simp only [hpc] at hstep
      split at hstep
      next =>
        cases hstep
        exact effort_setMain (by simp [hpc, Main.effort])
      next => cases hstep
  | wakeAcceptor | warnDropped | stoppedPool | shuttingBackends | logFinal =>
      simp only [hpc] at hstep
      cases hstep
      exact effort_setMain (by simp [hpc, Main.effort])
  | returned =>
      simp only [hpc] at hstep
      cases hstep

theorem effort_pool (h : (machine cfg).Reachable s) {e : ThreadPool.Event Job}
    {p : ThreadPool.State Job} (hquiet : e.quiet = true)
    (hp : ThreadPool.step cfg.poolOptions.normalise s.pool e = some p) :
    (!e.spurious).toNat + State.effort cfg { s with pool := p } ≤
      s.effort cfg + e.spurious.toNat := by
  have hr := reachable_routed h
  have hcost : ThreadPool.Waiting (fun t => t.body.rest.depth + 3 ≤ requestCost) s.pool := by
    refine hr.jobs.waiting.mono ?_
    intro t ht
    have hdepth := Prog.depth_le (handleOneSet_within cfg.handler)
    rw [ht.2, requestCost]
    exact Nat.add_le_add_right hdepth 3
  have hawake : s.pool.stop = true →
      ∀ q ∈ s.pool.submitters, ThreadPool.notFull.asleep q = false := by
    intro hset q hq
    obtain ⟨i, hi⟩ := List.mem_iff_getElem?.mp hq
    have hex := hr.ordered.joined (Main.beforeJoin_of_stopCalled (hr.ordered.stopped hset))
    rcases (hr.ordered.calls i q hi).2 with rfl | hcall
    · rfl
    · rw [hex] at hcall
      cases hcall
  have hpool := ThreadPool.effort_quiet (f := fun j => j.rest.depth) (ThreadPool.step_cases hp)
    hquiet (reachable_pool h).stopping hcost hawake
  simp only [State.effort]
  omega

/-- A step of a thread lowers the effort, up to the price of its event, unless the acceptor
begins another round of its loop. -/
theorem effort_step (h : (machine cfg).Reachable s)
    (hstop : e = .acceptor → s.acceptor = .loopHead → s.stopAccepting = true)
    (hstep : (machine cfg).step s e = some s') :
    e.productive.toNat + s'.effort cfg ≤ s.effort cfg + e.price := by
  have hcases : Step cfg s e s' := step_cases hstep
  cases e with
  | clock ms =>
      cases hstep
      have hclock := s.main.effort_clock cfg.poolOptions.normalise.workerCount
        cfg.shutdownGraceMs s.now ms
      simp only [Event.productive, Event.price, Bool.toNat_false, State.effort]
      omega
  | acceptor => exact effort_acceptorStep (hstop rfl) hstep
  | epollWait r => exact effort_epollWait hstep
  | accept4 r => exact effort_accept4 hstep
  | pool e =>
      cases hcases with
      | wander hacceptor => cases hacceptor
      | pool hquiet hp => exact effort_pool h hquiet hp
  | handlerCall w o r =>
      cases hcases with
      | wander hacceptor => cases hacceptor
      | @handlerCall _ t _ k _ hw hrest =>
          obtain ⟨n, hwithin⟩ := (reachable_brief h).of_getElem? hw
          rw [hrest] at hwithin
          have hfewer := Prog.depth_lt hwithin r
          have hset := total_set (ThreadPool.Worker.effort (fun j : Job => j.rest.depth))
            (.running { t with body :=
              { t.body with rest := k r, tally := t.body.tally.count o } }) hw
          simp only [ThreadPool.Worker.effort, hrest] at hset
          simp only [Event.productive, Event.price, Bool.toNat_true, State.effort,
            ThreadPool.State.effort, List.length_set]
          omega
  | handlerReturn w =>
      cases hcases with
      | wander hacceptor => cases hacceptor
      | @handlerReturn _ t hw hrest =>
          have hset := total_set (ThreadPool.Worker.effort (fun j : Job => j.rest.depth)) .ready hw
          simp only [ThreadPool.Worker.effort] at hset
          simp only [Event.productive, Event.price, Bool.toNat_true, State.effort,
            ThreadPool.State.effort, List.length_set]
          omega
  | main => exact effort_mainStep h hstep

/-! ## The end of the shutdown -/

theorem stopAccepting_mainStep (hstop : s.stopAccepting = true)
    (h : s.mainStep cfg = some s') : s'.stopAccepting = true := by
  cases mainStep_cases h with
  | wander hacceptor => cases hacceptor
  | leave stop hm =>
      cases hpc : s.main with
      | stopAcceptor =>
          simp only [State.mainStep, hpc] at h
          cases h
          rfl
      | joinAcceptor =>
          simp only [State.mainStep, hpc] at h
          split at h <;> cases h
          exact hstop
      | serving | wakeAcceptor =>
          simp only [State.mainStep, hpc] at h
          cases h
          exact hstop
      | _ =>
          rw [hpc] at hm
          cases hm
  | join | grace | readRemaining | drop | dropped | stopPool | poolStopped | finale => exact hstop

/-- `stop_` of the acceptor stays set. -/
theorem stopAccepting_step (hstop : s.stopAccepting = true)
    (h : (machine cfg).step s e = some s') : s'.stopAccepting = true := by
  by_cases hmain : e = .main
  · subst hmain
    exact stopAccepting_mainStep hstop h
  · have hcases : Step cfg s e s' := step_cases h
    cases hcases with
    | leave | join | grace | readRemaining | drop | dropped | stopPool | poolStopped | finale =>
        exact absurd rfl hmain
    | clock | wander | accept | incAccepted | submit | submitted | refused | closeRefused
    | countRefused | pool | handlerCall | handlerReturn => exact hstop

/-- An event that costs nothing brings no client. -/
theorem clients_step (hprice : e.price = 0) (h : (machine cfg).step s e = some s') :
    s'.clients = s.clients := by
  have hcases : Step cfg s e s' := step_cases h
  cases hcases with
  | accept => cases hprice
  | clock | wander | incAccepted | submit | submitted | refused | closeRefused | countRefused | pool
  | handlerCall | handlerReturn | leave | join | grace | readRemaining | drop | dropped | stopPool
  | poolStopped | finale => rfl

/-- The shutdown is under way. -/
def Stopping (cfg : Config) (s : State) : Prop :=
  (machine cfg).Reachable s ∧ s.stopAccepting = true

theorem Stopping.step (h : Stopping cfg s) (hstep : (machine cfg).step s e = some s') :
    Stopping cfg s' :=
  ⟨h.1.step hstep, stopAccepting_step h.2 hstep⟩

/-- What a run of the shutdown costs. -/
theorem Stopping.countP_le (h : Stopping cfg s) {es : List Event}
    (hexec : (machine cfg).exec s es = some s') :
    es.countP Event.productive + s'.effort cfg ≤ s.effort cfg + total Event.price es :=
  Machine.countP_le_rank (fun _ _ _ ht hstep => ht.step hstep)
    (fun _ _ _ ht hstep => effort_step ht.1 (fun _ _ => ht.2) hstep) h hexec

/-- Short of its end the shutdown can come nearer to it. -/
theorem Stopping.exists_lower (h : Stopping cfg s) (hne : s.main ≠ .returned) :
    ∃ s', (machine cfg).Reaches (fun e => e.price = 0) s s' ∧ s'.effort cfg < s.effort cfg := by
  obtain ⟨ms, e, s', hproductive, hprice, hexec⟩ := exists_step h.1 hne
  have hle := h.countP_le hexec
  refine ⟨s', ⟨[.clock ms, e], ?_, hexec⟩, ?_⟩
  · intro e' he'
    rcases List.mem_cons.mp he' with rfl | he'
    · rfl
    · rw [List.mem_singleton.mp he']
      exact hprice
  · have hclock : (Event.clock ms).price = 0 := rfl
    simp only [List.countP_cons, List.countP_nil, hproductive, if_true, total_cons, total_nil,
      hprice, hclock] at hle
    omega

/-- From every reachable state in which the acceptor's `stop_` is set, whatever the
schedule: the threads take only boundedly many steps, up to the price of new clients and
spurious wakeups; until main returns, one of them can take a step that has no price; and
so main can return, without another client, and then every client has been settled. -/
theorem shutdown_completes (cfg : Config) {s : State} (h : (machine cfg).Reachable s)
    (hstop : s.stopAccepting = true) :
    (∃ bound, ∀ es s', (machine cfg).exec s es = some s' →
        es.countP Event.productive ≤ bound + total Event.price es) ∧
      (s.main ≠ .returned → ∃ ms e s', e.productive = true ∧ e.price = 0 ∧
        (machine cfg).exec s [.clock ms, e] = some s') ∧
      ∃ s', (machine cfg).Reaches (fun e => e.price = 0) s s' ∧ s'.main = .returned ∧
        s'.clients = s.clients ∧
        s'.metrics.completed + s'.metrics.errored = s.clients.length := by
  have hs : Stopping cfg s := ⟨h, hstop⟩
  refine ⟨⟨s.effort cfg, ?_⟩, exists_step h, ?_⟩
  · intro es s' hexec
    have hle := hs.countP_le hexec
    omega
  · have hend : ∃ t, (machine cfg).Reaches (fun e => e.price = 0) s t ∧ t.main = .returned :=
      Machine.exists_reaches_of_rank (P := Stopping cfg) (State.effort cfg)
        (fun _ _ _ ht _ hstep => ht.step hstep) (fun _ ht hne => ht.exists_lower hne) hs
    obtain ⟨t, ht, hreturned⟩ := hend
    have hclients : t.clients = s.clients :=
      ht.invariant (P := fun t => t.clients = s.clients)
        (fun _ _ _ hu hprice hstep => (clients_step hprice hstep).trans hu) rfl
    have hreach : (machine cfg).Reachable t := by
      obtain ⟨es, -, hexec⟩ := ht
      exact h.exec hexec
    have hsettled := settled_of_poolStopped hreach (by rw [hreturned]; rfl)
    exact ⟨t, ht, hreturned, hclients, by rw [hsettled.settled, hsettled.accepted, hclients]⟩

/-- One client is in the queue when main leaves the grace loop at once: the shutdown
still serves it. -/
theorem shutdown_completes_queuedClient : ∃ s,
    (machine { threads := 1 }).run queuedClient = some s ∧ s.pool.queue.length = 1 ∧
      ∃ s', (machine { threads := 1 }).Reaches (fun e => e.price = 0) s s' ∧
        s'.main = .returned ∧ s'.metrics.completed + s'.metrics.errored = 1 := by
  refine ⟨_, rfl, rfl, ?_⟩
  have h := @shutdown_completes { threads := 1 } _ ⟨queuedClient, rfl⟩ rfl
  obtain ⟨-, -, s', hreach, hmain, -, hsettled⟩ := h
  exact ⟨s', hreach, hmain, hsettled⟩

end InferenceRouter.Router
