import InferenceRouter.Interleaving.Machine
import InferenceRouter.Interleaving.Threads

/-!
# The thread pool

The model of `ThreadPool` (`thread_pool.cpp`): a bounded queue under `mu_`, two
condition variables, any number of threads inside `submit`, the worker threads
in `worker_main`, and the thread inside `stop` or `stop_no_drain`.

`mu_` is held from the first to the last statement of each critical section, and
every write of `queue_`, `stop_` and `drain_on_stop_` is inside one.  So a
critical section is one step, with the notification that it ends with.  A wait
on a condition variable ends the section; the section that follows the wait is
another step and evaluates the predicate again.  The two `notify_all` calls of
`stop` come after its section and are steps of their own.

A task is a `std::function`.  Its body has an arbitrary type `ρ`: the pool never
looks at it, and a running task may change it at will (`Event.work`).  The call
of `submit` that is the `n`-th to be made gives its task the number `n`.

Four lists record what happened and are read by no step: the numbers pushed,
popped, finished and discarded, each in order.
-/

namespace InferenceRouter.ThreadPool

open Interleaving

/-- `ThreadPool::Options`. -/
structure Options where
  workerCount : Nat := 4
  maxQueueDepth : Nat := 1024
  rejectOnFull : Bool := false

/-- The constructor raises both sizes to at least one. -/
def Options.normalise (o : Options) : Options :=
  { o with
    workerCount := if o.workerCount = 0 then 1 else o.workerCount
    maxQueueDepth := if o.maxQueueDepth = 0 then 1 else o.maxQueueDepth }

theorem Options.normalise_workerCount_pos (o : Options) : 0 < o.normalise.workerCount := by
  simp only [normalise]
  split <;> omega

/-- A task with the number of the `submit` call that brought it. -/
structure Task (ρ : Type) where
  id : Nat
  body : ρ

/-- A thread inside `submit`, or after it. -/
inductive Submitter (ρ : Type) where
  /-- Called, not yet in the critical section. -/
  | entered (t : Task ρ)
  /-- Asleep on `not_full_` and not notified. -/
  | asleep (t : Task ρ)
  /-- Notified, due to take `mu_` and evaluate the predicate again. -/
  | notified (t : Task ρ)
  /-- Woken without a notification, due to do the same. -/
  | spurious (t : Task ρ)
  | returned (ok : Bool)

/-- A thread in `worker_main`. -/
inductive Worker (ρ : Type) where
  /-- At the head of the loop. -/
  | ready
  /-- Asleep on `not_empty_` and not notified. -/
  | asleep
  | notified
  | spurious
  | running (t : Task ρ)
  | exited

/-- Which of the two stopping calls. -/
inductive StopMode where
  | drain
  | noDrain

/-- The thread whose call of `stop` or `stop_no_drain` set `stop_`. -/
inductive Stopper where
  | idle
  /-- Out of the critical section, before `not_empty_.notify_all()`. -/
  | set (mode : StopMode)
  /-- Before `not_full_.notify_all()`. -/
  | notifiedWorkers (mode : StopMode)
  /-- In the loop of `join` calls. -/
  | joining (mode : StopMode)
  | returned (mode : StopMode)

structure State (ρ : Type) where
  queue : List (Task ρ) := []
  stop : Bool := false
  drainOnStop : Bool := true
  submitters : List (Submitter ρ) := []
  workers : List (Worker ρ)
  stopper : Stopper := .idle
  pushed : List Nat := []
  popped : List Nat := []
  finished : List Nat := []
  discarded : List Nat := []

variable {ρ : Type}

/-! ## The two condition variables -/

/-- `not_full_`, on which submitters sleep. -/
def notFull : CondVar (Submitter ρ) where
  asleep
    | .asleep _ => true
    | _ => false
  wake
    | .asleep t => .notified t
    | s => s

/-- `not_empty_`, on which workers sleep. -/
def notEmpty : CondVar (Worker ρ) where
  asleep
    | .asleep => true
    | _ => false
  wake
    | .asleep => .notified
    | w => w

/-- The task of a submitter that is about to take `mu_`. -/
def Submitter.atLock : Submitter ρ → Option (Task ρ)
  | .entered t | .notified t | .spurious t => some t
  | .asleep _ | .returned _ => none

/-- A worker that is about to take `mu_`. -/
def Worker.atLock : Worker ρ → Bool
  | .ready | .notified | .spurious => true
  | .asleep | .running _ | .exited => false

/-! ## `submit` -/

/-- `return false`. -/
def State.refuse (s : State ρ) (i : Nat) : State ρ :=
  { s with submitters := s.submitters.set i (.returned false) }

/-- `queue_.emplace_back(task); not_empty_.notify_one(); return true`. -/
def State.push (s : State ρ) (i : Nat) (t : Task ρ) (pick : Option Nat) : Option (State ρ) :=
  (notEmpty.notifyOne s.workers pick).map (fun workers =>
    { s with
      queue := s.queue ++ [t]
      submitters := s.submitters.set i (.returned true)
      workers := workers
      pushed := s.pushed ++ [t.id] })

/-- `not_full_.wait` with its predicate, and the check of `stop_` after it. -/
def State.waitNotFull (o : Options) (s : State ρ) (i : Nat) (t : Task ρ) (pick : Option Nat) :
    Option (State ρ) :=
  if s.queue.length < o.maxQueueDepth ∨ s.stop = true then
    if s.stop = true then some (s.refuse i) else s.push i t pick
  else
    some { s with submitters := s.submitters.set i (.asleep t) }

/-- The critical section of `submit` up to its end or its first wait. -/
def State.submitEntered (o : Options) (s : State ρ) (i : Nat) (t : Task ρ) (pick : Option Nat) :
    Option (State ρ) :=
  if s.stop = true then some (s.refuse i)
  else if o.rejectOnFull = true then
    if o.maxQueueDepth ≤ s.queue.length then some (s.refuse i) else s.push i t pick
  else s.waitNotFull o i t pick

/-- The step of submitter `i` that takes `mu_`. -/
def State.submitLock (o : Options) (s : State ρ) (i : Nat) (pick : Option Nat) :
    Option (State ρ) :=
  match s.submitters[i]? with
  | some (.entered t) => s.submitEntered o i t pick
  | some (.notified t) | some (.spurious t) => s.waitNotFull o i t pick
  | _ => none

/-! ## `worker_main` -/

/-- The critical section of `worker_main`.  With an empty queue both branches on
`drain_on_stop_` return. -/
def State.workerLock (s : State ρ) (w : Nat) (pick : Option Nat) : Option (State ρ) :=
  match s.workers[w]? with
  | some worker =>
      if worker.atLock = true then
        match s.queue with
        | [] =>
            if s.stop = true then some { s with workers := s.workers.set w .exited }
            else some { s with workers := s.workers.set w .asleep }
        | t :: rest =>
            (notFull.notifyOne s.submitters pick).map (fun submitters =>
              { s with
                queue := rest
                submitters := submitters
                workers := s.workers.set w (.running t)
                popped := s.popped ++ [t.id] })
      else none
  | none => none

/-- The running task changes its own state. -/
def State.work (s : State ρ) (w : Nat) (body : ρ) : Option (State ρ) :=
  match s.workers[w]? with
  | some (.running t) =>
      some { s with workers := s.workers.set w (.running { t with body := body }) }
  | _ => none

/-- The task returns, or throws and is caught: the worker goes on either way. -/
def State.finish (s : State ρ) (w : Nat) (_threw : Bool) : Option (State ρ) :=
  match s.workers[w]? with
  | some (.running t) =>
      some { s with workers := s.workers.set w .ready, finished := s.finished ++ [t.id] }
  | _ => none

/-! ## `stop` and `stop_no_drain` -/

/-- The critical section of both.  A call that finds `stop_` set returns at once. -/
def State.stopCall (s : State ρ) (mode : StopMode) : State ρ :=
  if s.stop = true then s
  else
    match mode with
    | .drain => { s with stop := true, drainOnStop := true, stopper := .set .drain }
    | .noDrain =>
        { s with
          stop := true, drainOnStop := false, queue := [], stopper := .set .noDrain
          discarded := s.queue.map Task.id }

@[simp] theorem stopCall_workers (s : State ρ) (mode : StopMode) :
    (s.stopCall mode).workers = s.workers := by
  unfold State.stopCall
  split
  next => rfl
  next => cases mode <;> rfl

@[simp] theorem stopCall_finished (s : State ρ) (mode : StopMode) :
    (s.stopCall mode).finished = s.finished := by
  unfold State.stopCall
  split
  next => rfl
  next => cases mode <;> rfl

@[simp] theorem stopCall_submitters (s : State ρ) (mode : StopMode) :
    (s.stopCall mode).submitters = s.submitters := by
  unfold State.stopCall
  split
  next => rfl
  next => cases mode <;> rfl

def Worker.hasExited : Worker ρ → Bool
  | .exited => true
  | _ => false

/-! ## The machine -/

inductive Event (ρ : Type) where
  /-- Some thread calls `submit`. -/
  | submit (body : ρ)
  | submitLock (i : Nat) (pick : Option Nat)
  | submitSpurious (i : Nat)
  | workerLock (w : Nat) (pick : Option Nat)
  | workerSpurious (w : Nat)
  | work (w : Nat) (body : ρ)
  | finish (w : Nat) (threw : Bool)
  /-- Some thread calls `stop` or `stop_no_drain`. -/
  | stop (mode : StopMode)
  | notifyNotEmpty
  | notifyNotFull
  /-- The loop of `join` calls ends, every worker having exited. -/
  | join

def step (o : Options) (s : State ρ) : Event ρ → Option (State ρ)
  | .submit body =>
      some { s with submitters := s.submitters ++ [.entered ⟨s.submitters.length, body⟩] }
  | .submitLock i pick => s.submitLock o i pick
  | .submitSpurious i =>
      match s.submitters[i]? with
      | some (.asleep t) => some { s with submitters := s.submitters.set i (.spurious t) }
      | _ => none
  | .workerLock w pick => s.workerLock w pick
  | .workerSpurious w =>
      match s.workers[w]? with
      | some .asleep => some { s with workers := s.workers.set w .spurious }
      | _ => none
  | .work w body => s.work w body
  | .finish w threw => s.finish w threw
  | .stop mode => some (s.stopCall mode)
  | .notifyNotEmpty =>
      match s.stopper with
      | .set mode =>
          some { s with stopper := .notifiedWorkers mode, workers := notEmpty.notifyAll s.workers }
      | _ => none
  | .notifyNotFull =>
      match s.stopper with
      | .notifiedWorkers mode =>
          some { s with stopper := .joining mode, submitters := notFull.notifyAll s.submitters }
      | _ => none
  | .join =>
      match s.stopper with
      | .joining mode =>
          if s.workers.all Worker.hasExited then some { s with stopper := .returned mode } else none
      | _ => none

def init (o : Options) : State ρ where
  workers := List.replicate o.workerCount .ready

/-- The pool that the constructor makes of the given options. -/
def machine (o : Options) : Machine (State ρ) (Event ρ) where
  init := init o.normalise
  step := step o.normalise

/-! ## What a step can do -/

/-- Every way in which an event changes the pool, with the guard it was taken
under. -/
inductive Step (o : Options) (s : State ρ) : Event ρ → State ρ → Prop where
  | submit (body : ρ) :
      Step o s (.submit body)
        { s with submitters := s.submitters ++ [.entered ⟨s.submitters.length, body⟩] }
  | refuse {i : Nat} {p : Submitter ρ} {t : Task ρ} {pick : Option Nat} :
      s.submitters[i]? = some p → p.atLock = some t →
      (s.stop = true ∨ p = .entered t ∧ o.rejectOnFull = true) →
      Step o s (.submitLock i pick) (s.refuse i)
  | push {i : Nat} {p : Submitter ρ} {t : Task ρ} {pick : Option Nat}
      {workers : List (Worker ρ)} :
      s.submitters[i]? = some p → p.atLock = some t → s.stop = false →
      s.queue.length < o.maxQueueDepth → notEmpty.NotifiesOne s.workers workers →
      Step o s (.submitLock i pick) { s with
        queue := s.queue ++ [t], submitters := s.submitters.set i (.returned true)
        workers := workers, pushed := s.pushed ++ [t.id] }
  | sleepSubmitter {i : Nat} {p : Submitter ρ} {t : Task ρ} {pick : Option Nat} :
      s.submitters[i]? = some p → p.atLock = some t → s.stop = false →
      o.maxQueueDepth ≤ s.queue.length →
      Step o s (.submitLock i pick) { s with submitters := s.submitters.set i (.asleep t) }
  | spuriousSubmitter {i : Nat} {t : Task ρ} :
      s.submitters[i]? = some (.asleep t) →
      Step o s (.submitSpurious i) { s with submitters := s.submitters.set i (.spurious t) }
  | sleepWorker {w : Nat} {worker : Worker ρ} {pick : Option Nat} :
      s.workers[w]? = some worker → worker.atLock = true → s.queue = [] → s.stop = false →
      Step o s (.workerLock w pick) { s with workers := s.workers.set w .asleep }
  | exit {w : Nat} {worker : Worker ρ} {pick : Option Nat} :
      s.workers[w]? = some worker → worker.atLock = true → s.queue = [] → s.stop = true →
      Step o s (.workerLock w pick) { s with workers := s.workers.set w .exited }
  | pop {w : Nat} {worker : Worker ρ} {t : Task ρ} {rest : List (Task ρ)} {pick : Option Nat}
      {submitters : List (Submitter ρ)} :
      s.workers[w]? = some worker → worker.atLock = true → s.queue = t :: rest →
      notFull.NotifiesOne s.submitters submitters →
      Step o s (.workerLock w pick) { s with
        queue := rest, submitters := submitters, workers := s.workers.set w (.running t)
        popped := s.popped ++ [t.id] }
  | spuriousWorker {w : Nat} :
      s.workers[w]? = some .asleep →
      Step o s (.workerSpurious w) { s with workers := s.workers.set w .spurious }
  | work {w : Nat} {t : Task ρ} (body : ρ) :
      s.workers[w]? = some (.running t) →
      Step o s (.work w body)
        { s with workers := s.workers.set w (.running { t with body := body }) }
  | finish {w : Nat} {t : Task ρ} {threw : Bool} :
      s.workers[w]? = some (.running t) →
      Step o s (.finish w threw)
        { s with workers := s.workers.set w .ready, finished := s.finished ++ [t.id] }
  | stopAgain {mode : StopMode} : s.stop = true → Step o s (.stop mode) s
  | stopDrain : s.stop = false →
      Step o s (.stop .drain) { s with stop := true, drainOnStop := true, stopper := .set .drain }
  | stopNoDrain : s.stop = false →
      Step o s (.stop .noDrain) { s with
        stop := true, drainOnStop := false, queue := [], stopper := .set .noDrain
        discarded := s.queue.map Task.id }
  | notifyNotEmpty {mode : StopMode} : s.stopper = .set mode →
      Step o s .notifyNotEmpty { s with
        stopper := .notifiedWorkers mode, workers := notEmpty.notifyAll s.workers }
  | notifyNotFull {mode : StopMode} : s.stopper = .notifiedWorkers mode →
      Step o s .notifyNotFull { s with
        stopper := .joining mode, submitters := notFull.notifyAll s.submitters }
  | join {mode : StopMode} : s.stopper = .joining mode →
      (∀ w ∈ s.workers, w.hasExited = true) →
      Step o s .join { s with stopper := .returned mode }

variable {o : Options} {s s' : State ρ}

theorem push_cases {i : Nat} {p : Submitter ρ} {t : Task ρ} {pick : Option Nat}
    (hi : s.submitters[i]? = some p) (hp : p.atLock = some t) (hstop : s.stop = false)
    (hroom : s.queue.length < o.maxQueueDepth) (h : s.push i t pick = some s') :
    Step o s (.submitLock i pick) s' := by
  obtain ⟨workers, hworkers, rfl⟩ := Option.map_eq_some_iff.mp h
  exact .push hi hp hstop hroom (CondVar.notifyOne_cases hworkers)

theorem waitNotFull_cases {i : Nat} {p : Submitter ρ} {t : Task ρ} {pick : Option Nat}
    (hi : s.submitters[i]? = some p) (hp : p.atLock = some t)
    (h : s.waitNotFull o i t pick = some s') : Step o s (.submitLock i pick) s' := by
  simp only [State.waitNotFull] at h
  split at h
  next hready =>
    split at h
    next hstop =>
      cases h
      exact .refuse hi hp (.inl hstop)
    next hstop =>
      have hstop : s.stop = false := by simpa using hstop
      have hroom : s.queue.length < o.maxQueueDepth := by simpa [hstop] using hready
      exact push_cases hi hp hstop hroom h
  next hfull =>
    cases h
    rw [not_or] at hfull
    exact .sleepSubmitter hi hp (by simpa using hfull.2) (by omega)

theorem submitLock_cases {i : Nat} {pick : Option Nat} (h : s.submitLock o i pick = some s') :
    Step o s (.submitLock i pick) s' := by
  simp only [State.submitLock] at h
  split at h
  next t hi =>
    simp only [State.submitEntered] at h
    split at h
    next hstop =>
      cases h
      exact .refuse hi rfl (.inl hstop)
    next hstop =>
      split at h
      next hreject =>
        split at h
        next =>
          cases h
          exact .refuse hi rfl (.inr ⟨rfl, hreject⟩)
        next hroom => exact push_cases hi rfl (by simpa using hstop) (by omega) h
      next => exact waitNotFull_cases hi rfl h
  next t hi => exact waitNotFull_cases hi rfl h
  next t hi => exact waitNotFull_cases hi rfl h
  next => cases h

theorem workerLock_cases {w : Nat} {pick : Option Nat} (h : s.workerLock w pick = some s') :
    Step o s (.workerLock w pick) s' := by
  simp only [State.workerLock] at h
  split at h
  next worker hw =>
    split at h
    next hlock =>
      split at h
      next hempty =>
        split at h
        next hstop =>
          cases h
          exact .exit hw hlock hempty hstop
        next hstop =>
          cases h
          exact .sleepWorker hw hlock hempty (by simpa using hstop)
      next t rest hqueue =>
        obtain ⟨submitters, hsubmitters, rfl⟩ := Option.map_eq_some_iff.mp h
        exact .pop hw hlock hqueue (CondVar.notifyOne_cases hsubmitters)
    next => cases h
  next => cases h

theorem stopCall_cases (mode : StopMode) : Step o s (.stop mode) (s.stopCall mode) := by
  unfold State.stopCall
  split
  next hstop => exact .stopAgain hstop
  next hstop =>
    have hstop : s.stop = false := by simpa using hstop
    cases mode with
    | drain => exact .stopDrain hstop
    | noDrain => exact .stopNoDrain hstop

/-- The inversion of a step. -/
theorem step_cases {e : Event ρ} (h : step o s e = some s') : Step o s e s' := by
  cases e with
  | submit body =>
      cases h
      exact .submit body
  | submitLock i pick => exact submitLock_cases h
  | submitSpurious i =>
      simp only [step] at h
      split at h
      next t hi =>
        cases h
        exact .spuriousSubmitter hi
      next => cases h
  | workerLock w pick => exact workerLock_cases h
  | workerSpurious w =>
      simp only [step] at h
      split at h
      next hw =>
        cases h
        exact .spuriousWorker hw
      next => cases h
  | work w body =>
      simp only [step, State.work] at h
      split at h
      next t hw =>
        cases h
        exact .work body hw
      next => cases h
  | finish w threw =>
      simp only [step, State.finish] at h
      split at h
      next t hw =>
        cases h
        exact .finish hw
      next => cases h
  | stop mode =>
      cases h
      exact stopCall_cases mode
  | notifyNotEmpty =>
      simp only [step] at h
      split at h
      next mode hmode =>
        cases h
        exact .notifyNotEmpty hmode
      next => cases h
  | notifyNotFull =>
      simp only [step] at h
      split at h
      next mode hmode =>
        cases h
        exact .notifyNotFull hmode
      next => cases h
  | join =>
      simp only [step] at h
      split at h
      next mode hmode =>
        split at h
        next hexited =>
          cases h
          exact .join hmode (List.all_eq_true.mp hexited)
        next => cases h
      next => cases h

end InferenceRouter.ThreadPool
