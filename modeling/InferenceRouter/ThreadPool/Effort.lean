import InferenceRouter.Interleaving.Effort
import InferenceRouter.ThreadPool.Wakeups
import InferenceRouter.ThreadPool.Tasks

/-!
# The work left in the thread pool

`State.effort` says how many steps the threads of the pool have still to take,
when `f` bounds the steps of a running task and `c` those that a queued one will
cause.  Each step of a thread lowers it by one at least: whoever notifies a
sleeper pays for the step that the sleeper takes again, and the thread inside
`stop` pays for its two `notify_all` calls in advance.  Only a spurious wakeup
raises it.

The second half says that the pool's threads do not get in each other's way: a
thread that is due to take `mu_` always can, whomever it has to notify.
-/

namespace InferenceRouter.ThreadPool

open Interleaving

variable {ρ : Type} {o : Options} {s s' : State ρ} {e : Event ρ} {f : ρ → Nat} {c : Nat}

/-- The wakeups that no notification caused. -/
def Event.spurious : Event ρ → Bool
  | .submitSpurious _ | .workerSpurious _ => true
  | _ => false

/-- The steps that a call of `submit` has still to take or to cause. -/
def Submitter.effort (c : Nat) : Submitter ρ → Nat
  | .entered _ | .notified _ | .spurious _ => c + 2
  | .asleep _ => c + 1
  | .returned _ => 0

/-- The steps that a worker has still to take, up to its next sleep or its end. -/
def Worker.effort (f : ρ → Nat) : Worker ρ → Nat
  | .ready | .notified | .spurious => 2
  | .asleep => 1
  | .running t => f t.body + 3
  | .exited => 0

/-- The steps of the stopping thread, with those of the workers that it wakes. -/
def Stopper.effort (workers : Nat) : Stopper → Nat
  | .idle | .returned _ => 0
  | .set _ => workers + 3
  | .notifiedWorkers _ => 2
  | .joining _ => 1

def State.effort (f : ρ → Nat) (c : Nat) (s : State ρ) : Nat :=
  total (Submitter.effort c) s.submitters + c * s.queue.length +
    total (Worker.effort f) s.workers + s.stopper.effort s.workers.length

theorem Stopper.eq_idle {m : Stopper} (h : m.mode = none) : m = .idle := by
  cases m <;> simp_all [mode]

theorem Submitter.effort_of_atLock {p : Submitter ρ} {t : Task ρ} (h : p.atLock = some t) :
    p.effort c = c + 2 := by
  cases p <;> simp_all [atLock, effort]

theorem Worker.effort_of_atLock {w : Worker ρ} (h : w.atLock = true) : w.effort f = 2 := by
  cases w <;> simp_all [atLock, effort]

theorem notFull_effort_wake {p : Submitter ρ} (h : notFull.asleep p = true) :
    (notFull.wake p).effort c ≤ p.effort c + 1 := by
  obtain ⟨t, rfl, hwake⟩ := notFull_wake h
  rw [hwake]
  exact le_rfl

theorem notEmpty_effort_wake {w : Worker ρ} (h : notEmpty.asleep w = true) :
    (notEmpty.wake w).effort f ≤ w.effort f + 1 := by
  obtain ⟨rfl, hwake⟩ := notEmpty_wake h
  rw [hwake]
  exact le_rfl

/-- A quiet step that no spurious wakeup is lowers the effort. -/
theorem effort_quiet (h : Step o s e s') (hquiet : e.quiet = true) (hs : Stopping s)
    (hcost : Waiting (fun t => f t.body + 3 ≤ c) s)
    (hawake : s.stop = true → ∀ p ∈ s.submitters, notFull.asleep p = false) :
    (!e.spurious).toNat + s'.effort f c ≤ s.effort f c + e.spurious.toNat := by
  cases h with
  | submit | work | finish | stopAgain | stopDrain | stopNoDrain => cases hquiet
  | @refuse i p t _ hi hp =>
      have hset := total_set (Submitter.effort c) (.returned false) hi
      rw [Submitter.effort_of_atLock hp] at hset
      simp only [State.effort, State.refuse, Submitter.effort, Event.spurious, Bool.not_false,
        Bool.toNat_true, Bool.toNat_false] at hset ⊢
      omega
  | @push i p t _ workers hi hp _ _ hworkers =>
      have hset := total_set (Submitter.effort c) (.returned true) hi
      have hwake := hworkers.total_le (f := Worker.effort f) (fun _ => notEmpty_effort_wake)
      rw [Submitter.effort_of_atLock hp] at hset
      simp only [State.effort, Submitter.effort, Event.spurious, Bool.not_false, Bool.toNat_true,
        Bool.toNat_false, List.length_append, List.length_singleton, Nat.mul_add,
        hworkers.length_eq] at hset ⊢
      omega
  | @sleepSubmitter i p t _ hi hp =>
      have hset := total_set (Submitter.effort c) (.asleep t) hi
      rw [Submitter.effort_of_atLock hp] at hset
      simp only [State.effort, Submitter.effort, Event.spurious, Bool.not_false, Bool.toNat_true,
        Bool.toNat_false] at hset ⊢
      omega
  | @spuriousSubmitter i t hi =>
      have hset := total_set (Submitter.effort c) (.spurious t) hi
      simp only [State.effort, Submitter.effort, Event.spurious, Bool.not_true, Bool.toNat_true,
        Bool.toNat_false] at hset ⊢
      omega
  | @sleepWorker w worker _ hw hlock =>
      have hset := total_set (Worker.effort f) .asleep hw
      rw [Worker.effort_of_atLock hlock] at hset
      simp only [State.effort, Worker.effort, Event.spurious, Bool.not_false, Bool.toNat_true,
        Bool.toNat_false, List.length_set] at hset ⊢
      omega
  | @exit w worker _ hw hlock =>
      have hset := total_set (Worker.effort f) .exited hw
      rw [Worker.effort_of_atLock hlock] at hset
      simp only [State.effort, Worker.effort, Event.spurious, Bool.not_false, Bool.toNat_true,
        Bool.toNat_false, List.length_set] at hset ⊢
      omega
  | @pop w worker t rest _ submitters hw hlock hqueue hsub =>
      -- the popped task pays for the wakeup as well
      have hset := total_set (Worker.effort f) (.running t) hw
      have hwake := hsub.total_le (f := Submitter.effort c) (fun _ => notFull_effort_wake)
      have hpays := hcost.queue t (by rw [hqueue]; exact List.mem_cons_self)
      rw [Worker.effort_of_atLock hlock] at hset
      simp only [State.effort, Worker.effort, Event.spurious, Bool.not_false, Bool.toNat_true,
        Bool.toNat_false, List.length_set, hqueue, List.length_cons, Nat.mul_add] at hset ⊢
      omega
  | @spuriousWorker w hw =>
      have hset := total_set (Worker.effort f) .spurious hw
      simp only [State.effort, Worker.effort, Event.spurious, Bool.not_true, Bool.toNat_true,
        Bool.toNat_false, List.length_set] at hset ⊢
      omega
  | notifyNotEmpty hmode =>
      have hwake := CondVar.total_notifyAll_le (l := s.workers) (f := Worker.effort f)
        (fun _ => notEmpty_effort_wake)
      simp only [State.effort, hmode, Stopper.effort, Event.spurious, Bool.not_false,
        Bool.toNat_true, Bool.toNat_false]
      omega
  | notifyNotFull hmode =>
      have hset : s.stop = true := by
        by_contra hopen
        have hidle := hs.idle_iff.mp (by simpa using hopen)
        rw [hmode] at hidle
        cases hidle
      simp only [State.effort, hmode, Stopper.effort, Event.spurious, Bool.not_false,
        Bool.toNat_true, Bool.toNat_false, CondVar.notifyAll_of_awake (hawake hset)]
      omega
  | join hmode =>
      simp only [State.effort, hmode, Stopper.effort, Event.spurious, Bool.not_false,
        Bool.toNat_true, Bool.toNat_false]
      omega

/-! ## Up to a queued task -/

/-- The critical sections of the workers. -/
def Event.ofWorker : Event ρ → Bool
  | .workerLock _ _ => true
  | _ => false

/-- As long as a task is queued, a worker that takes `mu_` pops one.  So a task to pop pays
for the worker's step and for what the task weighs, and nobody else has to pay, whatever is
pushed behind it. -/
theorem weight_pop (h : Step o s e s') (hquiet : e.quiet = true) (hne : s.queue ≠ [])
    (hcost : ∀ t ∈ s.queue, f t.body + 1 ≤ c) :
    e.ofWorker.toNat + s'.weight f + c * s.popped.length ≤
      s.weight f + c * s'.popped.length := by
  cases h with
  | submit | work | finish | stopAgain | stopDrain | stopNoDrain => cases hquiet
  | sleepWorker _ _ hempty | exit _ _ hempty => exact absurd hempty hne
  | @pop w worker t _ _ _ hworker hlock hqueue =>
      have hset := total_set (Worker.weight f) (.running t) hworker
      have hpays := hcost t (by rw [hqueue]; exact List.mem_cons_self)
      rw [Worker.weight_of_atLock hlock] at hset
      simp only [Worker.weight] at hset
      simp only [State.weight, Event.ofWorker, Bool.toNat_true, List.length_append,
        List.length_singleton, Nat.mul_add]
      omega
  | push _ _ _ _ hworkers =>
      have hsame := hworkers.total_eq (f := Worker.weight f)
        (fun _ hasleep => notEmpty_weight_wake hasleep)
      simp only [State.weight, Event.ofWorker, Bool.toNat_false]
      omega
  | spuriousWorker hworker =>
      have hsame := total_set_of_eq (Worker.weight f) (b := .spurious) hworker rfl
      simp only [State.weight, Event.ofWorker, Bool.toNat_false]
      omega
  | notifyNotEmpty =>
      have hsame := CondVar.total_notifyAll (l := s.workers) (f := Worker.weight f)
        (fun _ hasleep => notEmpty_weight_wake hasleep)
      simp only [State.weight, Event.ofWorker, Bool.toNat_false]
      omega
  | refuse | sleepSubmitter | spuriousSubmitter | notifyNotFull | join =>
      simp only [State.weight, State.refuse, Event.ofWorker, Bool.toNat_false]
      omega

/-! ## Steps that are enabled -/

/-- A worker that is due to take `mu_` can. -/
theorem exists_workerLock {w : Nat} {worker : Worker ρ} (hw : s.workers[w]? = some worker)
    (hlock : worker.atLock = true) :
    ∃ pick s', step o s (.workerLock w pick) = some s' := by
  obtain ⟨pick, submitters, hnotify⟩ := notFull.exists_notifyOne s.submitters
  refine ⟨pick, ?_⟩
  rw [← Option.isSome_iff_exists]
  simp only [step, State.workerLock, hw, if_pos hlock]
  cases hqueue : s.queue with
  | nil =>
      simp only
      split <;> rfl
  | cons t rest => simp [hnotify]

/-- A submitter that is due to take `mu_` can. -/
theorem exists_submitLock {i : Nat} {p : Submitter ρ} {t : Task ρ}
    (hi : s.submitters[i]? = some p) (hp : p.atLock = some t) :
    ∃ pick s', step o s (.submitLock i pick) = some s' := by
  obtain ⟨pick, workers, hnotify⟩ := notEmpty.exists_notifyOne s.workers
  have hpush : ∀ t, (s.push i t pick).isSome = true := by
    intro t
    simp [State.push, hnotify]
  have hwait : ∀ t, (s.waitNotFull o i t pick).isSome = true := by
    intro t
    simp only [State.waitNotFull]
    split
    · split
      · rfl
      · exact hpush t
    · rfl
  refine ⟨pick, ?_⟩
  rw [← Option.isSome_iff_exists]
  cases p with
  | entered t =>
      simp only [step, State.submitLock, hi, State.submitEntered]
      split
      · rfl
      · split
        · split
          · rfl
          · exact hpush t
        · exact hwait t
  | notified t | spurious t =>
      simp only [step, State.submitLock, hi]
      exact hwait t
  | asleep t => cases hp
  | returned ok => cases hp

/-- A call that enters an open pool with room pushes its task. -/
theorem step_push {i : Nat} {t : Task ρ} (hi : s.submitters[i]? = some (.entered t))
    (hstop : s.stop = false) (hwaits : o.rejectOnFull = false)
    (hroom : s.queue.length < o.maxQueueDepth)
    (hawake : ∀ w ∈ s.workers, notEmpty.asleep w = false) :
    step o s (.submitLock i none) = some { s with
      queue := s.queue ++ [t], submitters := s.submitters.set i (.returned true)
      pushed := s.pushed ++ [t.id] } := by
  simp [step, State.submitLock, hi, State.submitEntered, hstop, hwaits, State.waitNotFull, hroom,
    State.push, CondVar.notifyOne_of_awake hawake]

/-- A worker that takes `mu_` before a queued task pops it. -/
theorem step_pop {w : Nat} {t : Task ρ} {rest : List (Task ρ)} (hw : s.workers[w]? = some .ready)
    (hqueue : s.queue = t :: rest) (hawake : ∀ p ∈ s.submitters, notFull.asleep p = false) :
    step o s (.workerLock w none) = some { s with
      queue := rest, workers := s.workers.set w (.running t), popped := s.popped ++ [t.id] } := by
  simp [step, State.workerLock, hw, Worker.atLock, hqueue, CondVar.notifyOne_of_awake hawake]

end InferenceRouter.ThreadPool
