import InferenceRouter.Interleaving.Machine
import InferenceRouter.Interleaving.Threads

/-!
# Signals and the wait loop

The model of `Shutdown` (`shutdown.cpp`) with the loop of `main` that waits for
it.  `main` polls `requested()` and calls `wait(1000ms)`, which takes `mu_`,
evaluates the predicate, sleeps on `cv_` without `mu_`, and evaluates it again
with `mu_` taken anew.

SIGTERM and SIGINT may be delivered to any thread between any two of its steps.
The handler calls `request()`: it stores the flag, takes `mu_`, notifies, and
releases `mu_`.  It runs on the thread that it interrupted, which goes on only
when the handler has returned, so each thread has a stack of handler frames on
top of its own code.  `sa_mask` is empty: a signal is blocked during its own
handler, and the other one may interrupt it.  The threads besides `main` do not
use `mu_` in their own code, so only their frames are modelled.
-/

namespace InferenceRouter.Shutdown

open Interleaving

inductive Signo where
  | sigterm
  | sigint
  deriving DecidableEq

/-- Where a run of `signal_handler` is, inside `request()`. -/
inductive FramePc where
  /-- Before `requested_.store(true)`. -/
  | store
  /-- Before `mu_` is taken. -/
  | lock
  /-- With `mu_`, before `cv_.notify_all()`. -/
  | notify
  /-- With `mu_`, before it is released. -/
  | unlock
  | ret
  deriving DecidableEq

structure Frame where
  signo : Signo
  pc : FramePc

/-- The main thread's own code. -/
inductive Main where
  /-- At `while (!requested())`. -/
  | check
  /-- In `wait`, before `mu_` is taken. -/
  | lock
  /-- With `mu_`, at the predicate; `timedOut` says how the last sleep ended. -/
  | predicate (deadline : Int) (timedOut : Bool)
  /-- Asleep on `cv_`, without `mu_`. -/
  | asleep (deadline : Int)
  /-- Woken, before `mu_` is taken again. -/
  | woken (deadline : Int) (timedOut : Bool)
  /-- With `mu_`, at the load that `wait` returns. -/
  | load
  /-- With `mu_`, before it is released. -/
  | unlock
  /-- Out of the loop, in the drain phase. -/
  | draining
  deriving DecidableEq

/-- The points at which main's own code has `mu_`. -/
def Main.holds : Main → Bool
  | .predicate _ _ | .load | .unlock => true
  | _ => false

/-- The points at which a handler has `mu_`. -/
def Frame.holds (f : Frame) : Bool :=
  match f.pc with
  | .notify | .unlock => true
  | _ => false

/-- `cv_.notify_all()`; main is the only thread that waits. -/
def Main.notify : Main → Main
  | .asleep deadline => .woken deadline false
  | m => m

/-- The thread with number 0 is the main thread.  Each thread has its frames,
the running one first. -/
structure State where
  now : Int := 0
  requested : Bool := false
  owner : Option Nat := none
  main : Main := .check
  frames : List (List Frame)

/-- A step of main's own code. -/
def State.mainStep (s : State) : Option State :=
  match s.main with
  | .check => some { s with main := if s.requested = true then .draining else .lock }
  | .lock =>
      match s.owner with
      | none => some { s with owner := some 0, main := .predicate (s.now + 1000) false }
      | some _ => none
  | .predicate deadline timedOut =>
      if s.requested = true ∨ timedOut = true then some { s with main := .load }
      else some { s with owner := none, main := .asleep deadline }
  | .asleep _ => none
  | .woken deadline timedOut =>
      match s.owner with
      | none => some { s with owner := some 0, main := .predicate deadline timedOut }
      | some _ => none
  | .load => some { s with main := .unlock }
  | .unlock => some { s with owner := none, main := .check }
  | .draining => none

/-- A step of the handler that runs on thread `t`. -/
def State.handlerStep (s : State) (t : Nat) (f : Frame) (rest : List Frame) : Option State :=
  match f.pc with
  | .store =>
      some { s with requested := true, frames := s.frames.set t ({ f with pc := .lock } :: rest) }
  | .lock =>
      match s.owner with
      | none =>
          some { s with
            owner := some t, frames := s.frames.set t ({ f with pc := .notify } :: rest) }
      | some _ => none
  | .notify =>
      some { s with
        main := s.main.notify, frames := s.frames.set t ({ f with pc := .unlock } :: rest) }
  | .unlock =>
      some { s with owner := none, frames := s.frames.set t ({ f with pc := .ret } :: rest) }
  | .ret => some { s with frames := s.frames.set t rest }

inductive Event where
  | clock (ms : Nat)
  /-- A signal interrupts a thread. -/
  | deliver (t : Nat) (signo : Signo)
  | handler (t : Nat)
  | main
  | timeout
  | spurious

def step (s : State) : Event → Option State
  | .clock ms => some { s with now := s.now + ms }
  | .deliver t signo =>
      match s.frames[t]? with
      | some frames =>
          if frames.any (fun f => f.signo = signo) then none
          else some { s with frames := s.frames.set t (⟨signo, .store⟩ :: frames) }
      | none => none
  | .handler t =>
      match s.frames[t]? with
      | some (f :: rest) => s.handlerStep t f rest
      | _ => none
  | .main =>
      match s.frames[0]? with
      | some [] => s.mainStep
      | _ => none
  | .timeout =>
      match s.main with
      | .asleep deadline =>
          if deadline ≤ s.now then some { s with main := .woken deadline true } else none
      | _ => none
  | .spurious =>
      match s.main with
      | .asleep deadline => some { s with main := .woken deadline false }
      | _ => none

/-- The process with `others` threads besides the main thread. -/
def machine (others : Nat) : Machine State Event where
  init := { frames := List.replicate (others + 1) [] }
  step := step

/-- A handler waits for `mu_`, and the thread that it interrupted has it. -/
def State.Deadlocked (s : State) : Prop :=
  ∃ t f rest, s.frames[t]? = some (f :: rest) ∧ f.pc = .lock ∧ s.owner = some t

/-- A signal has been delivered. -/
def State.Signalled (s : State) : Prop := s.requested = true ∨ ∃ fs ∈ s.frames, fs ≠ []

/-! ## What a step can do -/

/-- Every way in which an event changes the state, with the guard it was taken
under. -/
inductive Step (s : State) : Event → State → Prop where
  | clock (ms : Nat) : Step s (.clock ms) { s with now := s.now + ms }
  | deliver {t : Nat} {signo : Signo} {frames : List Frame} : s.frames[t]? = some frames →
      frames.any (fun f => f.signo = signo) = false →
      Step s (.deliver t signo) { s with frames := s.frames.set t (⟨signo, .store⟩ :: frames) }
  | store {t : Nat} {f : Frame} {rest : List Frame} : s.frames[t]? = some (f :: rest) →
      f.pc = .store →
      Step s (.handler t)
        { s with requested := true, frames := s.frames.set t ({ f with pc := .lock } :: rest) }
  | lock {t : Nat} {f : Frame} {rest : List Frame} : s.frames[t]? = some (f :: rest) →
      f.pc = .lock → s.owner = none →
      Step s (.handler t)
        { s with owner := some t, frames := s.frames.set t ({ f with pc := .notify } :: rest) }
  | notify {t : Nat} {f : Frame} {rest : List Frame} : s.frames[t]? = some (f :: rest) →
      f.pc = .notify →
      Step s (.handler t)
        { s with
          main := s.main.notify, frames := s.frames.set t ({ f with pc := .unlock } :: rest) }
  | unlock {t : Nat} {f : Frame} {rest : List Frame} : s.frames[t]? = some (f :: rest) →
      f.pc = .unlock →
      Step s (.handler t)
        { s with owner := none, frames := s.frames.set t ({ f with pc := .ret } :: rest) }
  | ret {t : Nat} {f : Frame} {rest : List Frame} : s.frames[t]? = some (f :: rest) →
      f.pc = .ret → Step s (.handler t) { s with frames := s.frames.set t rest }
  | mainLock {deadline : Int} {timedOut : Bool} : s.frames[0]? = some [] → s.main.holds = false →
      s.owner = none →
      Step s .main { s with owner := some 0, main := .predicate deadline timedOut }
  | mainUnlock {m : Main} : s.frames[0]? = some [] → s.main.holds = true → m.holds = false →
      Step s .main { s with owner := none, main := m }
  | mainMove {e : Event} {m : Main} : (∀ t signo, e ≠ .deliver t signo) → m.holds = s.main.holds →
      Step s e { s with main := m }

variable {s s' : State}

theorem handlerStep_cases {t : Nat} {f : Frame} {rest : List Frame}
    (ht : s.frames[t]? = some (f :: rest)) (h : s.handlerStep t f rest = some s') :
    Step s (.handler t) s' := by
  simp only [State.handlerStep] at h
  split at h
  next hpc =>
    cases h
    exact .store ht hpc
  next hpc =>
    split at h
    next hfree =>
      cases h
      exact .lock ht hpc hfree
    next => cases h
  next hpc =>
    cases h
    exact .notify ht hpc
  next hpc =>
    cases h
    exact .unlock ht hpc
  next hpc =>
    cases h
    exact .ret ht hpc

theorem mainStep_cases (ht : s.frames[0]? = some []) (h : s.mainStep = some s') :
    Step s .main s' := by
  have hmove : ∀ {m : Main}, m.holds = s.main.holds → Step s .main { s with main := m } := by
    intro m hm
    exact .mainMove (by simp) hm
  cases hpc : s.main with
  | check =>
      simp only [State.mainStep, hpc] at h
      cases h
      refine hmove ?_
      rw [hpc]
      split <;> rfl
  | lock =>
      simp only [State.mainStep, hpc] at h
      split at h
      next hfree =>
        cases h
        exact .mainLock ht (by rw [hpc]; rfl) hfree
      next => cases h
  | predicate deadline timedOut =>
      simp only [State.mainStep, hpc] at h
      split at h
      next =>
        cases h
        exact hmove (by rw [hpc]; rfl)
      next =>
        cases h
        exact .mainUnlock ht (by rw [hpc]; rfl) rfl
  | asleep deadline =>
      simp only [State.mainStep, hpc] at h
      cases h
  | woken deadline timedOut =>
      simp only [State.mainStep, hpc] at h
      split at h
      next hfree =>
        cases h
        exact .mainLock ht (by rw [hpc]; rfl) hfree
      next => cases h
  | load =>
      simp only [State.mainStep, hpc] at h
      cases h
      exact hmove (by rw [hpc]; rfl)
  | unlock =>
      simp only [State.mainStep, hpc] at h
      cases h
      exact .mainUnlock ht (by rw [hpc]; rfl) rfl
  | draining =>
      simp only [State.mainStep, hpc] at h
      cases h

/-- The inversion of a step. -/
theorem step_cases {e : Event} (h : step s e = some s') : Step s e s' := by
  cases e with
  | clock ms =>
      cases h
      exact .clock ms
  | deliver t signo =>
      simp only [step] at h
      split at h
      next frames ht =>
        split at h
        next => cases h
        next hblocked =>
          cases h
          exact .deliver ht (by simpa using hblocked)
      next => cases h
  | handler t =>
      simp only [step] at h
      split at h
      next f rest ht => exact handlerStep_cases ht h
      next => cases h
  | main =>
      simp only [step] at h
      split at h
      next ht => exact mainStep_cases ht h
      next => cases h
  | timeout =>
      simp only [step] at h
      split at h
      next deadline hpc =>
        split at h
        next =>
          cases h
          exact .mainMove (by simp) (by rw [hpc]; rfl)
        next => cases h
      next => cases h
  | spurious =>
      simp only [step] at h
      split at h
      next deadline hpc =>
        cases h
        exact .mainMove (by simp) (by rw [hpc]; rfl)
      next => cases h

end InferenceRouter.Shutdown
