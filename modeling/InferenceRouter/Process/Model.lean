import InferenceRouter.BackendSet.Callers
import InferenceRouter.CommandLine
import InferenceRouter.Router.Invariant

/-!
# The process

The router of `Router.Model` and the backend set of `BackendSet.Model` as one machine.
Each moves by its own step function.  They meet in the calls of the handlers and of main:
a call of `borrow` or `release` begins as a step of the set and returns as a step of the
router, and in between the worker waits while its entry among the callers of the set
moves.  `backend_set.shutdown()` begins with the step of main that calls it, and main
goes on when it has returned.  The clock is common.

`leases` says for every worker where its handler is with the set.

`attempts` is the process with allocations that may fail: a run throws out of `read_message`,
and what it had borrowed or counted stays so.
-/

namespace InferenceRouter.Router

/-- Main is about to call `backend_set.shutdown()`, or in it. -/
def Main.atBackends : Main → Bool
  | .stoppedPool | .shuttingBackends => true
  | _ => false

/-- The steps that the router takes by itself.  The clock and the calls of the backend
set are not among them. -/
def State.alone (s : State) : Event → Bool
  | .clock _ => false
  | .handlerCall _ o _ => !isBackendSetCall o
  | .main => !s.main.atBackends
  | _ => true

end InferenceRouter.Router

namespace InferenceRouter.Process

open Interleaving Handler

/-! ## State -/

structure Config where
  router : Router.Config
  backends : BackendSet.Config

/-- What `main` makes of the command line. -/
def Config.ofArgs (args : CommandLine.Args) : Config where
  router := args.router
  backends := args.backendSet

/-- Where a worker's handler is with the backend set. -/
inductive Lease where
  /-- Outside, without a handle. -/
  | none
  /-- In `borrow`, as caller `c` of the set. -/
  | borrowing (c : Nat)
  /-- Outside, with the handle that caller `c` got. -/
  | holding (c : Nat)
  /-- In `release`. -/
  | releasing (c : Nat)

structure State where
  router : Router.State
  backends : BackendSet.State
  leases : Nat → Lease := fun _ => .none

/-! ## Calls -/

/-- The next call of the handler on worker `w`. -/
def State.nextCall (s : State) (w : Nat) : Option Op :=
  match s.router.pool.workers[w]? with
  | some (.running t) => t.body.rest.nextCall
  | _ => none

/-- The handler on worker `w` begins a call of the set, which is `e` there. -/
def State.enter (cfg : Config) (s : State) (w : Nat) (e : BackendSet.Event) (l : Lease) :
    Option State :=
  (BackendSet.step cfg.backends s.backends e).map (fun backends =>
    { s with backends := backends, leases := Function.update s.leases w l })

/-- Its call `o` returns `x`. -/
def State.resume (cfg : Config) (s : State) (w : Nat) (o : Op) (x : o.Ret) (l : Lease) :
    Option State :=
  (Router.step cfg.router s.router (.handlerCall w o x)).map (fun router =>
    { s with router := router, leases := Function.update s.leases w l })

/-- The call of `borrow`. -/
def State.borrow (cfg : Config) (s : State) (w : Nat) : Option State :=
  match s.leases w, s.nextCall w with
  | .none, some .setBorrow => s.enter cfg w .borrow (.borrowing s.backends.callers.length)
  | _, _ => none

/-- `borrow` returns. -/
def State.borrowReturn (cfg : Config) (s : State) (w : Nat) : Option State :=
  match s.leases w with
  | .borrowing c =>
      match s.backends.stage c with
      | some (.held h) => s.resume cfg w .setBorrow h (.holding c)
      | some .failed => s.resume cfg w .setBorrow { fd := -1, poolIndex := 0 } .none
      | _ => none
  | _ => none

/-- The call of `release`, with the handle that was borrowed. -/
def State.release (cfg : Config) (s : State) (w : Nat) : Option State :=
  match s.leases w, s.nextCall w with
  | .holding c, some (.setRelease h ok) =>
      match s.backends.stage c with
      | some (.held h') =>
          if h' = h then s.enter cfg w (.release c ok) (.releasing c) else none
      | _ => none
  | _, _ => none

/-- `release` returns. -/
def State.releaseReturn (cfg : Config) (s : State) (w : Nat) : Option State :=
  match s.leases w, s.nextCall w with
  | .releasing c, some (.setRelease h ok) =>
      match s.backends.stage c with
      | some (.returned _) => s.resume cfg w (.setRelease h ok) () .none
      | _ => none
  | _, _ => none

/-- Main calls `backend_set.shutdown()`. -/
def State.shutdown (cfg : Config) (s : State) : Option State :=
  match s.router.main with
  | .stoppedPool =>
      (Router.step cfg.router s.router .main).bind (fun router =>
        (BackendSet.step cfg.backends s.backends .shutdown).map (fun backends =>
          { s with router := router, backends := backends }))
  | _ => none

/-- `backend_set.shutdown()` returns. -/
def State.shutdownReturn (cfg : Config) (s : State) : Option State :=
  match s.router.main, s.backends.shutdown with
  | .shuttingBackends, .returned =>
      (Router.step cfg.router s.router .main).map (fun router => { s with router := router })
  | _, _ => none

/-! ## The machine -/

inductive Event where
  | clock (ms : Nat)
  | router (e : Router.Event)
  | backends (e : BackendSet.Event)
  | borrow (w : Nat)
  | borrowReturn (w : Nat)
  | release (w : Nat)
  | releaseReturn (w : Nat)
  | shutdown
  | shutdownReturn

def step (cfg : Config) (s : State) : Event → Option State
  | .clock ms =>
      some { s with
        router := { s.router with now := s.router.now + ms }
        backends := { s.backends with now := s.backends.now + ms } }
  | .router e =>
      if s.router.alone e = true then
        (Router.step cfg.router s.router e).map (fun router => { s with router := router })
      else none
  | .backends e =>
      if e.inner = true then
        (BackendSet.step cfg.backends s.backends e).map (fun backends =>
          { s with backends := backends })
      else none
  | .borrow w => s.borrow cfg w
  | .borrowReturn w => s.borrowReturn cfg w
  | .release w => s.release cfg w
  | .releaseReturn w => s.releaseReturn cfg w
  | .shutdown => s.shutdown cfg
  | .shutdownReturn => s.shutdownReturn cfg

def machine (cfg : Config) : Machine State Event where
  init := {
    router := (Router.machine cfg.router).init
    backends := (BackendSet.machine cfg.backends).init }
  step := step cfg

/-! ## Allocations that fail -/

/-- The handler on worker `w` throws.  A handle that it had is lost with it. -/
def State.handlerThrow (cfg : Config) (s : State) (w : Nat) : Option State :=
  (s.router.handlerThrow cfg.router w).map (fun router =>
    { s with router := router, leases := Function.update s.leases w .none })

inductive Attempt where
  | event (e : Event)
  /-- The allocation of a message fails, in the handler on worker `w`. -/
  | badAlloc (w : Nat)

/-- No allocation fails. -/
def Attempt.succeeds : Attempt → Bool
  | .event _ => true
  | .badAlloc _ => false

def attempt (cfg : Config) (s : State) : Attempt → Option State
  | .event e => step cfg s e
  | .badAlloc w => s.handlerThrow cfg w

/-- The process, with allocations that may fail. -/
def attempts (cfg : Config) : Machine State Attempt where
  init := (machine cfg).init
  step := attempt cfg

/-- As long as none fails, it is the process. -/
theorem attempts_reachable {cfg : Config} {s : State}
    (h : (attempts cfg).Reaches (fun e => e.succeeds = true) (attempts cfg).init s) :
    (machine cfg).Reachable s := by
  refine h.invariant (P := (machine cfg).Reachable) ?_ .init
  intro t e t' ht hsucceeds hstep
  cases e with
  | event e => exact ht.step hstep
  | badAlloc w => cases hsucceeds

/-! ## What a step can do -/

/-- Every way in which an event changes the process. -/
inductive Step (cfg : Config) (s : State) : Event → State → Prop where
  | clock (ms : Nat) : Step cfg s (.clock ms) { s with
      router := { s.router with now := s.router.now + ms }
      backends := { s.backends with now := s.backends.now + ms } }
  | router {e : Router.Event} {x : Router.State} : s.router.alone e = true →
      Router.step cfg.router s.router e = some x → Step cfg s (.router e) { s with router := x }
  | backends {e : BackendSet.Event} {x : BackendSet.State} : e.inner = true →
      BackendSet.step cfg.backends s.backends e = some x →
      Step cfg s (.backends e) { s with backends := x }
  | borrow {w : Nat} {x : BackendSet.State} : s.leases w = .none →
      s.nextCall w = some .setBorrow →
      BackendSet.step cfg.backends s.backends .borrow = some x →
      Step cfg s (.borrow w) { s with
        backends := x
        leases := Function.update s.leases w (.borrowing s.backends.callers.length) }
  | borrowed {w c : Nat} {h : Handle} {x : Router.State} : s.leases w = .borrowing c →
      s.backends.stage c = some (.held h) →
      Router.step cfg.router s.router (.handlerCall w .setBorrow h) = some x →
      Step cfg s (.borrowReturn w) { s with
        router := x, leases := Function.update s.leases w (.holding c) }
  | borrowFailed {w c : Nat} {x : Router.State} : s.leases w = .borrowing c →
      s.backends.stage c = some .failed →
      Router.step cfg.router s.router
        (.handlerCall w .setBorrow { fd := -1, poolIndex := 0 }) = some x →
      Step cfg s (.borrowReturn w) { s with
        router := x, leases := Function.update s.leases w .none }
  | release {w c : Nat} {h : Handle} {ok : Bool} {x : BackendSet.State} :
      s.leases w = .holding c → s.nextCall w = some (.setRelease h ok) →
      s.backends.stage c = some (.held h) →
      BackendSet.step cfg.backends s.backends (.release c ok) = some x →
      Step cfg s (.release w) { s with
        backends := x, leases := Function.update s.leases w (.releasing c) }
  | released {w c : Nat} {h h' : Handle} {ok : Bool} {x : Router.State} :
      s.leases w = .releasing c → s.nextCall w = some (.setRelease h ok) →
      s.backends.stage c = some (.returned h') →
      Router.step cfg.router s.router (.handlerCall w (.setRelease h ok) ()) = some x →
      Step cfg s (.releaseReturn w) { s with
        router := x, leases := Function.update s.leases w .none }
  | shutdown {x : Router.State} {y : BackendSet.State} : s.router.main = .stoppedPool →
      Router.step cfg.router s.router .main = some x →
      BackendSet.step cfg.backends s.backends .shutdown = some y →
      Step cfg s .shutdown { s with router := x, backends := y }
  | shutdownReturn {x : Router.State} : s.router.main = .shuttingBackends →
      s.backends.shutdown = .returned →
      Router.step cfg.router s.router .main = some x →
      Step cfg s .shutdownReturn { s with router := x }

variable {cfg : Config} {s s' : State}

theorem borrow_cases {w : Nat} (h : s.borrow cfg w = some s') : Step cfg s (.borrow w) s' := by
  simp only [State.borrow] at h
  split at h
  next hlease hcall =>
    obtain ⟨x, hx, rfl⟩ := Option.map_eq_some_iff.mp h
    exact .borrow hlease hcall hx
  next => cases h

theorem borrowReturn_cases {w : Nat} (h : s.borrowReturn cfg w = some s') :
    Step cfg s (.borrowReturn w) s' := by
  simp only [State.borrowReturn] at h
  split at h
  next c hlease =>
    split at h
    next hd hstage =>
      obtain ⟨x, hx, rfl⟩ := Option.map_eq_some_iff.mp h
      exact .borrowed hlease hstage hx
    next hstage =>
      obtain ⟨x, hx, rfl⟩ := Option.map_eq_some_iff.mp h
      exact .borrowFailed hlease hstage hx
    next => cases h
  next => cases h

theorem release_cases {w : Nat} (h : s.release cfg w = some s') : Step cfg s (.release w) s' := by
  simp only [State.release] at h
  split at h
  next c hd ok hlease hcall =>
    split at h
    next hd' hstage =>
      split at h
      next heq =>
        subst heq
        obtain ⟨x, hx, rfl⟩ := Option.map_eq_some_iff.mp h
        exact .release hlease hcall hstage hx
      next => cases h
    next => cases h
  next => cases h

theorem releaseReturn_cases {w : Nat} (h : s.releaseReturn cfg w = some s') :
    Step cfg s (.releaseReturn w) s' := by
  simp only [State.releaseReturn] at h
  split at h
  next c hd ok hlease hcall =>
    split at h
    next hstage =>
      obtain ⟨x, hx, rfl⟩ := Option.map_eq_some_iff.mp h
      exact .released hlease hcall hstage hx
    next => cases h
  next => cases h

/-- The inversion of a step. -/
theorem step_cases {e : Event} (h : step cfg s e = some s') : Step cfg s e s' := by
  cases e with
  | clock ms =>
      cases h
      exact .clock ms
  | router e =>
      simp only [step] at h
      split at h
      next halone =>
        obtain ⟨x, hx, rfl⟩ := Option.map_eq_some_iff.mp h
        exact .router halone hx
      next => cases h
  | backends e =>
      simp only [step] at h
      split at h
      next hinner =>
        obtain ⟨x, hx, rfl⟩ := Option.map_eq_some_iff.mp h
        exact .backends hinner hx
      next => cases h
  | borrow w => exact borrow_cases h
  | borrowReturn w => exact borrowReturn_cases h
  | release w => exact release_cases h
  | releaseReturn w => exact releaseReturn_cases h
  | shutdown =>
      simp only [step, State.shutdown] at h
      split at h
      next hmain =>
        obtain ⟨x, hx, hrest⟩ := Option.bind_eq_some_iff.mp h
        obtain ⟨y, hy, rfl⟩ := Option.map_eq_some_iff.mp hrest
        exact .shutdown hmain hx hy
      next => cases h
  | shutdownReturn =>
      simp only [step, State.shutdownReturn] at h
      split at h
      next hmain hshutdown =>
        obtain ⟨x, hx, rfl⟩ := Option.map_eq_some_iff.mp h
        exact .shutdownReturn hmain hshutdown hx
      next => cases h

/-! ## The two machines inside -/

theorem routerView (cfg : Config) :
    Machine.Projection (machine cfg) (Router.machine cfg.router) State.router where
  init := rfl
  step := by
    intro s e s' h
    have hone : ∀ {e : Router.Event} {x : Router.State},
        Router.step cfg.router s.router e = some x →
        ∃ es, (Router.machine cfg.router).exec s.router es = some x := by
      intro e x hx
      exact ⟨[e], Machine.exec_single_iff.mpr hx⟩
    cases step_cases h with
    | clock ms => exact hone (e := .clock ms) rfl
    | router _ hx | borrowed _ _ hx | borrowFailed _ _ hx | released _ _ _ hx | shutdown _ hx
    | shutdownReturn _ _ hx => exact hone hx
    | backends | borrow | release => exact ⟨[], rfl⟩

theorem backendsView (cfg : Config) :
    Machine.Projection (machine cfg) (BackendSet.machine cfg.backends) State.backends where
  init := rfl
  step := by
    intro s e s' h
    have hone : ∀ {e : BackendSet.Event} {x : BackendSet.State},
        BackendSet.step cfg.backends s.backends e = some x →
        ∃ es, (BackendSet.machine cfg.backends).exec s.backends es = some x := by
      intro e x hx
      exact ⟨[e], Machine.exec_single_iff.mpr hx⟩
    cases step_cases h with
    | clock ms => exact hone (e := .clock ms) rfl
    | backends _ hx | borrow _ _ hx | release _ _ _ hx | shutdown _ _ hx => exact hone hx
    | router | borrowed | borrowFailed | released | shutdownReturn => exact ⟨[], rfl⟩

end InferenceRouter.Process
