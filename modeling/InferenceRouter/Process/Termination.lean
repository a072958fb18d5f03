import InferenceRouter.BackendSet.Effort
import InferenceRouter.Process.Spread
import InferenceRouter.Router.Termination

/-!
# The process comes to its end

`Router.Termination` shows that the shutdown ends when every call of the backend set
returns at once.  Here the calls are what they are: a worker in `borrow` waits for
`pick_mu_`, for `mu_` of a pool, for a connection until its timeout or for a dial, and main
in `backend_set.shutdown()` waits for one pool after the other.

The effort of the process weighs a step of the router with `Config.callCost`, so that the
return of a handler's call pays for the next call that the handler may make.  Between its
return and the next call, what is paid stands in the worker's lease (`Lease.effort`).

No thread waits for ever: where the router alone would take the step of a call of the set,
the process has a step that begins the call, a step inside the set, or the step that
returns from it (`exists_step`).
-/

namespace InferenceRouter.Router

open Interleaving Handler

variable {cfg : Config} {s s' : State} {e : Event}

/-- A handler's next call can return whatever it returns. -/
theorem exists_handlerCall {w : Nat} {t : ThreadPool.Task Job} {o : Op} {k : o.Ret → Code Unit}
    (hw : s.pool.workers[w]? = some (.running t)) (hrest : t.body.rest = .call o k) (r : o.Ret) :
    ∃ s', step cfg s (.handlerCall w o r) = some s' := by
  apply Option.isSome_iff_exists.mp
  simp [step, State.handlerCall, hw, Job.call, hrest, ThreadPool.step, ThreadPool.State.work]

theorem Main.shutdownBegun_of_beforeJoin {m : Main} (h : m.beforeJoin = true) :
    m.shutdownBegun = false := by
  cases m <;> simp_all [beforeJoin, shutdownBegun]

theorem Main.shutdownBegun_of_draining {m : Main} (h : m.draining = true) :
    m.shutdownBegun = false := by
  cases m <;> simp_all [draining, shutdownBegun]

/-- By itself the router does not get into `backend_set.shutdown()`, nor out of it. -/
theorem main_alone (h : step cfg s e = some s') (halone : s.alone e = true) :
    s'.main = s.main ∨ (s.main.shutdownBegun = false ∧ s'.main.shutdownBegun = false) ∨
      (s.main = .logFinal ∧ s'.main = .returned) := by
  have hcases : Step cfg s e s' := step_cases h
  cases hcases with
  | clock | wander | accept | incAccepted | submit | submitted | refused | closeRefused
  | countRefused | pool | handlerCall | handlerReturn => exact .inl rfl
  | leave _ hm hm' =>
      exact .inr (.inl ⟨Main.shutdownBegun_of_beforeJoin hm, Main.shutdownBegun_of_beforeJoin hm'⟩)
  | grace hm _ hm' =>
      exact .inr (.inl ⟨Main.shutdownBegun_of_draining hm, Main.shutdownBegun_of_draining hm'⟩)
  | join hm | readRemaining hm | drop hm | dropped hm | stopPool hm | poolStopped hm =>
      exact .inr (.inl ⟨by rw [hm]; rfl, rfl⟩)
  | finale hm =>
      cases hpc : s.main with
      | logFinal =>
          simp only [step, State.mainStep, hpc] at h
          cases h
          exact .inr (.inr ⟨rfl, rfl⟩)
      | returned => simp [step, State.mainStep, hpc] at h
      | stoppedPool | shuttingBackends => simp [State.alone, Main.atBackends, hpc] at halone
      | _ =>
          rw [hpc] at hm
          cases hm

end InferenceRouter.Router

namespace InferenceRouter.Process

open Interleaving Handler
open BackendSet (Stage)
open Router (Job)

variable {cfg : Config} {s s' : State} {e : Event}

/-! ## Main and the shutdown of the set -/

/-- Where main is and where `backend_set.shutdown()` is. -/
structure Phased (s : State) : Prop where
  idle_iff : s.backends.shutdown = .idle ↔ s.router.main.shutdownBegun = false
  returned : s.router.main = .logFinal ∨ s.router.main = .returned →
    s.backends.shutdown = .returned

theorem Phased.router (h : Phased s) {e : Router.Event} {x : Router.State}
    (halone : s.router.alone e = true) (hx : Router.step cfg.router s.router e = some x) :
    Phased { s with router := x } := by
  rcases Router.main_alone hx halone with hsame | ⟨hbefore, hafter⟩ | ⟨hbefore, hafter⟩
  · exact ⟨by rw [hsame]; exact h.idle_iff, by rw [hsame]; exact h.returned⟩
  · refine ⟨?_, ?_⟩
    · have hidle := h.idle_iff.mpr hbefore
      exact ⟨fun _ => hafter, fun _ => hidle⟩
    · rintro (hm | hm) <;> rw [hm] at hafter <;> cases hafter
  · have hreturned := h.returned (.inl hbefore)
    refine ⟨?_, fun _ => hreturned⟩
    rw [hafter, hreturned]
    simp [Router.Main.shutdownBegun]

theorem Phased.backends (h : Phased s) {e : BackendSet.Event} {x : BackendSet.State}
    (he : e ≠ .shutdown) (hx : BackendSet.Step cfg.backends s.backends e x) :
    Phased { s with backends := x } := by
  obtain ⟨hidle, hreturned⟩ := BackendSet.shutdown_step hx he
  exact ⟨hidle.trans h.idle_iff, fun hm => hreturned (h.returned hm)⟩

theorem phased_step (h : Step cfg s e s') (hs : Phased s) : Phased s' := by
  have hcall : ∀ {w : Nat} {o : Op} {r : o.Ret} {x : Router.State},
      Router.step cfg.router s.router (.handlerCall w o r) = some x →
      Phased { s with router := x } := by
    intro w o r x hx
    have hcases : Router.Step cfg.router s.router (.handlerCall w o r) x := Router.step_cases hx
    cases hcases with
    | wander hacceptor => cases hacceptor
    | handlerCall => exact ⟨hs.idle_iff, hs.returned⟩
  cases h with
  | clock => exact ⟨hs.idle_iff, hs.returned⟩
  | router halone hx => exact hs.router halone hx
  | backends hinner hx =>
      refine hs.backends ?_ (BackendSet.step_cases hx)
      rintro rfl
      cases hinner
  | borrow _ _ hx | release _ _ _ hx =>
      have hnext := hs.backends (by simp) (BackendSet.step_cases hx)
      exact ⟨hnext.idle_iff, hnext.returned⟩
  | borrowed _ _ hx | borrowFailed _ _ hx | released _ _ _ hx =>
      have hnext := hcall hx
      exact ⟨hnext.idle_iff, hnext.returned⟩
  | @shutdown x y hm hx hy =>
      simp only [Router.step, Router.State.mainStep, hm] at hx
      cases hx
      have hcases : BackendSet.Step cfg.backends s.backends .shutdown y :=
        BackendSet.step_cases hy
      cases hcases with
      | shutdown =>
          refine ⟨by simp [Router.Main.shutdownBegun], ?_⟩
          rintro (hpc | hpc) <;> cases hpc
  | shutdownReturn hm hreturned hx =>
      simp only [Router.step, Router.State.mainStep, hm] at hx
      cases hx
      exact ⟨by simp [hreturned, Router.Main.shutdownBegun], fun _ => hreturned⟩

theorem reachable_phased (h : (machine cfg).Reachable s) : Phased s := by
  refine h.invariant (P := Phased) ⟨?_, ?_⟩
    (fun _ _ _ hs hstep => phased_step (step_cases hstep) hs)
  · exact ⟨fun _ => rfl, fun _ => rfl⟩
  · rintro (hm | hm) <;> cases hm

/-! ## Steps and their prices -/

/-- What a step of the router can cause in the set: the next call of a handler, or main's
call of `shutdown`. -/
def Config.callCost (cfg : Config) : Nat := 2 * cfg.backends.count + 22

/-- The steps of kind `q` of the router's threads and all steps of its threads in the set. -/
def Event.countedBy (q : Router.Event → Bool) : Event → Bool
  | .clock _ => false
  | .router e => q e
  | .backends e => e.productive
  | .borrow _ | .borrowReturn _ | .release _ | .releaseReturn _ | .shutdown | .shutdownReturn =>
      true

/-- The steps of the threads.  The clock, the reapers, spurious wakeups and an interrupted
`accept4` are none. -/
def Event.productive : Event → Bool := Event.countedBy Router.Event.productive

/-- How many steps of the threads an event can cause, when `p` says it of the router's. -/
def Event.priceBy (cfg : Config) (p : Router.Event → Nat) : Event → Nat
  | .router e => cfg.callCost * p e
  | .backends e => e.price cfg.backends
  | _ => 0

/-- How many steps of the threads an event of the environment can cause. -/
def Event.price (cfg : Config) : Event → Nat := Event.priceBy cfg Router.Event.price

/-! ## The work that is left -/

/-- What a worker has in hand for its calls of the set. -/
def Lease.effort (cfg : Config) : Lease → Nat
  | .none => cfg.backends.count + 20
  | .holding _ => 1
  | .borrowing _ | .releasing _ => 0

/-- The work of the process, when `f` is that of the router. -/
noncomputable def State.effortBy (cfg : Config) (f : Router.State → Nat) (s : State) : Nat :=
  cfg.callCost * f s.router +
    ∑ w ∈ Finset.range cfg.workerCount, (s.leases w).effort cfg +
    s.backends.effort cfg.backends

/-- A step of kind `q` from the router's state `s` to `x` lowers `f`, up to the price `p` of
its event.  The steps that the process shares with the set are of that kind and have no
price. -/
structure Measures (cfg : Config) (s x : Router.State) (q : Router.Event → Bool)
    (f : Router.State → Nat) (p : Router.Event → Nat) : Prop where
  step : ∀ {e}, Router.step cfg.router s e = some x → (q e).toNat + f x ≤ f s + p e
  call : ∀ w o r, q (.handlerCall w o r) = true ∧ p (.handlerCall w o r) = 0
  main : s.main.atBackends = true → q .main = true ∧ p .main = 0
  clock : ∀ ms, p (.clock ms) = 0

variable {q : Router.Event → Bool} {f : Router.State → Nat} {p : Router.Event → Nat}

theorem sum_lease_update {w : Nat} (hw : w < cfg.workerCount) (l : Lease) :
    ∑ v ∈ Finset.range cfg.workerCount, (Function.update s.leases w l v).effort cfg +
        (s.leases w).effort cfg =
      ∑ v ∈ Finset.range cfg.workerCount, (s.leases v).effort cfg + l.effort cfg := by
  have hsum := sum_range_exchange (f := fun v => (s.leases v).effort cfg)
    (g := fun v => (Function.update s.leases w l v).effort cfg) hw
    (fun v hv => by simp only [Function.update_of_ne hv])
  simpa only [Function.update_self] using hsum

theorem worker_lt (h : (machine cfg).Reachable s) {w : Nat} {y : ThreadPool.Worker Job}
    (hy : s.router.pool.workers[w]? = some y) : w < cfg.workerCount := by
  have hrouter := (routerView cfg).reachable h
  have hlen := ThreadPool.reachable_workers ((Router.poolView cfg.router).reachable hrouter)
  exact (lt_of_getElem? hy).trans_eq hlen

/-- A step of the router, weighted. -/
theorem Measures.weighted {r x : Router.State} (hf : Measures cfg r x q f p) {e : Router.Event}
    (hx : Router.step cfg.router r e = some x) (he : q e = true ∧ p e = 0) :
    cfg.callCost + cfg.callCost * f x ≤ cfg.callCost * f r := by
  have hle := hf.step hx
  rw [he.1, he.2, Bool.toNat_true, Nat.add_zero] at hle
  calc cfg.callCost + cfg.callCost * f x = cfg.callCost * (1 + f x) := by
        rw [Nat.mul_add, Nat.mul_one]
    _ ≤ cfg.callCost * f r := Nat.mul_le_mul_left _ hle

/-- A handler's call of the set returns. -/
theorem effort_resume (h : (machine cfg).Reachable s) {w : Nat} {o : Op} {r : o.Ret}
    {x : Router.State} {l : Lease} (hf : Measures cfg s.router x q f p)
    (hx : Router.step cfg.router s.router (.handlerCall w o r) = some x)
    (hl : l.effort cfg ≤ cfg.backends.count + 20) :
    1 + State.effortBy cfg f { s with router := x, leases := Function.update s.leases w l } ≤
      s.effortBy cfg f := by
  have hweight := hf.weighted hx (hf.call w o r)
  have hw : w < cfg.workerCount := by
    have hcases : Router.Step cfg.router s.router (.handlerCall w o r) x := Router.step_cases hx
    cases hcases with
    | wander hacceptor => cases hacceptor
    | handlerCall _ hw => exact worker_lt h hw
  have hsum := sum_lease_update (s := s) hw l
  have hcost : cfg.callCost = 2 * cfg.backends.count + 22 := rfl
  simp only [State.effortBy]
  omega

/-- A handler begins a call of the set. -/
theorem effort_enter (h : (machine cfg).Reachable s) {w : Nat} {o : Op}
    {e : BackendSet.Event} {x : BackendSet.State} {l : Lease} (hcall : s.nextCall w = some o)
    (hx : BackendSet.step cfg.backends s.backends e = some x)
    (hl : l.effort cfg + e.price cfg.backends + 1 ≤ (s.leases w).effort cfg) :
    1 + State.effortBy cfg f { s with backends := x, leases := Function.update s.leases w l } ≤
      s.effortBy cfg f := by
  have hset := BackendSet.effort_step ((backendsView cfg).reachable h) (BackendSet.step_cases hx)
  obtain ⟨t, k, ht, -⟩ := nextCall_cases hcall
  have hsum := sum_lease_update (s := s) (worker_lt h ht) l
  simp only [State.effortBy]
  omega

/-- A step of a thread lowers the effort, up to the price of its event. -/
theorem effort_step (h : (machine cfg).Reachable s) (hstep : Step cfg s e s')
    (hf : Measures cfg s.router s'.router q f p) :
    (e.countedBy q).toNat + s'.effortBy cfg f ≤ s.effortBy cfg f + e.priceBy cfg p := by
  have hbackends := (backendsView cfg).reachable h
  cases hstep with
  | clock ms =>
      have hclock := hf.step (e := .clock ms) rfl
      rw [hf.clock, Nat.add_zero] at hclock
      have hweight := Nat.mul_le_mul_left cfg.callCost ((Nat.le_add_left _ _).trans hclock)
      show 0 + _ ≤ _ + 0
      rw [Nat.zero_add, Nat.add_zero]
      exact Nat.add_le_add_right (Nat.add_le_add_right hweight _) _
  | @router e x _ hx =>
      have hf : Measures cfg s.router x q f p := hf
      have hweight := Nat.mul_le_mul_left cfg.callCost (hf.step hx)
      rw [Nat.mul_add, Nat.mul_add] at hweight
      have hpos : (q e).toNat ≤ cfg.callCost * (q e).toNat :=
        Nat.le_mul_of_pos_left _ (by rw [Config.callCost]; omega)
      simp only [Event.countedBy, Event.priceBy, State.effortBy]
      omega
  | backends _ hx =>
      have hset := BackendSet.effort_step hbackends (BackendSet.step_cases hx)
      simp only [Event.countedBy, Event.priceBy, State.effortBy]
      omega
  | borrow hlease hcall hx =>
      refine effort_enter h hcall hx ?_
      rw [hlease]
      exact (Nat.zero_add _ ▸ le_rfl)
  | release hlease hcall _ hx =>
      refine effort_enter h hcall hx ?_
      rw [hlease]
      exact le_rfl
  | borrowed _ _ hx =>
      exact effort_resume h hf hx (by simp only [Lease.effort]; omega)
  | borrowFailed _ _ hx => exact effort_resume h hf hx le_rfl
  | released _ _ _ hx => exact effort_resume h hf hx le_rfl
  | @shutdown x y hm hx hy =>
      have hf : Measures cfg s.router x q f p := hf
      have hweight := hf.weighted hx (hf.main (by rw [hm]; rfl))
      have hset : 0 + y.effort cfg.backends ≤
          s.backends.effort cfg.backends + (2 * cfg.backends.count + 1) :=
        BackendSet.effort_step hbackends (BackendSet.step_cases hy)
      have hcost : cfg.callCost = 2 * cfg.backends.count + 22 := rfl
      simp only [Event.countedBy, Event.priceBy, State.effortBy, Bool.toNat_true]
      omega
  | @shutdownReturn x hm _ hx =>
      have hf : Measures cfg s.router x q f p := hf
      have hweight := hf.weighted hx (hf.main (by rw [hm]; rfl))
      have hcost : cfg.callCost = 2 * cfg.backends.count + 22 := rfl
      simp only [Event.countedBy, Event.priceBy, State.effortBy, Bool.toNat_true]
      omega

/-! ## Some thread can move -/

/-- The state after a wait. -/
def State.wait (s : State) (ms : Nat) : State :=
  { s with
    router := { s.router with now := s.router.now + ms }
    backends := { s.backends with now := s.backends.now + ms } }

/-- Some thread of the process has a step to take after at most a wait, which is no new
client and no spurious wakeup. -/
def State.CanMove (cfg : Config) (s : State) : Prop :=
  ∃ (ms : Nat) (e : Event), e.productive = true ∧ e.price cfg = 0 ∧
    (step cfg (s.wait ms) e).isSome

theorem State.CanMove.now (he : e.productive = true) (hprice : e.price cfg = 0)
    (h : (step cfg (s.wait 0) e).isSome) : s.CanMove cfg :=
  ⟨0, e, he, hprice, h⟩

/-- The steps of kind `q` of the router's threads and those of the handlers in the set. -/
def Event.by (q : Router.Event → Bool) : Event → Bool
  | .router e => q e
  | .backends e => e.productive
  | .borrow _ | .borrowReturn _ | .release _ | .releaseReturn _ => true
  | .clock _ | .shutdown | .shutdownReturn => false

theorem Event.countedBy_of_by (h : e.by q = true) : e.countedBy q = true := by
  cases e with
  | router | backends => exact h
  | borrow | borrowReturn | release | releaseReturn => rfl
  | clock | shutdown | shutdownReturn => cases h

theorem Event.by_mono {q' : Router.Event → Bool} (hq : ∀ e, q e = true → q' e = true)
    (h : e.by q = true) : e.by q' = true := by
  cases e with
  | router e => exact hq e h
  | backends => exact h
  | borrow | borrowReturn | release | releaseReturn => rfl
  | clock | shutdown | shutdownReturn => cases h

/-- They have no price, if they have none in the router. -/
theorem Event.priceBy_of_by (hp : ∀ e, q e = true → p e = 0) (h : e.by q = true) :
    e.priceBy cfg p = 0 := by
  cases e with
  | router e => rw [priceBy, hp e h, Nat.mul_zero]
  | backends e => exact BackendSet.Event.price_of_productive h
  | borrow | borrowReturn | release | releaseReturn => rfl
  | clock | shutdown | shutdownReturn => cases h

/-- Some thread has a step of such a kind to take, after at most a wait. -/
def State.CanTake (cfg : Config) (q : Router.Event → Bool) (s : State) : Prop :=
  ∃ (ms : Nat) (e : Event), e.by q = true ∧ (step cfg (s.wait ms) e).isSome

theorem State.CanTake.canMove (h : s.CanTake cfg Router.Event.serves) : s.CanMove cfg := by
  obtain ⟨ms, e, he, hsome⟩ := h
  have hcounted := e.countedBy_of_by (e.by_mono (fun _ => Router.Event.productive_of_serves) he)
  exact ⟨ms, e, hcounted, Event.priceBy_of_by (fun _ => Router.Event.price_of_serves) he, hsome⟩

/-- What can move in the set can move in the process. -/
theorem canTake_of_backends (h : s.backends.CanMove cfg.backends) : s.CanTake cfg q := by
  obtain ⟨ms, e, he, hsome⟩ := h
  obtain ⟨x, hx⟩ := Option.isSome_iff_exists.mp hsome
  have hx : BackendSet.step cfg.backends (s.wait ms).backends e = some x := hx
  refine ⟨ms, .backends e, he, ?_⟩
  simp [step, BackendSet.Event.inner_of_productive he, hx]

/-- A step that the router takes by itself is one of the process. -/
theorem canMove_of_alone {ms : Nat} {e : Router.Event} {x : Router.State}
    (he : e.productive = true) (hprice : e.price = 0) (halone : s.router.alone e = true)
    (hx : Router.step cfg.router { s.router with now := s.router.now + ms } e = some x) :
    s.CanMove cfg := by
  have halone : (s.wait ms).router.alone e = true := by
    cases e <;> exact halone
  have hx : Router.step cfg.router (s.wait ms).router e = some x := hx
  refine ⟨ms, .router e, he, ?_, ?_⟩
  · rw [Event.price, Event.priceBy, hprice, Nat.mul_zero]
  · simp [step, halone, hx]

/-- A caller of the set that has its handle can release it. -/
theorem exists_release (h : (machine cfg).Reachable s) {c : Nat} {hd : Handle} (ok : Bool)
    (hheld : s.backends.stage c = some (.held hd)) :
    ∃ x, BackendSet.step cfg.backends (s.wait 0).backends (.release c ok) = some x := by
  have hbackends := (backendsView cfg).reachable h
  have ha := BackendSet.reachable_accounted hbackends
  obtain ⟨a, hc, hstage⟩ := Option.map_eq_some_iff.mp hheld
  have hplaced := ha.placed a (List.mem_of_getElem? hc)
  cases a with
  | held hd' k =>
      cases hstage
      obtain ⟨hfd, hindex⟩ : 0 ≤ hd.fd ∧ hd.poolIndex < cfg.backends.count := hplaced
      have hlen : hd.poolIndex < s.backends.pools.length := by
        rwa [BackendSet.length_pools hbackends]
      apply Option.isSome_iff_exists.mp
      simp [State.wait, BackendSet.step, BackendSet.State.release, hc, Int.not_lt.mpr hfd,
        Nat.not_le.mpr hindex, List.getElem?_eq_getElem hlen]
  | _ => cases hstage

/-- A handler whose next call is one of the set can move, or its call can. -/
theorem canTake_of_call (h : (machine cfg).Reachable s) {w : Nat} {t : ThreadPool.Task Job}
    {o : Op} {k : o.Ret → Code Unit} (hw : s.router.pool.workers[w]? = some (.running t))
    (hrest : t.body.rest = .call o k) (ho : Router.isBackendSetCall o = true) :
    s.CanTake cfg q := by
  have hbackends := (backendsView cfg).reachable h
  have hnext : ∀ ms, (s.wait ms).nextCall w = some o := by
    intro ms
    show s.nextCall w = some o
    simp [State.nextCall, hw, hrest, Prog.nextCall]
  have hreturn : ∀ r : o.Ret,
      ∃ x, Router.step cfg.router (s.wait 0).router (.handlerCall w o r) = some x :=
    fun r => Router.exists_handlerCall (s := (s.wait 0).router) hw hrest r
  have hsuits := (reachable_leased h).suits w
  rw [hw] at hsuits
  generalize hlease : s.leases w = l at hsuits
  have hlease' : ∀ ms, (s.wait ms).leases w = l := fun _ => hlease
  have hstage' : ∀ c, (s.wait 0).backends.stage c = s.backends.stage c := fun _ => rfl
  cases hsuits with
  | idle hidle => exact absurd rfl (hidle t)
  | free hfollows =>
      rw [hrest, Prog.follows_call] at hfollows
      cases o with
      | setBorrow =>
          refine ⟨0, .borrow w, rfl, ?_⟩
          simp [step, State.borrow, hlease', hnext, State.enter, BackendSet.step]
      | setRelease hd ok => cases hfollows.1
      | _ => cases ho
  | @borrowing c _ p hcall _ _ hp hleads =>
      rw [hrest] at hcall
      cases hcall
      cases p with
      | borrowing =>
          exact canTake_of_backends (BackendSet.canMove_of_caller hbackends hp (.inl rfl))
      | held hd =>
          obtain ⟨x, hx⟩ := hreturn hd
          refine ⟨0, .borrowReturn w, rfl, ?_⟩
          simp [step, State.borrowReturn, hlease', hstage', hp, State.resume, hx]
      | failed =>
          obtain ⟨x, hx⟩ := hreturn { fd := -1, poolIndex := 0 }
          refine ⟨0, .borrowReturn w, rfl, ?_⟩
          simp [step, State.borrowReturn, hlease', hstage', hp, State.resume, hx]
      | releasing | returned => cases hleads
  | @holding c _ hd hfollows _ hp =>
      rw [hrest, Prog.follows_call] at hfollows
      cases o with
      | setBorrow => cases hfollows.1
      | setRelease hd' ok =>
          cases hfollows.1
          obtain ⟨x, hx⟩ := exists_release h ok hp
          refine ⟨0, .release w, rfl, ?_⟩
          simp [step, State.release, hlease', hnext, hstage', hp, State.enter, hx]
      | _ => cases ho
  | @releasing c _ hd ok p hcall _ _ hp hleads =>
      rw [hrest] at hcall
      cases hcall
      cases p with
      | releasing hd' =>
          exact canTake_of_backends (BackendSet.canMove_of_caller hbackends hp (.inr ⟨hd', rfl⟩))
      | returned hd' =>
          obtain ⟨x, hx⟩ := hreturn ()
          refine ⟨0, .releaseReturn w, rfl, ?_⟩
          simp [step, State.releaseReturn, hlease', hnext, hstage', hp, State.resume, hx]
      | borrowing | held | failed => cases hleads

/-- Main in front of `backend_set.shutdown()`, or in it, can move, or the set can. -/
theorem canMove_of_atBackends (h : (machine cfg).Reachable s)
    (hm : s.router.main.atBackends = true) : s.CanMove cfg := by
  have hphased := reachable_phased h
  cases hpc : s.router.main with
  | stoppedPool =>
      have hidle : s.backends.shutdown = .idle := hphased.idle_iff.mpr (by rw [hpc]; rfl)
      refine .now (e := .shutdown) rfl rfl ?_
      simp [step, State.shutdown, State.wait, hpc, Router.step, Router.State.mainStep,
        BackendSet.step, hidle]
  | shuttingBackends =>
      have hbegun : s.backends.shutdown ≠ .idle := by
        intro hidle
        have hfalse := hphased.idle_iff.mp hidle
        rw [hpc] at hfalse
        cases hfalse
      by_cases hreturned : s.backends.shutdown = .returned
      · refine .now (e := .shutdownReturn) rfl rfl ?_
        simp [step, State.shutdownReturn, State.wait, hpc, hreturned, Router.step,
          Router.State.mainStep]
      · exact (canTake_of_backends
          (BackendSet.canMove_of_shutdown ((backendsView cfg).reachable h) hbegun
            hreturned)).canMove
  | _ =>
      rw [hpc] at hm
      cases hm

/-- Until main returns, some thread can move. -/
theorem exists_step (h : (machine cfg).Reachable s) (hpc : s.router.main ≠ .returned) :
    s.CanMove cfg := by
  obtain ⟨ms, e, x, he, hprice, hexec⟩ :=
    Router.exists_step ((routerView cfg).reachable h) hpc
  obtain ⟨u, hu, hrest⟩ := Machine.exec_cons_iff.mp hexec
  cases hu
  have hx : Router.step cfg.router { s.router with now := s.router.now + ms } e = some x :=
    Machine.exec_single_iff.mp hrest
  by_cases halone : s.router.alone e = true
  · exact canMove_of_alone he hprice halone hx
  · -- the step is the call of the set that a handler or main is about to make
    cases e with
    | clock => cases he
    | handlerCall w o r =>
        have ho : Router.isBackendSetCall o = true := by
          simpa [Router.State.alone] using halone
        have hcases : Router.Step cfg.router { s.router with now := s.router.now + ms }
            (.handlerCall w o r) x := Router.step_cases hx
        cases hcases with
        | wander hacceptor => cases hacceptor
        | handlerCall _ hw hcall => exact (canTake_of_call h hw hcall ho).canMove
    | main =>
        refine canMove_of_atBackends h ?_
        simpa [Router.State.alone] using halone
    | _ => exact absurd rfl halone

/-! ## The end of the process -/

/-- The shutdown of the process is under way. -/
def Stopping (cfg : Config) (s : State) : Prop :=
  (machine cfg).Reachable s ∧ s.router.stopAccepting = true

theorem Stopping.step (h : Stopping cfg s) (hstep : (machine cfg).step s e = some s') :
    Stopping cfg s' := by
  refine ⟨h.1.step hstep, ?_⟩
  have hkeep : ∀ {e : Router.Event} {x : Router.State},
      Router.step cfg.router s.router e = some x → x.stopAccepting = true :=
    fun hx => Router.stopAccepting_step h.2 hx
  have hcases : Step cfg s e s' := step_cases hstep
  cases hcases with
  | router _ hx | borrowed _ _ hx | borrowFailed _ _ hx | released _ _ _ hx | shutdown _ hx
  | shutdownReturn _ _ hx => exact hkeep hx
  | clock | backends | borrow | release => exact h.2

/-- The work that is left of the shutdown. -/
noncomputable def State.effort (cfg : Config) (s : State) : Nat :=
  s.effortBy cfg (Router.State.effort cfg.router)

theorem Stopping.measures (h : Stopping cfg s) (x : Router.State) :
    Measures cfg s.router x Router.Event.productive (Router.State.effort cfg.router)
      Router.Event.price where
  step := Router.effort_step ((routerView cfg).reachable h.1) (fun _ _ => h.2)
  call _ _ _ := ⟨rfl, rfl⟩
  main _ := ⟨rfl, rfl⟩
  clock _ := rfl

theorem Stopping.effort_step (h : Stopping cfg s) (hstep : (machine cfg).step s e = some s') :
    e.productive.toNat + s'.effort cfg ≤ s.effort cfg + e.price cfg :=
  Process.effort_step h.1 (step_cases hstep) (h.measures s'.router)

/-- What a run of the shutdown costs. -/
theorem Stopping.countP_le (h : Stopping cfg s) {es : List Event}
    (hexec : (machine cfg).exec s es = some s') :
    es.countP Event.productive + s'.effort cfg ≤ s.effort cfg + total (Event.price cfg) es :=
  Machine.countP_le_rank (fun _ _ _ ht hstep => ht.step hstep)
    (fun _ _ _ ht hstep => ht.effort_step hstep) h hexec

/-- Until main returns, a thread can take a step that has no price. -/
theorem Stopping.exists_exec (h : Stopping cfg s) (hne : s.router.main ≠ .returned) :
    ∃ ms e s', e.productive = true ∧ e.price cfg = 0 ∧
      (machine cfg).exec s [.clock ms, e] = some s' := by
  obtain ⟨ms, e, he, hprice, hsome⟩ := exists_step h.1 hne
  obtain ⟨s', hs'⟩ := Option.isSome_iff_exists.mp hsome
  refine ⟨ms, e, s', he, hprice, ?_⟩
  exact Machine.exec_cons_iff.mpr ⟨s.wait ms, rfl, Machine.exec_single_iff.mpr hs'⟩

/-- Short of its end the shutdown can come nearer to it. -/
theorem Stopping.exists_lower (h : Stopping cfg s) (hne : s.router.main ≠ .returned) :
    ∃ s', (machine cfg).Reaches (fun e => e.price cfg = 0) s s' ∧
      s'.effort cfg < s.effort cfg := by
  obtain ⟨ms, e, s', hproductive, hprice, hexec⟩ := h.exists_exec hne
  have hle := h.countP_le hexec
  refine ⟨s', ⟨[.clock ms, e], ?_, hexec⟩, ?_⟩
  · intro e' he'
    rcases List.mem_cons.mp he' with rfl | he'
    · rfl
    · rw [List.mem_singleton.mp he']
      exact hprice
  · have hclock : (Event.clock ms).price cfg = 0 := rfl
    simp only [List.countP_cons, List.countP_nil, hproductive, if_true, total_cons, total_nil,
      hprice, hclock] at hle
    omega

/-- An event that costs nothing brings no client. -/
theorem clients_step (hprice : e.price cfg = 0) (h : (machine cfg).step s e = some s') :
    s'.router.clients = s.router.clients := by
  have hfree : ∀ {e : Router.Event} {x : Router.State}, e.price = 0 →
      Router.step cfg.router s.router e = some x → x.clients = s.router.clients :=
    fun he hx => Router.clients_step he hx
  have hcases : Step cfg s e s' := step_cases h
  cases hcases with
  | router _ hx =>
      refine hfree ?_ hx
      have hpos : cfg.callCost ≠ 0 := by
        rw [Config.callCost]
        omega
      exact (Nat.mul_eq_zero.mp hprice).resolve_left hpos
  | borrowed _ _ hx | borrowFailed _ _ hx | released _ _ _ hx | shutdown _ hx
  | shutdownReturn _ _ hx => exact hfree rfl hx
  | clock | backends | borrow | release => rfl

/-- From every reachable state of the process in which the acceptor's `stop_` is set,
whatever the schedule: the threads of the router, of the backend set and of its pools take
only boundedly many steps, up to the price of new clients and of spurious wakeups; until
main returns, one of them can take a step that has no price, after at most a wait; and so
main can return, without another client, with every client settled. -/
theorem main_returns (cfg : Config) {s : State} (h : (machine cfg).Reachable s)
    (hstop : s.router.stopAccepting = true) :
    (∃ bound, ∀ es s', (machine cfg).exec s es = some s' →
        es.countP Event.productive ≤ bound + total (Event.price cfg) es) ∧
      (s.router.main ≠ .returned → ∃ ms e s', e.productive = true ∧ e.price cfg = 0 ∧
        (machine cfg).exec s [.clock ms, e] = some s') ∧
      ∃ s', (machine cfg).Reaches (fun e => e.price cfg = 0) s s' ∧
        s'.router.main = .returned ∧ s'.router.clients = s.router.clients ∧
        s'.router.metrics.completed + s'.router.metrics.errored = s.router.clients.length := by
  have hs : Stopping cfg s := ⟨h, hstop⟩
  refine ⟨⟨s.effort cfg, ?_⟩, hs.exists_exec, ?_⟩
  · intro es s' hexec
    have hle := hs.countP_le hexec
    omega
  · have hend : ∃ t, (machine cfg).Reaches (fun e => e.price cfg = 0) s t ∧
        t.router.main = .returned :=
      Machine.exists_reaches_of_rank (P := Stopping cfg) (State.effort cfg)
        (fun _ _ _ ht _ hstep => ht.step hstep) (fun _ ht hne => ht.exists_lower hne) hs
    obtain ⟨t, ht, hreturned⟩ := hend
    have hclients : t.router.clients = s.router.clients :=
      ht.invariant (P := fun t => t.router.clients = s.router.clients)
        (fun _ _ _ hu hprice hstep => (clients_step hprice hstep).trans hu) rfl
    have hreach : (machine cfg).Reachable t := by
      obtain ⟨es, -, hexec⟩ := ht
      exact h.exec hexec
    have hsettled := Router.settled_of_poolStopped ((routerView cfg).reachable hreach)
      (by rw [hreturned]; rfl)
    exact ⟨t, ht, hreturned, hclients, by rw [hsettled.settled, hsettled.accepted, hclients]⟩

/-- The worker dials when main sets `stop_`. -/
def stopWhileDialing : List Event :=
  oneRequest ++ [.backends (.poolBorrow 0), .backends (.pool 0 (.borrowLock 0)), .router .main,
    .router .main]

theorem main_returns_stopWhileDialing : ∃ s,
    (machine (.ofArgs spareBackendArgs)).run stopWhileDialing = some s ∧
      s.backends.entry 0 0 = some .dialing ∧
      ∃ s', (machine (.ofArgs spareBackendArgs)).Reaches
          (fun e => e.price (.ofArgs spareBackendArgs) = 0) s s' ∧
        s'.router.main = .returned ∧
        s'.router.metrics.completed + s'.router.metrics.errored = 1 := by
  refine ⟨_, rfl, rfl, ?_⟩
  have h := @main_returns (.ofArgs spareBackendArgs) _ ⟨stopWhileDialing, rfl⟩ rfl
  obtain ⟨-, -, s', hreach, hmain, -, hsettled⟩ := h
  exact ⟨s', hreach, hmain, hsettled⟩

end InferenceRouter.Process
