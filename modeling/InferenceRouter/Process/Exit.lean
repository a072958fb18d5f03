import InferenceRouter.Process.Books
import InferenceRouter.Process.Termination

/-!
# What is left when main returns

`pool.stop()` has joined the workers before main calls `backend_set.shutdown()`.  So no
handler is inside the set any more: the loads are zero, no connection is in use, and the
`release` that loads `shutting_down_` too early, which a pool by itself cannot exclude, does
not occur in the process.  What remains is the reaper of each pool, which nobody has joined
yet.  Every connection that was dialled is closed, once, or is in `idle_` because a reaper
has put it back, or is still in the hands of the reaper.  If the reaper is still in its
wait, all are closed (`exit_state`).
-/

namespace InferenceRouter.BackendPool

open Interleaving

variable {o : Options} {s s' : State} {e : Event}

/-- `shutdown` that has returned is not begun again. -/
theorem returned_step (h : Step o s e s') (hflag : s.shutdown ≠ .idle → s.shuttingDown = true)
    (hreturned : s.shutdown = .returned) : s'.shutdown = .returned := by
  cases h with
  | shutdown _ hfalse =>
      rw [hflag (by simp [hreturned])] at hfalse
      cases hfalse
  | shutdownReturn => rfl
  | shutdownUnlock hpc | shutdownNotify hpc =>
      rw [hreturned] at hpc
      cases hpc
  | clock | foreignOpen | foreignClose | borrow | borrowAbort | borrowIdle | borrowDial
  | borrowSleep | borrowTimeout | borrowSpurious | dialOk | dialFail | dialFailLock | incPoolCreate
  | incPoolBorrow | release | sample | releaseKeep | releaseDrop | releaseClose | shutdownAgain
  | shutdownClose | reaperExit | reaperWait | sweep | pushBack | closeVictim | victimsClosed
  | startPings | pingsDone | closeDead | deadClosed | pingOk | pingFail => exact hreturned

/-- Only a call of `shutdown` sets the flag. -/
theorem unflagged_step (h : Step o s e s') (he : e ≠ .shutdown) (hs : s.shuttingDown = false) :
    s'.shuttingDown = false := by
  cases h with
  | shutdown => exact absurd rfl he
  | clock | foreignOpen | foreignClose | borrow | borrowAbort | borrowIdle | borrowDial
  | borrowSleep | borrowTimeout | borrowSpurious | dialOk | dialFail | dialFailLock | incPoolCreate
  | incPoolBorrow | release | sample | releaseKeep | releaseDrop | releaseClose | shutdownAgain
  | shutdownClose | shutdownUnlock | shutdownNotify | shutdownReturn | reaperExit | reaperWait
  | sweep | pushBack | closeVictim | victimsClosed | startPings | pingsDone | closeDead
  | deadClosed | pingOk | pingFail => exact hs

/-- Once `shutdown` has emptied `idle_`, it stays empty as long as the reaper waits. -/
def Pool.Emptied (p : Pool) : Prop :=
  p.shuttingDown = true → p.shutdown ≠ .closing → (∃ d, p.reaper = .waiting d) → p.idle = []

/-- As long as every caller is through when the flag is set. -/
theorem emptied_step (h : Step o s e s')
    (hdone : s.shuttingDown = true → ∀ c ∈ s.callers, c.done = true)
    (hs : s.toPool.Emptied) : s'.toPool.Emptied := by
  intro hshut hpc hwait
  cases h with
  | borrowIdle _ _ _ hfalse | reaperWait _ hfalse | sweep _ hfalse =>
      have hshut : s.shuttingDown = true := hshut
      rw [hshut] at hfalse
      cases hfalse
  | releaseKeep hi => cases hdone hshut _ (List.mem_of_getElem? hi)
  | shutdown => exact absurd rfl hpc
  | shutdownClose hclosing => exact absurd hclosing hpc
  | shutdownUnlock _ hidle => exact hidle
  | shutdownNotify hnotifying => exact hs hshut (by simp [hnotifying]) hwait
  | shutdownReturn hnotifying => exact hs hshut (by simp [hnotifying]) hwait
  | reaperExit | pushBack | closeVictim | victimsClosed | startPings | pingsDone | closeDead
  | deadClosed | pingOk | pingFail =>
      obtain ⟨d, hd⟩ := hwait
      cases hd
  | clock | foreignOpen | foreignClose | borrow | borrowAbort | borrowDial | borrowSleep
  | borrowTimeout | borrowSpurious | dialOk | dialFail | dialFailLock | incPoolCreate
  | incPoolBorrow | release | sample | releaseDrop | releaseClose | shutdownAgain =>
      exact hs hshut hpc hwait

/-- When every caller is through, the connections are closed, idle or with the reaper. -/
theorem State.Ledger.card_eq (hl : s.Ledger) (hdone : ∀ c ∈ s.callers, c.done = true) :
    s.closed.length + s.idle.length + s.reaper.slots.length = s.dials := by
  have hconns := congrArg Multiset.card hl.1.conns
  have hfds : total Caller.fds s.callers = 0 :=
    total_eq_zero _ (fun c hc => Caller.fds_of_done (hdone c hc))
  simp only [State.owned, hfds, fdsOf, Multiset.card_add, Multiset.card_map, Multiset.coe_card,
    List.length_map, Multiset.card_zero, Multiset.card_range] at hconns
  omega

/-- Without an idle connection and none with the reaper, each one has been closed once. -/
theorem State.Ledger.closed_perm (hl : s.Ledger) (hdone : ∀ c ∈ s.callers, c.done = true)
    (hidle : s.idle = []) (hslots : s.reaper.slots = []) :
    s.closed.Perm (List.range s.dials) := by
  have hconns := hl.1.conns
  have hfds : total Caller.fds s.callers = 0 :=
    total_eq_zero _ (fun c hc => Caller.fds_of_done (hdone c hc))
  simp only [State.owned, hfds, hidle, hslots, fdsOf_nil, add_zero, Multiset.map_zero] at hconns
  exact Multiset.coe_eq_coe.mp hconns

end InferenceRouter.BackendPool

namespace InferenceRouter.BackendSet

open Interleaving

variable {cfg : Config} {s s' : State} {e : Event} {i : Nat} {p : BackendPool.Pool}

/-! ## Nobody is inside the set -/

/-- Every call has returned and every handle has been released. -/
def State.Over (s : State) : Prop := ∀ c ∈ s.callers, c.stage.over = true

theorem Accounted.inFlight_of_over (ha : Accounted cfg s) (ho : s.Over) (i : Nat) :
    s.inFlight i = 0 := by
  rw [ha.loads]
  exact total_eq_zero _ (fun c hc => load_none (Caller.backend_of_over (ho c hc)) i)

/-- Then every caller of every pool is through. -/
theorem Linked.done_of_over (hl : Linked s) (ho : s.Over) (hp : s.pools[i]? = some p) :
    ∀ c ∈ p.callers, c.done = true := by
  intro a ha
  obtain ⟨k, hk⟩ := List.mem_iff_getElem?.mp ha
  by_contra hnot
  have hlive : ¬ Finished a.phase := by
    rintro (hphase | hphase) <;>
      cases a <;> simp_all [BackendPool.Caller.phase, BackendPool.Caller.done]
  obtain ⟨c, caller, hc, hticket⟩ := hl.covered i k a (entry_eq_some.mpr ⟨p, hp, hk⟩) hlive
  have hnone := Caller.backend_of_over (ho caller (List.mem_of_getElem? hc))
  rw [Caller.backend_of_ticket hticket] at hnone
  cases hnone

/-! ## The pools that are shut down -/

/-- Before `shutdown` is called no pool has its flag set. -/
def State.Unflagged (s : State) : Prop :=
  s.shutdown = .idle → ∀ (i : Nat) (p : BackendPool.Pool), s.pools[i]? = some p →
    p.shuttingDown = false

theorem unflagged_step (h : Step cfg s e s') (hl : Linked s) (hs : s.Unflagged) :
    s'.Unflagged := by
  intro hidle i q hq
  have hbefore : s.shutdown = .idle := by
    by_cases he : e = .shutdown
    · subst he
      cases h
      cases hidle
    · exact (shutdown_step h he).1.mp hidle
  obtain ⟨p, hp, hstep⟩ := pool_source h hl hq
  cases hstep with
  | same => exact hs hbefore i _ hp
  | own hv _ hshutdown =>
      refine BackendPool.unflagged_step hv ?_ (hs hbefore i p hp)
      intro heq
      have hcalling := hshutdown heq
      rw [hbefore] at hcalling
      cases hcalling

theorem reachable_unflagged (h : (machine cfg).Reachable s) : s.Unflagged := by
  refine h.invariant_with (P := State.Unflagged) (fun _ => reachable_linked) ?_
    (fun _ _ _ hl hs hstep => unflagged_step (step_cases hstep) hl hs)
  intro _ i p hp
  have hempty : p = {} := List.eq_of_mem_replicate (List.mem_of_getElem? hp)
  rw [hempty]

/-- How many pools the loop of `shutdown` is through with. -/
def Shutdown.passed (cfg : Config) : Shutdown → Nat
  | .idle => 0
  | .calling i | .inside i => i
  | .returned => cfg.count

/-- They are shut down. -/
def State.Shut (cfg : Config) (s : State) : Prop :=
  ∀ (i : Nat) (p : BackendPool.Pool), i < s.shutdown.passed cfg → s.pools[i]? = some p →
    p.shutdown = .returned

/-- The loop gets past a pool when the pool's `shutdown` has returned. -/
theorem passed_step (h : (machine cfg).step s e = some s') {i : Nat}
    (hi : i < s'.shutdown.passed cfg) :
    i < s.shutdown.passed cfg ∨
      ∃ p, s.pools[i]? = some p ∧ p.shutdown = .returned ∧ s'.pools = s.pools := by
  have hcases : Step cfg s e s' := step_cases h
  cases hcases with
  | shutdown => exact absurd hi (Nat.not_lt_zero _)
  | shutdownCall hpc =>
      rw [hpc]
      exact .inl hi
  | @shutdownNext j hpc =>
      simp only [machine, step, State.shutdownStep, hpc] at h
      split at h
      next p hp =>
        split at h
        next hreturned =>
          rcases Nat.lt_succ_iff_lt_or_eq.mp hi with hlt | rfl
          · rw [hpc]
            exact .inl hlt
          · exact .inr ⟨p, hp, hreturned, rfl⟩
        next => cases h
      next => cases h
  | shutdownReturn hpc hle =>
      rw [hpc]
      exact .inl (Nat.lt_of_lt_of_le hi hle)
  | clock | foreignOpen | foreignClose | pool | borrowEmpty | borrow | pickLock | pickFirst
  | pickNext | bump | poolBorrow | poolHeld | poolRefused | count | compensate | releaseNothing
  | releaseInvalid | release | releaseReturn | decrement => exact .inl hi

theorem shut_step (hs : (machine cfg).Reachable s) (h : (machine cfg).step s e = some s')
    (hshut : s.Shut cfg) : s'.Shut cfg := by
  intro i q hi hq
  rcases passed_step h hi with hold | ⟨p, hp, hreturned, hpools⟩
  · obtain ⟨p, hp, hstep⟩ := pool_source (step_cases h) (reachable_linked hs) hq
    cases hstep with
    | same => exact hshut i _ hold hp
    | own hv =>
        exact BackendPool.returned_step hv
          (BackendPool.reachable_flagged (reachable_view hs i p hp)) (hshut i p hold hp)
  · rw [hpools, hp, Option.some.injEq] at hq
    subst hq
    exact hreturned

theorem reachable_shut (h : (machine cfg).Reachable s) : s.Shut cfg :=
  h.invariant_with (P := State.Shut cfg) (fun _ hs => hs)
    (fun _ _ hi => absurd hi (Nat.not_lt_zero _))
    (fun _ _ _ hs hshut hstep => shut_step hs hstep hshut)

end InferenceRouter.BackendSet

namespace InferenceRouter.Process

open Interleaving
open Router (Job)

variable {cfg : Config} {s s' : State} {e : Event}

/-- When no worker runs a handler, nobody is inside the set. -/
theorem over_of_quiescent (h : (machine cfg).Reachable s) (hq : s.router.Quiescent) :
    s.backends.Over := by
  have hl := reachable_leased h
  intro a ha
  obtain ⟨c, hc⟩ := List.mem_iff_getElem?.mp ha
  have hstage : s.backends.stage c = some a.stage := by
    rw [BackendSet.State.stage, hc, Option.map_some]
  by_contra hnot
  obtain ⟨w, hw⟩ := hl.covered c a.stage hstage (by simpa using hnot)
  obtain ⟨t, ht, -⟩ := (hl.suits w).present hw
  exact hq _ (List.mem_of_getElem? ht) t rfl

/-- So it is when the workers have been joined. -/
theorem over_of_poolStopped (h : (machine cfg).Reachable s)
    (hm : s.router.main.poolStopped = true) : s.backends.Over :=
  over_of_quiescent h (Router.quiescent_of_exited
    (Router.settled_of_poolStopped ((routerView cfg).reachable h) hm).exited)

/-- Then no connection is in use. -/
theorem inUse_of_over (h : (machine cfg).Reachable s) (hover : s.backends.Over) {i : Nat}
    {p : BackendPool.Pool} (hp : s.backends.pools[i]? = some p) : p.inUse = 0 := by
  have hbackends := (backendsView cfg).reachable h
  have hdone := (BackendSet.reachable_linked hbackends).done_of_over hover hp
  have hinUse : p.inUse = total BackendPool.Caller.leases p.callers :=
    BackendPool.reachable_inUse (BackendSet.reachable_view hbackends i p hp)
  rw [hinUse]
  refine total_eq_zero _ (fun c hc => ?_)
  have hc := hdone c hc
  cases c <;> simp_all [BackendPool.Caller.done, BackendPool.Caller.leases]

/-- A pool whose flag is set has no caller that is not through. -/
theorem done_of_flagged (h : (machine cfg).Reachable s) {i : Nat} {p : BackendPool.Pool}
    (hp : s.backends.pools[i]? = some p) (hshut : p.shuttingDown = true) :
    ∀ c ∈ p.callers, c.done = true := by
  have hbackends := (backendsView cfg).reachable h
  have hbegun : s.router.main.shutdownBegun = true := by
    by_contra hnot
    have hidle := (reachable_phased h).idle_iff.mpr (by simpa using hnot)
    rw [BackendSet.reachable_unflagged hbackends hidle i p hp] at hshut
    cases hshut
  exact (BackendSet.reachable_linked hbackends).done_of_over
    (over_of_poolStopped h (Router.Main.poolStopped_of_shutdownBegun hbegun)) hp

theorem reachable_emptied (h : (machine cfg).Reachable s) {i : Nat} {p : BackendPool.Pool}
    (hp : s.backends.pools[i]? = some p) : p.Emptied := by
  refine Machine.Reachable.invariant_with
    (P := fun t : State => ∀ (i : Nat) (p : BackendPool.Pool), t.backends.pools[i]? = some p →
      p.Emptied) (fun _ ht => ht) ?_ ?_ h i p hp
  · intro i p hp hshut
    have hempty : p = {} := List.eq_of_mem_replicate (List.mem_of_getElem? hp)
    rw [hempty] at hshut
    cases hshut
  · intro t e t' ht hold hstep i q hq
    rcases backends_step (step_cases hstep) with hsame | ⟨e', hx⟩
    · rw [hsame] at hq
      exact hold i q hq
    · have hlinked := BackendSet.reachable_linked ((backendsView cfg).reachable ht)
      obtain ⟨p, hp, hpool⟩ := BackendSet.pool_source (BackendSet.step_cases hx) hlinked hq
      cases hpool with
      | same => exact hold i _ hp
      | own hv =>
          exact BackendPool.emptied_step hv (fun hshut => done_of_flagged ht hp hshut)
            (hold i p hp)

/-- In every state of the process in which main has returned: every client is settled and
none is in flight; every load is zero; and every pool is shut down, with no connection in
use and no caller inside.  Each connection that it ever dialled was closed once, or is idle
or with the reaper.  If the reaper has not left its wait, all have been closed. -/
theorem exit_state (cfg : Config) {s : State} (h : (machine cfg).Reachable s)
    (hm : s.router.main = .returned) :
    s.router.metrics.completed + s.router.metrics.errored = s.router.clients.length ∧
      s.router.metrics.inFlight = 0 ∧ (∀ i, s.backends.inFlight i = 0) ∧
      ∀ (i : Nat) (p : BackendPool.Pool), s.backends.pools[i]? = some p →
        p.shutdown = .returned ∧ p.inUse = 0 ∧ (∀ c ∈ p.callers, c.done = true) ∧
        p.badCloses = 0 ∧
        p.closed.length + p.idle.length + p.reaper.slots.length = p.dials ∧
        ((∃ d, p.reaper = .waiting d) → p.closed.Perm (List.range p.dials)) := by
  have hrouter := (routerView cfg).reachable h
  have hbackends := (backendsView cfg).reachable h
  have hstopped : s.router.main.poolStopped = true := by rw [hm]; rfl
  have hsettled := Router.settled_of_poolStopped hrouter hstopped
  have hover := over_of_poolStopped h hstopped
  refine ⟨hsettled.settled.trans hsettled.accepted, ?_, ?_, ?_⟩
  · exact (Router.reachable_routed hrouter).inFlight_eq_zero
      (Router.quiescent_of_exited hsettled.exited)
  · exact (BackendSet.reachable_accounted hbackends).inFlight_of_over hover
  · intro i p hp
    have hview := BackendSet.reachable_view hbackends i p hp
    have hdone := (BackendSet.reachable_linked hbackends).done_of_over hover hp
    have hledger : (s.backends.view i p).Ledger := BackendPool.reachable_ledger hview
    have hreturned : p.shutdown = .returned := by
      refine BackendSet.reachable_shut hbackends i p ?_ hp
      rw [(reachable_phased h).returned (.inr hm)]
      show i < cfg.backends.count
      rw [← BackendSet.length_pools hbackends]
      exact lt_of_getElem? hp
    have hflag : p.shuttingDown = true :=
      BackendPool.reachable_flagged hview (by
        show p.shutdown ≠ .idle
        rw [hreturned]
        simp)
    refine ⟨hreturned, inUse_of_over h hover hp, hdone, hledger.2, hledger.card_eq hdone, ?_⟩
    rintro ⟨d, hwait⟩
    have hidle := reachable_emptied h hp hflag (by simp [hreturned]) ⟨d, hwait⟩
    have hslots : (s.backends.view i p).reaper.slots = [] := by
      show p.reaper.slots = []
      rw [hwait]
      rfl
    exact hledger.closed_perm hdone hidle hslots

/-- The request is answered, and the process is stopped. -/
def servedAndStopped : List Event :=
  oneAnswer ++ [.router (.handlerCall 0 .safeClose ()), .router (.handlerCall 0 .decInFlight ()),
    .router (.handlerReturn 0), .backends (.pool 0 .reaperLock), .router .main, .router .main,
    .router .main, .router .acceptor, .router (.accept4 (.error .eagain)), .router .acceptor,
    .router .acceptor, .router .main, .router .main, .router .main, .router .main, .router .main,
    .router (.pool .notifyNotEmpty), .router (.pool .notifyNotFull),
    .router (.pool (.workerLock 0 none)), .router (.pool .join), .router .main, .shutdown,
    .backends .shutdownStep, .backends (.pool 0 .shutdownStep), .backends (.pool 0 .shutdownStep),
    .backends (.pool 0 .shutdownStep), .backends (.pool 0 .shutdownStep), .backends .shutdownStep,
    .backends .shutdownStep, .backends (.pool 1 .shutdownStep), .backends (.pool 1 .shutdownStep),
    .backends (.pool 1 .shutdownStep), .backends .shutdownStep, .backends .shutdownStep,
    .shutdownReturn, .router .main]

/-- Main has returned, and the reaper of the first pool, which has dialled once, waits. -/
def State.leftWaiting (s : State) : Bool :=
  match s.router.main, s.backends.pools[0]? with
  | .returned, some p =>
      match p.reaper with
      | .waiting _ => p.dials == 1
      | _ => false
  | _, _ => false

theorem exit_state_servedAndStopped : ∃ s p,
    (machine (.ofArgs spareBackendArgs)).run servedAndStopped = some s ∧
      s.router.main = .returned ∧ s.backends.pools[0]? = some p ∧ p.dials = 1 ∧ p.inUse = 0 ∧
      p.closed.Perm (List.range 1) := by
  have hrun : ((machine (.ofArgs spareBackendArgs)).run servedAndStopped).any
      State.leftWaiting = true := by decide +kernel
  obtain ⟨s, hs, hleft⟩ := (Option.any_eq_true _ _).mp hrun
  unfold State.leftWaiting at hleft
  split at hleft
  next p hmain hp =>
    split at hleft
    next d hwait =>
      have hdials : p.dials = 1 := by simpa using hleft
      have h := @exit_state (.ofArgs spareBackendArgs) s ⟨servedAndStopped, hs⟩ hmain
      obtain ⟨-, -, -, hpools⟩ := h
      obtain ⟨-, hinUse, -, -, -, hclosed⟩ := hpools 0 p hp
      exact ⟨s, p, hs, hmain, hp, hdials, hinUse, hdials ▸ hclosed ⟨d, hwait⟩⟩
    next => cases hleft
  next => cases hleft

end InferenceRouter.Process
