import InferenceRouter.BackendPool.Callers
import InferenceRouter.BackendPool.Closing
import InferenceRouter.Interleaving.Effort

/-!
# The steps that a pool has left

`Pool.effort` bounds the steps that the threads inside a pool can still take: those of
the callers, and those of `shutdown`, which closes one idle connection after the other and
then wakes everybody.  A notification costs the borrower that it wakes one more look at
the pool, and the step that notifies pays for it.  The reaper goes on for ever as long as
the flag is not set, so its steps are not counted there, and they do not raise the effort
(`effort_step`).  With the flag set it has an effort of its own (`reaperEffort_step`).

A caller inside the pool is never stuck (`canMove_of_caller`): it has a step of its own, or
`shutdown` holds `mu_` and has one.  A borrower that sleeps has its timeout.

Together, once `shutdown` has set the flag, the pool comes to rest, and the destructor's
`reaper_.join()` returns (`shutdown_terminates`).
-/

namespace InferenceRouter.BackendPool

open Interleaving

variable {o : Options} {s s' : State} {e : Event}

/-! ## Steps and their prices -/

/-- The steps of the callers and of `shutdown`. -/
def Event.productive : Event → Bool
  | .borrowLock _ | .borrowTimeout _ | .dialOk _ _ | .dialFail _ | .dialFailLock _ _
  | .incPoolCreate _ | .incPoolBorrow _ | .sample _ | .releaseLock _ _ | .releaseClose _
  | .shutdownStep => true
  | _ => false

/-- The steps of the reaper. -/
def Event.reaps : Event → Bool
  | .reaperLock | .reaperStep | .ping _ => true
  | _ => false

/-- How many steps a call of `borrow` or a spurious wakeup can cause. -/
def Event.price : Event → Nat
  | .borrow => 10
  | .borrowSpurious _ => 1
  | _ => 0

theorem Event.inner_of_productive (h : e.productive = true) : e.inner = true := by
  cases e <;> first | rfl | cases h

theorem Event.price_of_productive (h : e.productive = true) : e.price = 0 := by
  cases e <;> first | rfl | cases h

/-! ## The work that is left -/

def Caller.effort : Caller → Nat
  | .entered _ | .notified _ | .spurious _ => 9
  | .asleep _ | .dialing => 8
  | .dialled _ => 7
  | .created _ => 6
  | .held _ => 5
  | .releasing _ _ => 4
  | .sampled _ _ => 3
  | .dialFailed => 2
  | .closing _ => 1
  | .released | .failed _ => 0

/-- The steps of `shutdown`, with `callers` callers to wake. -/
def Shutdown.effort (callers : Nat) : Shutdown → Nat
  | .idle => callers + 4
  | .closing => callers + 3
  | .notifying => callers + 2
  | .notifyingReaper => 1
  | .returned => 0

def Pool.effort (p : Pool) : Nat :=
  total Caller.effort p.callers + p.shutdown.effort p.callers.length + p.idle.length +
    p.reaper.slots.length

/-- The steps of the reaper once the flag is set. -/
def Reaper.effort : Reaper → Nat
  | .exited => 0
  | .loopHead | .waiting _ => 1
  | .pushBack _ => 2
  | .closingDead dead _ => dead.length + 3
  | .pinging toCheck _ dead => 2 * toCheck.length + dead.length + 4
  | .closingVictims victims toCheck => victims.length + 2 * toCheck.length + 5

theorem Caller.effort_of_atLock {c : Caller} {d : Int} (h : c.atLock = some d) : c.effort = 9 := by
  cases c <;> simp_all [atLock, effort]

theorem Caller.effort_of_inWait {c : Caller} {d : Int} (h : c.inWait = some d) :
    8 ≤ c.effort := by
  cases c <;> simp_all [inWait, effort]

theorem borrowCv_effort_wake (c : Caller) (h : borrowCv.asleep c = true) :
    (borrowCv.wake c).effort ≤ c.effort + 1 := by
  obtain ⟨d, rfl, hwake⟩ := borrowCv_wake h
  rw [hwake]
  exact le_rfl

theorem Shutdown.effort_succ (n : Nat) (p : Shutdown) : p.effort (n + 1) ≤ p.effort n + 1 := by
  cases p <;> simp only [effort] <;> omega

/-- One caller moves on. -/
theorem effort_setCaller {i n price : Nat} {c c' : Caller} (hi : s.callers[i]? = some c)
    (hcallers : s'.callers = s.callers.set i c') (hshutdown : s'.shutdown = s.shutdown)
    (hslots : s'.idle.length + s'.reaper.slots.length ≤ s.idle.length + s.reaper.slots.length)
    (hlower : n + c'.effort ≤ c.effort + price) :
    n + s'.toPool.effort ≤ s.toPool.effort + price := by
  have hset := total_set Caller.effort c' hi
  simp only [Pool.effort, hcallers, hshutdown, List.length_set]
  omega

/-- One caller moves on, may leave a connection, and notifies another one. -/
theorem effort_notify {i : Nat} {c c' : Caller} (hi : s.callers[i]? = some c)
    (hcallers : borrowCv.NotifiesOne (s.callers.set i c') s'.callers)
    (hshutdown : s'.shutdown = s.shutdown) (hreaper : s'.reaper = s.reaper)
    (hlower : s'.idle.length + c'.effort + 2 ≤ s.idle.length + c.effort) :
    1 + s'.toPool.effort ≤ s.toPool.effort := by
  have hset := total_set Caller.effort c' hi
  have hwoken := hcallers.total_le borrowCv_effort_wake
  have hlen : s'.callers.length = s.callers.length := hcallers.length_eq.trans List.length_set
  simp only [Pool.effort, hshutdown, hreaper, hlen]
  omega

/-- The reaper moves, and has no more connections than it had or took. -/
theorem effort_reaper (hcallers : s'.callers = s.callers) (hshutdown : s'.shutdown = s.shutdown)
    (hslots : s'.idle.length + s'.reaper.slots.length ≤
      s.idle.length + s.reaper.slots.length) : 0 + s'.toPool.effort ≤ s.toPool.effort := by
  simp only [Pool.effort, hcallers, hshutdown]
  omega

/-- `shutdown` moves. -/
theorem effort_shutdown {n price : Nat} (hcallers : s'.callers = s.callers)
    (hreaper : s'.reaper = s.reaper)
    (hlower : n + s'.shutdown.effort s.callers.length + s'.idle.length ≤
      s.shutdown.effort s.callers.length + s.idle.length + price) :
    n + s'.toPool.effort ≤ s.toPool.effort + price := by
  simp only [Pool.effort, hcallers, hreaper]
  omega

/-- What the sweep takes from `idle_` the reaper has. -/
theorem length_sweep (o : Options) (s : State) :
    (s.sweep o).idle.length + (s.sweep o).reaper.slots.length = s.idle.length := by
  have hsplit := List.length_eq_length_filter_add (l := s.idle) (Slot.expired o s.now)
  simp only [State.sweep, Reaper.slots, List.length_append]
  split
  next =>
    rw [List.length_nil]
    omega
  next =>
    rw [List.length_nil]
    omega

/-- A step of a caller or of `shutdown` lowers the effort, up to the price of its event. -/
theorem effort_step (h : Step o s e s') (hflag : s.shutdown ≠ .idle → s.shuttingDown = true) :
    e.productive.toNat + s'.toPool.effort ≤ s.toPool.effort + e.price := by
  cases h with
  | clock | foreignOpen | foreignClose | shutdownAgain => exact (Nat.zero_add _).le
  | borrow =>
      have hsucc := s.shutdown.effort_succ s.callers.length
      simp only [Event.productive, Event.price, Pool.effort, total_append, total_cons, total_nil,
        Caller.effort, List.length_append, List.length_singleton, Bool.toNat_false]
      omega
  | borrowAbort hi hd | borrowDial hi hd | borrowSleep hi hd =>
      refine effort_setCaller hi rfl rfl le_rfl ?_
      rw [Caller.effort_of_atLock hd]
      simp [Event.productive, Event.price, Caller.effort]
  | borrowIdle hi hd _ _ hidle =>
      refine effort_setCaller hi rfl rfl ?_ ?_
      · rw [hidle, List.length_cons]
        dsimp only
        omega
      · rw [Caller.effort_of_atLock hd]
        simp [Event.productive, Event.price, Caller.effort]
  | borrowTimeout hi hd =>
      have hwait := Caller.effort_of_inWait hd
      refine effort_setCaller hi rfl rfl le_rfl ?_
      show 1 + 0 ≤ _ + 0
      omega
  | dialOk hi =>
      refine effort_setCaller hi rfl rfl le_rfl ?_
      split <;> simp [Event.productive, Event.price, Caller.effort]
  | borrowSpurious hi | dialFail hi | incPoolCreate hi | incPoolBorrow hi | release _ hi
  | sample hi | releaseClose hi =>
      refine effort_setCaller hi rfl rfl le_rfl ?_
      simp [Event.productive, Event.price, Caller.effort]
  | dialFailLock hi _ hcallers => exact effort_notify hi hcallers rfl rfl le_rfl
  | releaseKeep hi _ hcallers =>
      refine effort_notify hi hcallers rfl rfl ?_
      simp only [List.length_append, List.length_singleton, Caller.effort]
      omega
  | releaseDrop hi _ hcallers => exact effort_notify hi hcallers rfl rfl le_rfl
  | shutdown _ hshut =>
      -- the flag is not set, so this is the first call
      have hidle : s.shutdown = .idle := by
        by_contra hne
        rw [hflag hne] at hshut
        cases hshut
      refine effort_shutdown rfl rfl ?_
      simp only [Event.productive, Bool.toNat_false, hidle, Shutdown.effort]
      omega
  | shutdownClose hpc hidle =>
      refine effort_shutdown rfl rfl ?_
      simp only [Event.productive, Bool.toNat_true, State.closeFd, hidle, List.length_cons]
      omega
  | shutdownUnlock hpc hidle =>
      refine effort_shutdown rfl rfl ?_
      simp only [Event.productive, Bool.toNat_true, hpc, Shutdown.effort]
      omega
  | shutdownNotify hpc =>
      -- everybody is woken, and `shutdown` pays for it
      have hwoken := CondVar.total_notifyAll_le (l := s.callers) borrowCv_effort_wake
      simp only [Event.productive, Event.price, Bool.toNat_true, Pool.effort, hpc,
        Shutdown.effort]
      omega
  | shutdownReturn hpc =>
      refine effort_shutdown rfl rfl ?_
      simp only [Event.productive, Bool.toNat_true, hpc, Shutdown.effort]
      omega
  | sweep _ _ hpc =>
      refine effort_reaper rfl rfl ?_
      rw [length_sweep]
      exact Nat.le_add_right _ _
  | reaperExit | reaperWait => exact effort_reaper rfl rfl (by simp [Reaper.slots])
  | pushBack _ hpc | closeVictim hpc | victimsClosed hpc | startPings hpc | pingsDone hpc
  | closeDead hpc | deadClosed hpc | pingOk hpc | pingFail hpc =>
      refine effort_reaper rfl rfl ?_
      simp only [hpc, State.closeFd, Reaper.slots, List.length_append, List.length_cons,
        List.length_nil]
      omega

/-- With the flag set, every step of the reaper brings it nearer to its exit. -/
theorem reaperEffort_step (h : Step o s e s') (hshut : s.shuttingDown = true) :
    e.reaps.toNat + s'.reaper.effort ≤ s.reaper.effort := by
  have hnot : s.shuttingDown ≠ false := by simp [hshut]
  cases h with
  | reaperWait _ hfalse | sweep _ hfalse => exact absurd hfalse hnot
  | reaperExit _ _ hpc =>
      rcases hpc with hpc | ⟨d, hpc⟩ <;> simp [hpc, Event.reaps, Reaper.effort]
  | pushBack _ hpc | closeVictim hpc | victimsClosed hpc | startPings hpc | pingsDone hpc
  | closeDead hpc | deadClosed hpc | pingOk hpc | pingFail hpc =>
      simp only [hpc, Event.reaps, Bool.toNat_true, Reaper.effort, List.length_append,
        List.length_cons, List.length_nil]
      omega
  | clock | foreignOpen | foreignClose | borrow | borrowAbort | borrowIdle | borrowDial
  | borrowSleep | borrowTimeout | borrowSpurious | dialOk | dialFail | dialFailLock | incPoolCreate
  | incPoolBorrow | release | sample | releaseKeep | releaseDrop | releaseClose | shutdownAgain
  | shutdown | shutdownClose | shutdownUnlock | shutdownNotify | shutdownReturn =>
      exact (Nat.zero_add _).le

/-! ## Some thread can move -/

/-- Some thread inside the pool has a step to take after at most a wait. -/
def State.CanMove (o : Options) (s : State) : Prop :=
  ∃ (ms : Nat) (e : Event), e.productive = true ∧
    (step o { s with now := s.now + ms } e).isSome

/-- `shutdown` is never stuck. -/
theorem canMove_of_shutdown (hidle : s.shutdown ≠ .idle) (hreturned : s.shutdown ≠ .returned) :
    s.CanMove o := by
  refine ⟨0, .shutdownStep, rfl, ?_⟩
  cases hpc : s.shutdown with
  | idle => exact absurd hpc hidle
  | returned => exact absurd hpc hreturned
  | closing =>
      cases hslots : s.idle <;> simp [step, State.shutdownStep, hpc, hslots]
  | notifying | notifyingReaper => simp [step, State.shutdownStep, hpc]

/-- Whoever waits for `mu_` waits for a step of `shutdown`. -/
theorem canMove_of_locked (h : s.unlocked = false) : s.CanMove o := by
  have hpc : s.shutdown = .closing := by
    unfold State.unlocked at h
    split at h
    next hpc => exact hpc
    next => cases h
  exact canMove_of_shutdown (by simp [hpc]) (by simp [hpc])

/-- A call of `shutdown` needs nothing but `mu_`. -/
theorem exists_shutdown (h : s.unlocked = true) : ∃ s', step o s .shutdown = some s' := by
  cases hshut : s.shuttingDown with
  | true => exact ⟨s, by simp [step, h, hshut]⟩
  | false =>
      refine ⟨{ s with shuttingDown := true, shutdown := .closing }, ?_⟩
      simp [step, h, hshut]

/-- A caller in `borrow` or in `release` is never stuck. -/
theorem canMove_of_caller {i : Nat} {c : Caller} (hi : s.callers[i]? = some c)
    (hdone : c.done = false) (hheld : ∀ fd, c ≠ .held fd) : s.CanMove o := by
  cases hlock : s.unlocked with
  | false => exact canMove_of_locked hlock
  | true =>
      have hlater : ∀ now : Int, State.unlocked { s with now := now } = true := fun _ => hlock
      have hnotify : ∀ l : List Caller, ∃ pick l', borrowCv.notifyOne l pick = some l' :=
        CondVar.exists_notifyOne
      cases c with
      | entered d | notified d | spurious d =>
          refine ⟨0, .borrowLock i, rfl, ?_⟩
          simp [step, State.borrowLock, hi, Caller.atLock, hlater]
      | asleep d =>
          have hdue : d ≤ s.now + (d - s.now).toNat := by omega
          refine ⟨(d - s.now).toNat, .borrowTimeout i, rfl, ?_⟩
          simp only [step, State.borrowTimeout, hi, Caller.inWait]
          rw [if_pos ⟨hlater _, hdue⟩]
          rfl
      | dialing =>
          refine ⟨0, .dialFail i, rfl, ?_⟩
          simp [step, hi]
      | dialFailed =>
          obtain ⟨pick, callers, hcallers⟩ := hnotify (s.callers.set i (.failed .dial))
          refine ⟨0, .dialFailLock i pick, rfl, ?_⟩
          simp [step, State.dialFailLock, hi, hlater, hcallers]
      | dialled fd =>
          refine ⟨0, .incPoolCreate i, rfl, ?_⟩
          simp [step, hi]
      | created fd =>
          refine ⟨0, .incPoolBorrow i, rfl, ?_⟩
          simp [step, hi]
      | held fd => exact absurd rfl (hheld fd)
      | releasing fd ok =>
          refine ⟨0, .sample i, rfl, ?_⟩
          simp [step, hi]
      | sampled fd closeIt =>
          obtain ⟨pick, callers, hcallers⟩ :=
            hnotify (s.callers.set i (if closeIt = true then .closing fd else .released))
          refine ⟨0, .releaseLock i pick, rfl, ?_⟩
          simp [step, State.releaseLock, hi, hlater, hcallers]
      | closing fd =>
          refine ⟨0, .releaseClose i, rfl, ?_⟩
          simp [step, hi]
      | released | failed => cases hdone

/-! ## The end of the pool -/

/-- The steps of the threads inside the pool, the reaper among them. -/
def Event.busy (e : Event) : Bool := e.productive || e.reaps

/-- Nobody is inside the pool any more: `shutdown` has returned, the reaper has exited, and
every `borrow` and every `release` that was called has returned. -/
structure State.AtRest (s : State) : Prop where
  shutdown : s.shutdown = .returned
  reaper : s.reaper = .exited
  callers : ∀ c ∈ s.callers, c.done = true ∨ ∃ fd, c = .held fd

theorem price_of_busy (h : e.busy = true) : e.price = 0 := by
  cases e <;> first | rfl | cases h

/-- The flag and the thread inside `shutdown` go together. -/
theorem started_step (h : Step o s e s')
    (hs : s.shuttingDown = true → s.shutdown ≠ .idle) :
    s'.shuttingDown = true → s'.shutdown ≠ .idle := by
  cases h with
  | shutdown | shutdownUnlock | shutdownNotify | shutdownReturn =>
      intro _ hidle
      cases hidle
  | clock | foreignOpen | foreignClose | borrow | borrowAbort | borrowIdle | borrowDial
  | borrowSleep | borrowTimeout | borrowSpurious | dialOk | dialFail | dialFailLock | incPoolCreate
  | incPoolBorrow | release | sample | releaseKeep | releaseDrop | releaseClose | shutdownAgain
  | shutdownClose | reaperExit | reaperWait | sweep | pushBack | closeVictim | victimsClosed
  | startPings | pingsDone | closeDead | deadClosed | pingOk | pingFail => exact hs

theorem reachable_started (h : (machine o).Reachable s) (hshut : s.shuttingDown = true) :
    s.shutdown ≠ .idle :=
  h.invariant (P := fun t => t.shuttingDown = true → t.shutdown ≠ .idle)
    (fun hset => by cases hset) (fun _ _ _ hs hstep => started_step (step_cases hstep) hs) hshut

/-- The flag stays set. -/
theorem shuttingDown_step (h : Step o s e s') (hshut : s.shuttingDown = true) :
    s'.shuttingDown = true := by
  cases h with
  | shutdown => rfl
  | clock | foreignOpen | foreignClose | borrow | borrowAbort | borrowIdle | borrowDial
  | borrowSleep | borrowTimeout | borrowSpurious | dialOk | dialFail | dialFailLock | incPoolCreate
  | incPoolBorrow | release | sample | releaseKeep | releaseDrop | releaseClose | shutdownAgain
  | shutdownClose | shutdownUnlock | shutdownNotify | shutdownReturn | reaperExit | reaperWait
  | sweep | pushBack | closeVictim | victimsClosed | startPings | pingsDone | closeDead
  | deadClosed | pingOk | pingFail => exact hshut

/-- With the flag set, the reaper is not stuck, or `shutdown` has `mu_`. -/
theorem exists_reaperStep (hshut : s.shuttingDown = true) (hlock : s.unlocked = true)
    (hlive : s.reaper ≠ .exited) : ∃ e, e.reaps = true ∧ (step o s e).isSome := by
  cases hpc : s.reaper with
  | exited => exact absurd hpc hlive
  | loopHead | waiting d | pushBack survivors =>
      exact ⟨.reaperLock, rfl, by simp [step, State.reaperLock, hlock, hshut, hpc]⟩
  | closingVictims victims toCheck =>
      refine ⟨.reaperStep, rfl, ?_⟩
      cases victims <;> cases toCheck <;> simp [step, State.reaperStep, hpc]
  | pinging toCheck survivors dead =>
      cases toCheck with
      | nil => exact ⟨.reaperStep, rfl, by simp [step, State.reaperStep, hpc]⟩
      | cons c toCheck => exact ⟨.ping true, rfl, by simp [step, State.ping, hpc]⟩
  | closingDead dead survivors =>
      refine ⟨.reaperStep, rfl, ?_⟩
      cases dead <;> simp [step, State.reaperStep, hpc]

/-- The pool is shutting down. -/
def Closing (o : Options) (s : State) : Prop := (machine o).Reachable s ∧ s.shuttingDown = true

theorem Closing.step (h : Closing o s) (hstep : (machine o).step s e = some s') : Closing o s' :=
  ⟨h.1.step hstep, shuttingDown_step (step_cases hstep) h.2⟩

/-- Until the pool is at rest, somebody inside it can move. -/
theorem Closing.exists_step (h : Closing o s) (hrest : ¬ s.AtRest) :
    ∃ (ms : Nat) (e : Event) (s' : State), e.busy = true ∧
      (machine o).exec s [.clock ms, e] = some s' := by
  have hmove : s.CanMove o.normalise → ∃ (ms : Nat) (e : Event) (s' : State), e.busy = true ∧
      (machine o).exec s [.clock ms, e] = some s' := by
    rintro ⟨ms, e, hproductive, hsome⟩
    obtain ⟨s', hs'⟩ := Option.isSome_iff_exists.mp hsome
    refine ⟨ms, e, s', by simp [Event.busy, hproductive], ?_⟩
    exact Machine.exec_cons_iff.mpr ⟨_, rfl, Machine.exec_single_iff.mpr hs'⟩
  have hstarted := reachable_started h.1 h.2
  by_cases hreturned : s.shutdown = .returned
  · by_cases hreaper : s.reaper = .exited
    · -- then some caller is inside
      by_contra hnone
      refine hrest ⟨hreturned, hreaper, fun c hc => ?_⟩
      obtain ⟨i, hi⟩ := List.mem_iff_getElem?.mp hc
      by_contra hnot
      rw [not_or, not_exists] at hnot
      exact hnone (hmove (canMove_of_caller hi (by simpa using hnot.1) hnot.2))
    · have hlock : State.unlocked { s with now := s.now + (0 : Nat) } = true := by
        simp [State.unlocked, hreturned]
      obtain ⟨e, hreaps, hsome⟩ := exists_reaperStep (o := o.normalise)
        (s := { s with now := s.now + (0 : Nat) }) h.2 hlock hreaper
      obtain ⟨s', hs'⟩ := Option.isSome_iff_exists.mp hsome
      refine ⟨0, e, s', by simp [Event.busy, hreaps], ?_⟩
      exact Machine.exec_cons_iff.mpr ⟨_, rfl, Machine.exec_single_iff.mpr hs'⟩
  · exact hmove (canMove_of_shutdown hstarted hreturned)

/-- The steps that are left once the flag is set. -/
def State.remaining (s : State) : Nat := s.toPool.effort + s.reaper.effort

theorem Closing.remaining_step (h : Closing o s) (hstep : (machine o).step s e = some s') :
    e.busy.toNat + s'.remaining ≤ s.remaining + e.price := by
  have hcases : Step o.normalise s e s' := step_cases hstep
  have heffort := effort_step hcases (reachable_flagged h.1)
  have hreaper := reaperEffort_step hcases h.2
  have hbusy : e.busy.toNat ≤ e.productive.toNat + e.reaps.toNat := by
    cases hp : e.productive <;> cases hr : e.reaps <;> simp [Event.busy, hp, hr]
  simp only [State.remaining]
  omega

theorem Closing.countP_le (h : Closing o s) {es : List Event}
    (hexec : (machine o).exec s es = some s') :
    es.countP Event.busy + s'.remaining ≤ s.remaining + total Event.price es :=
  Machine.countP_le_rank (fun _ _ _ ht hstep => ht.step hstep)
    (fun _ _ _ ht hstep => ht.remaining_step hstep) h hexec

/-- Short of its rest the pool can come nearer to it, by the threads inside it. -/
theorem Closing.exists_lower (h : Closing o s) (hrest : ¬ s.AtRest) :
    ∃ s', (machine o).Reaches (fun e => e.busy = true ∨ ∃ ms, e = .clock ms) s s' ∧
      s'.remaining < s.remaining := by
  obtain ⟨ms, e, s', hbusy, hexec⟩ := h.exists_step hrest
  have hle := h.countP_le hexec
  refine ⟨s', ⟨[.clock ms, e], ?_, hexec⟩, ?_⟩
  · intro e' he'
    rcases List.mem_cons.mp he' with rfl | he'
    · exact .inr ⟨ms, rfl⟩
    · rw [List.mem_singleton.mp he']
      exact .inl hbusy
  · have hclock : (Event.clock ms).price = 0 := rfl
    simp only [List.countP_cons, List.countP_nil, hbusy, if_true, total_cons, total_nil,
      price_of_busy hbusy, hclock] at hle
    omega

/-- From every reachable state in which `shutting_down_` is set, whatever the schedule: the
threads inside the pool, the reaper among them, take only boundedly many steps, up to the
price of new calls of `borrow` and of spurious wakeups; until the pool is at rest, one of
them can take a step after at most a wait; and so the pool comes to rest without any new
call, whoever still holds a descriptor. -/
theorem shutdown_terminates (o : Options) {s : State} (h : (machine o).Reachable s)
    (hshut : s.shuttingDown = true) :
    (∃ bound, ∀ es s', (machine o).exec s es = some s' →
        es.countP Event.busy ≤ bound + total Event.price es) ∧
      (¬ s.AtRest → ∃ (ms : Nat) (e : Event) (s' : State), e.busy = true ∧
        (machine o).exec s [.clock ms, e] = some s') ∧
      ∃ s', (machine o).Reaches (fun e => e.busy = true ∨ ∃ ms, e = .clock ms) s s' ∧
        s'.AtRest := by
  have hs : Closing o s := ⟨h, hshut⟩
  refine ⟨⟨s.remaining, ?_⟩, hs.exists_step, ?_⟩
  · intro es s' hexec
    have hle := hs.countP_le hexec
    omega
  · exact Machine.exists_reaches_of_rank (P := Closing o) State.remaining
      (fun _ _ _ ht _ hstep => ht.step hstep) (fun _ ht hrest => ht.exists_lower hrest) hs

/-- One borrower sleeps, another one dials and the reaper pings when `shutdown` is called. -/
def calledInBetween : List Event :=
  [.borrow, .borrowLock 0, .dialOk 0 3, .incPoolCreate 0, .incPoolBorrow 0, .release 0 true,
    .sample 0, .releaseLock 0 none, .reaperLock, .clock 10000, .reaperLock, .reaperStep, .borrow,
    .borrowLock 1, .borrow, .borrowLock 2, .shutdown]

theorem shutdown_terminates_calledInBetween : ∃ s,
    (machine { maxSize := 1 }).run calledInBetween = some s ∧ s.callers.length = 3 ∧
      ¬ s.AtRest ∧
      ∃ s', (machine { maxSize := 1 }).Reaches
        (fun e => e.busy = true ∨ ∃ ms, e = .clock ms) s s' ∧ s'.AtRest := by
  refine ⟨_, rfl, rfl, ?_, ?_⟩
  · rintro ⟨hreturned, -, -⟩
    cases hreturned
  · have h := @shutdown_terminates { maxSize := 1 } _ ⟨calledInBetween, rfl⟩ rfl
    exact h.2.2

end InferenceRouter.BackendPool
