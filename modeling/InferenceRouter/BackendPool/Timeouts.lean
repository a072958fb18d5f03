import InferenceRouter.BackendPool.Waiters

/-!
# Timeouts

A borrower whose wait is over gives up with `ETIMEDOUT` and does not look at the pool again.
Whether the wait reports a timeout depends on the clock alone: a borrower that was notified
in time, or woken for no reason, may find its deadline passed when it gets `mu_` back, and by
then there may be a connection for it, or one for somebody else who was notified.

`borrow` also returns `-1` after a failed dial, with the `errno` that the dial left.  That
may be `ETIMEDOUT` as well, so it is a parameter here: `dialErrno i` says that the dial of
the `i`-th caller leaves it.
-/

namespace InferenceRouter.BackendPool

open Interleaving

variable {o : Options} {s s' : State} {e : Event} {dialErrno : Nat → Bool}

/-- `borrow` has returned `-1` with `errno` equal to `ETIMEDOUT`. -/
def Caller.timedOut (dialErrno : Bool) : Caller → Bool
  | .failed .etimedout => true
  | .failed .dial => dialErrno
  | _ => false

/-- The caller at `i` has. -/
def HadTimedOut (dialErrno : Nat → Bool) (callers : List Caller) (i : Nat) : Prop :=
  ∃ c : Caller, callers[i]? = some c ∧ c.timedOut (dialErrno i) = true

/-- There is nothing to lend. -/
def Exhausted (o : Options) (s : State) : Prop :=
  s.shuttingDown = false ∧ s.idle = [] ∧ o.maxSize ≤ s.inUse + s.idle.length

/-- Whoever returns with `ETIMEDOUT` in this step leaves an exhausted pool. -/
def Honest (o : Options) (dialErrno : Nat → Bool) (s s' : State) : Prop :=
  ∀ i, HadTimedOut dialErrno s'.callers i → HadTimedOut dialErrno s.callers i ∨ Exhausted o s'

/-- A wait reports a timeout to a borrower that still sleeps, before `shutdown`, and while
nobody who was notified is on their way.  No dial leaves `ETIMEDOUT`. -/
def State.undisturbed (dialErrno : Nat → Bool) (s : State) : Event → Bool
  | .borrowTimeout i =>
      match s.callers[i]? with
      | some (.asleep _) => decide (s.wakeups = 0) && !s.shuttingDown
      | _ => false
  | .dialFailLock i _ => !dialErrno i
  | _ => true

/-! ## Who returns -/

section Callers

variable {callers callers' : List Caller} {i j : Nat} {a b c : Caller}

theorem timedOut_set (hj : callers[j]? = some a) (hi : (callers.set j b)[i]? = some c)
    (hc : c.timedOut (dialErrno i) = true) :
    HadTimedOut dialErrno callers i ∨ (i = j ∧ c = b) := by
  rw [getElem?_set_eq b hj] at hi
  split at hi
  next hij =>
    cases hi
    exact .inr ⟨hij, rfl⟩
  next => exact .inl ⟨c, hi, hc⟩

/-- A notification makes nobody return. -/
theorem timedOut_notifiesOne (hn : borrowCv.NotifiesOne callers callers')
    (hi : callers'[i]? = some c) (hc : c.timedOut (dialErrno i) = true) :
    callers[i]? = some c := by
  rcases hn.getElem?_inv hi with hsame | ⟨a, -, hasleep, rfl⟩
  · exact hsame
  · obtain ⟨d, rfl, hwake⟩ := borrowCv_wake hasleep
    rw [hwake] at hc
    cases hc

theorem timedOut_notifyAll (hi : (borrowCv.notifyAll callers)[i]? = some c)
    (hc : c.timedOut (dialErrno i) = true) : callers[i]? = some c := by
  rw [CondVar.getElem?_notifyAll, Option.map_eq_some_iff] at hi
  obtain ⟨a, ha, hac⟩ := hi
  split at hac
  next hasleep =>
    obtain ⟨d, rfl, hwake⟩ := borrowCv_wake hasleep
    rw [hwake] at hac
    subst hac
    cases hc
  next => exact hac ▸ ha

end Callers

/-- A caller that has timed out after a step: it had before, or its wait is over, or its
dial has failed. -/
theorem timedOut_step (h : Step o s e s') {i : Nat} {c : Caller} (hi : s'.callers[i]? = some c)
    (hc : c.timedOut (dialErrno i) = true) :
    HadTimedOut dialErrno s.callers i ∨ e = .borrowTimeout i ∨
      ∃ pick, e = .dialFailLock i pick ∧ dialErrno i = true := by
  -- a caller that moves on without timing out
  have hmove : ∀ {j : Nat} {a b : Caller}, s.callers[j]? = some a →
      b.timedOut (dialErrno j) = false → (s.callers.set j b)[i]? = some c →
      HadTimedOut dialErrno s.callers i := by
    intro j a b hj hb hset
    rcases timedOut_set hj hset hc with hhad | ⟨rfl, rfl⟩
    · exact hhad
    · rw [hb] at hc
      cases hc
  cases h with
  | borrow =>
      rcases getElem?_append_single hi with hold | ⟨-, rfl⟩
      · exact .inl ⟨c, hold, hc⟩
      · cases hc
  | borrowTimeout hj =>
      rcases timedOut_set hj hi hc with hhad | ⟨rfl, -⟩
      · exact .inl hhad
      · exact .inr (.inl rfl)
  | dialFailLock hj _ hcallers =>
      rcases timedOut_set hj (timedOut_notifiesOne hcallers hi hc) hc with hhad | ⟨rfl, rfl⟩
      · exact .inl hhad
      · exact .inr (.inr ⟨_, rfl, hc⟩)
  | releaseKeep hj _ hcallers | releaseDrop hj _ hcallers =>
      exact .inl (hmove hj rfl (timedOut_notifiesOne hcallers hi hc))
  | shutdownNotify => exact .inl ⟨c, timedOut_notifyAll hi hc, hc⟩
  | dialOk hj =>
      refine .inl (hmove hj ?_ hi)
      split <;> rfl
  | borrowAbort hj | borrowIdle hj | borrowDial hj | borrowSleep hj | borrowSpurious hj
  | dialFail hj | incPoolCreate hj | incPoolBorrow hj | release _ hj | sample hj
  | releaseClose hj =>
      exact .inl (hmove hj rfl hi)
  | clock | foreignOpen | foreignClose | shutdownAgain | shutdown | shutdownClose | shutdownUnlock
  | shutdownReturn | reaperExit | reaperWait | sweep | pushBack | closeVictim | victimsClosed
  | startPings | pingsDone | closeDead | deadClosed | pingOk | pingFail => exact .inl ⟨c, hi, hc⟩

/-! ## Runs -/

/-- Nobody has been notified and somebody sleeps, so there is no place. -/
theorem Promised.exhausted (h : Promised o s) (hshut : s.shuttingDown = false)
    (hsleep : s.sleeping = true) (hzero : s.wakeups = 0) : Exhausted o s := by
  have hroom := h hshut hsleep
  rw [hzero, Nat.le_zero, State.room, Nat.add_eq_zero_iff, List.length_eq_zero_iff] at hroom
  obtain ⟨hidle, hfull⟩ := hroom
  exact ⟨hshut, hidle, Nat.sub_eq_zero_iff_le.mp hfull⟩

theorem honest_step (h : Step o s e s') (hp : Promised o s)
    (hok : s.undisturbed dialErrno e = true) : Honest o dialErrno s s' := by
  rintro i ⟨c, hi, hc⟩
  rcases timedOut_step h hi hc with hhad | rfl | ⟨pick, rfl, hdial⟩
  · exact .inl hhad
  · right
    cases h with
    | borrowTimeout =>
        simp only [State.undisturbed] at hok
        split at hok
        next d hasleep =>
          rw [Bool.and_eq_true, decide_eq_true_eq, Bool.not_eq_true'] at hok
          have hsleep : s.sleeping = true :=
            List.any_eq_true.mpr ⟨_, List.mem_of_getElem? hasleep, rfl⟩
          exact hp.exhausted hok.2 hsleep hok.1
        next => cases hok
  · rw [State.undisturbed, hdial] at hok
    cases hok

/-- Along every run whose steps hand their wakeups on and whose waits time out undisturbed,
`borrow` returns with `ETIMEDOUT` only when there is nothing to lend. -/
theorem timeouts_honest (o : Options) (dialErrno : Nat → Bool) {es : List Event} {s : State}
    (h : (machine o).run es = some s)
    (hmeets : (machine o).Meets (fun t e =>
      t.handsOn o.normalise e = true ∧ t.undisturbed dialErrno e = true) (machine o).init es) :
    (machine o).Meets (fun t e =>
      ∀ t', (machine o).step t e = some t' → Honest o.normalise dialErrno t t')
      (machine o).init es := by
  refine Machine.Meets.meets (I := Promised o.normalise) ?_ ?_ hmeets ?_ h
  · intro t e ht hok t' hstep
    exact honest_step (step_cases hstep) ht hok.2
  · intro t e t' ht hok hstep
    exact promised_step (step_cases hstep) hok.1 ht
  · intro _ hsleep
    cases hsleep

/-- A borrower waits in vain. -/
def waitedInVain : List Event :=
  [.borrow, .borrowLock 0, .dialOk 0 3, .incPoolCreate 0, .incPoolBorrow 0, .borrow, .borrowLock 1,
    .clock 2000, .borrowTimeout 1]

theorem timeouts_honest_waitedInVain : ∃ s,
    (machine { maxSize := 1 }).run waitedInVain = some s ∧
      s.callers.any (Caller.timedOut false) = true ∧
      (machine { maxSize := 1 }).Meets (fun t e => ∀ t', (machine { maxSize := 1 }).step t e =
        some t' → Honest (Options.normalise { maxSize := 1 }) (fun _ => false) t t')
        (machine { maxSize := 1 }).init waitedInVain := by
  refine ⟨_, rfl, rfl, ?_⟩
  exact timeouts_honest { maxSize := 1 } (fun _ => false) rfl (by decide)

/-- A borrower is notified one tick before its deadline, and gets `mu_` when it has
passed. -/
def notifiedInTime : List Event :=
  [.borrow, .borrowLock 0, .dialOk 0 3, .incPoolCreate 0, .incPoolBorrow 0, .borrow, .borrowLock 1,
    .clock 1999, .release 0 true, .sample 0, .releaseLock 0 (some 1), .clock 1]

/-- It returns with `ETIMEDOUT` beside an idle connection. -/
theorem dishonest_notifiedInTime : ∃ s s',
    (machine { maxSize := 1 }).run notifiedInTime = some s ∧
      (machine { maxSize := 1 }).step s (.borrowTimeout 1) = some s' ∧
      s'.callers.map (Caller.timedOut false) = [false, true] ∧ s'.shuttingDown = false ∧
      s'.idle.length = 1 ∧ s'.inUse = 0 ∧
      ¬ Honest (Options.normalise { maxSize := 1 }) (fun _ => false) s s' := by
  refine ⟨_, _, rfl, rfl, rfl, rfl, rfl, rfl, ?_⟩
  intro h
  rcases h 1 ⟨_, rfl, rfl⟩ with ⟨c, hc, htimed⟩ | ⟨-, hidle, -⟩
  · cases hc
    cases htimed
  · cases hidle

end InferenceRouter.BackendPool
