import InferenceRouter.BackendPool.Ownership

/-!
# Borrowers that wait

A borrower sleeps on `cv_` when the pool has no place for it.  Whoever makes a place is to
wake one sleeper, and then the place is as good as taken: as long as somebody sleeps there
are no more places than borrowers that have been notified and will look again (`Promised`).

`release` and a failed dial notify, and a borrower that takes a place on its way in only
makes it easier.  Two steps break the rule.  The reaper pushes its survivors back without
a notification, and they are new places if `max_size` was used up meanwhile.  A borrower
whose deadline has passed leaves with the notification that it got.
-/

namespace InferenceRouter.BackendPool

open Interleaving

variable {o : Options} {s s' : State} {e : Event}

/-! ## Places and wakeups -/

/-- The borrower has been notified and will look at the pool again. -/
def Caller.wakeups : Caller → Nat
  | .notified _ => 1
  | _ => 0

def State.wakeups (s : State) : Nat := total Caller.wakeups s.callers

/-- Some borrower is asleep and has not been notified. -/
def State.sleeping (s : State) : Bool := s.callers.any borrowCv.asleep

/-- How many borrowers the pool could serve: with the idle connections, and with dials up
to `max_size`. -/
def State.room (o : Options) (s : State) : Nat :=
  s.idle.length + (o.maxSize - (s.inUse + s.idle.length))

/-- As long as somebody sleeps, every place is promised to somebody who was notified. -/
def Promised (o : Options) (s : State) : Prop :=
  s.shuttingDown = false → s.sleeping = true → s.room o ≤ s.wakeups

/-- A step that makes as many wakeups as it makes places. -/
theorem Promised.mono (h : Promised o s) (hshut : s'.shuttingDown = s.shuttingDown)
    (hsleep : s'.sleeping = true → s.sleeping = true)
    (hroom : s'.sleeping = true → s'.room o + s.wakeups ≤ s.room o + s'.wakeups) :
    Promised o s' := by
  intro hs' hsleep'
  have hle := h (hshut ▸ hs') (hsleep hsleep')
  have hroom := hroom hsleep'
  omega

/-! ## One caller moves -/

section Callers

variable {callers callers' : List Caller} {i : Nat} {c b : Caller}

theorem any_asleep_set (hb : borrowCv.asleep b = false)
    (h : (callers.set i b).any borrowCv.asleep = true) : callers.any borrowCv.asleep = true := by
  obtain ⟨a, ha, hasleep⟩ := List.any_eq_true.mp h
  rcases List.mem_or_eq_of_mem_set ha with ha | rfl
  · exact List.any_eq_true.mpr ⟨a, ha, hasleep⟩
  · rw [hb] at hasleep
    cases hasleep

/-- A caller that is awake afterwards and was not notified before. -/
theorem Promised.setCaller (h : Promised o s) (hi : s.callers[i]? = some c)
    (hc : c.wakeups = 0) (hb : borrowCv.asleep b = false)
    (hs' : s'.shuttingDown = s.shuttingDown ∧ s'.idle = s.idle ∧ s'.inUse = s.inUse)
    (hcallers : s'.callers = s.callers.set i b) : Promised o s' := by
  obtain ⟨hshut, hidle, huse⟩ := hs'
  have htotal := total_set (f := Caller.wakeups) b hi
  refine h.mono hshut ?_ ?_
  · intro hsleep
    rw [State.sleeping, hcallers] at hsleep
    exact any_asleep_set hb hsleep
  · intro _
    simp only [State.room, State.wakeups, hidle, huse, hcallers]
    omega

/-- A caller that takes a place. -/
theorem Promised.takes (h : Promised o s) (hi : s.callers[i]? = some c)
    (hb : borrowCv.asleep b = false) (hshut : s'.shuttingDown = s.shuttingDown)
    (hroom : s'.room o + 1 = s.room o) (hcallers : s'.callers = s.callers.set i b) :
    Promised o s' := by
  have htotal := total_set (f := Caller.wakeups) b hi
  have hone : c.wakeups ≤ 1 := by cases c <;> simp [Caller.wakeups]
  refine h.mono hshut ?_ ?_
  · intro hsleep
    rw [State.sleeping, hcallers] at hsleep
    exact any_asleep_set hb hsleep
  · intro _
    simp only [State.wakeups, hcallers]
    omega

/-- A caller that makes a place and notifies. -/
theorem Promised.notifies (h : Promised o s) (hi : s.callers[i]? = some c)
    (hc : c.wakeups = 0) (hb : borrowCv.asleep b = false ∧ b.wakeups = 0)
    (hshut : s'.shuttingDown = s.shuttingDown) (hroom : s'.room o ≤ s.room o + 1)
    (hcallers : borrowCv.NotifiesOne (s.callers.set i b) s'.callers) : Promised o s' := by
  have htotal := total_set (f := Caller.wakeups) b hi
  have hwakes := hcallers.wakes (f := Caller.wakeups) (by
    intro a ha
    cases a <;> first | rfl | cases ha)
  refine h.mono hshut ?_ ?_
  · intro hsleep
    exact any_asleep_set hb.1 (hwakes hsleep).1
  · intro hsleep
    have hwoken := (hwakes hsleep).2
    simp only [State.wakeups]
    omega

end Callers

/-! ## Steps -/

/-- The step does not lose a wakeup.  The reaper pushes its survivors back when nobody
sleeps, or when they fit in beside what is in use.  A borrower leaves with a notification
when nobody else sleeps, or when more are notified than there are places. -/
def State.handsOn (o : Options) (s : State) : Event → Bool
  | .reaperLock =>
      match s.reaper with
      | .pushBack survivors =>
          !s.sleeping || decide (s.inUse + s.idle.length + survivors.length ≤ o.maxSize)
      | _ => true
  | .borrowTimeout i =>
      match s.callers[i]? with
      | some (.notified _) => !s.sleeping || decide (s.room o < s.wakeups)
      | _ => true
  | _ => true

theorem promised_step (h : Step o s e s') (hok : s.handsOn o e = true) (hs : Promised o s) :
    Promised o s' := by
  cases h with
  | borrow =>
      refine hs.mono rfl ?_ ?_
      · intro hsleep
        simpa [State.sleeping, borrowCv] using hsleep
      · intro _
        simp [State.room, State.wakeups, Caller.wakeups]
  | borrowIdle hi hd _ _ hidle =>
      refine hs.takes hi (b := .held _) rfl rfl ?_ rfl
      simp only [State.room, hidle, List.length_cons]
      omega
  | borrowDial hi hd _ _ hidle hroom =>
      refine hs.takes hi (b := .dialing) rfl rfl ?_ rfl
      simp only [State.room, hidle, List.length_nil]
      omega
  | borrowSleep hi hd _ _ hidle hfull =>
      intro _ _
      simp only [State.room, hidle, List.length_nil]
      omega
  | @borrowTimeout i c d hi hd _ hlate =>
      cases c with
      | asleep | spurious => exact hs.setCaller hi rfl rfl ⟨rfl, rfl, rfl⟩ rfl
      | notified d =>
          intro _ hsleep
          have hsleep' : s.sleeping = true := any_asleep_set (by rfl) hsleep
          have hlt : s.room o < s.wakeups := by simpa [State.handsOn, hi, hsleep'] using hok
          have htotal := total_set (f := Caller.wakeups) (.failed .etimedout) hi
          simp only [State.room, State.wakeups, Caller.wakeups] at hlt htotal ⊢
          omega
      | _ => cases hd
  | borrowAbort _ _ _ hshut =>
      intro hs'
      rw [hshut] at hs'
      cases hs'
  | dialOk hi =>
      refine hs.setCaller hi rfl ?_ ⟨rfl, rfl, rfl⟩ rfl
      split <;> rfl
  | borrowSpurious hi | dialFail hi | incPoolCreate hi | incPoolBorrow hi | release _ hi | sample hi
  | releaseClose hi => exact hs.setCaller hi rfl rfl ⟨rfl, rfl, rfl⟩ rfl
  | dialFailLock hi _ hcallers =>
      refine hs.notifies hi rfl ⟨rfl, rfl⟩ rfl ?_ hcallers
      simp only [State.room]
      omega
  | releaseKeep hi _ hcallers =>
      refine hs.notifies hi rfl ⟨rfl, rfl⟩ rfl ?_ hcallers
      simp only [State.room, List.length_append, List.length_singleton]
      split <;> omega
  | releaseDrop hi _ hcallers =>
      refine hs.notifies hi rfl ⟨rfl, rfl⟩ rfl ?_ hcallers
      simp only [State.room]
      split <;> omega
  | sweep =>
      refine hs.mono rfl id fun _ => ?_
      have hle := List.length_filter_le (fun slot => !Slot.expired o s.now slot) s.idle
      simp only [State.room, State.sweep, State.wakeups]
      split
      next =>
        rw [List.length_nil]
        omega
      next => omega
  | pushBack _ hpc =>
      refine hs.mono rfl id fun hsleep => ?_
      have hsleep' : s.sleeping = true := hsleep
      have hfits := hok
      simp only [State.handsOn, hpc, hsleep', Bool.not_true, Bool.false_or,
        decide_eq_true_eq] at hfits
      simp only [State.room, State.wakeups, List.length_append]
      omega
  | shutdown =>
      intro hshut
      cases hshut
  | shutdownClose _ hidle =>
      refine hs.mono rfl id fun _ => ?_
      simp only [State.room, State.wakeups, State.closeFd, hidle, List.length_cons]
      omega
  | shutdownNotify =>
      intro _ hsleep
      obtain ⟨c, hc, hasleep⟩ := List.any_eq_true.mp hsleep
      rw [CondVar.notifyAll_awake (by intro a; cases a <;> rfl) _ c hc] at hasleep
      cases hasleep
  | clock | foreignOpen | foreignClose | shutdownAgain | shutdownUnlock | shutdownReturn
  | reaperExit | reaperWait | closeVictim | victimsClosed | startPings | pingsDone | closeDead
  | deadClosed | pingOk | pingFail => exact hs

/-! ## Runs -/

/-- Nobody sleeps beside a place, unless a notified borrower is on its way to it. -/
def Attended (o : Options) (s : State) : Prop :=
  s.shuttingDown = false → (∃ d, .asleep d ∈ s.callers) → (∀ d, .notified d ∉ s.callers) →
    s.idle = [] ∧ o.maxSize ≤ s.inUse + s.idle.length

theorem Promised.attended (h : Promised o s) : Attended o s := by
  rintro hshut ⟨d, hd⟩ hnone
  have hsleep : s.sleeping = true := List.any_eq_true.mpr ⟨_, hd, rfl⟩
  have hzero : s.wakeups = 0 := by
    refine total_eq_zero _ fun c hc => ?_
    cases c with
    | notified d => exact absurd hc (hnone d)
    | _ => rfl
  have hroom := h hshut hsleep
  simp only [State.room, hzero, Nat.le_zero_eq, Nat.add_eq_zero_iff,
    List.length_eq_zero_iff] at hroom
  exact ⟨hroom.1, by omega⟩

/-- Along every run whose steps hand their wakeups on, no borrower sleeps beside a place
that nobody else was notified of. -/
theorem attended_of_handsOn (o : Options) {es : List Event} {s : State}
    (h : (machine o).run es = some s)
    (hmeets : (machine o).Meets (fun t e => t.handsOn o.normalise e = true)
      (machine o).init es) :
    (machine o).Always (Attended o.normalise) (machine o).init es := by
  refine Machine.Meets.always (I := Promised o.normalise) (fun _ => Promised.attended) ?_
    hmeets ?_ h
  · intro t e t' ht hok hstep
    exact promised_step (step_cases hstep) hok ht
  · intro _ hsleep
    cases hsleep

/-- A release wakes the borrower that sleeps, and the next one sleeps in its turn. -/
def handedOn : List Event :=
  [.borrow, .borrowLock 0, .dialOk 0 3, .incPoolCreate 0, .incPoolBorrow 0, .borrow, .borrowLock 1,
    .release 0 true, .sample 0, .releaseLock 0 (some 1), .borrowLock 1, .borrow, .borrowLock 2]

theorem attended_handedOn : ∃ s, (machine { maxSize := 1 }).run handedOn = some s ∧
    s.shuttingDown = false ∧ s.sleeping = true ∧ s.wakeups = 0 ∧
    (machine { maxSize := 1 }).Always (Attended (Options.normalise { maxSize := 1 }))
      (machine { maxSize := 1 }).init handedOn := by
  refine ⟨_, rfl, rfl, rfl, rfl, ?_⟩
  exact attended_of_handsOn { maxSize := 1 } rfl (by decide)

/-- A borrower falls asleep while the reaper has the only connection of another one for
its health check. -/
def asleepMeanwhile : List Event :=
  [.borrow, .borrowLock 0, .dialOk 0 3, .incPoolCreate 0, .incPoolBorrow 0, .release 0 true,
    .sample 0, .releaseLock 0 none, .reaperLock, .clock 10000, .reaperLock, .reaperStep, .borrow,
    .borrowLock 1, .dialOk 1 4, .borrow, .borrowLock 2, .ping true, .reaperStep, .reaperStep,
    .reaperLock]

/-- Two borrowers sleep, and the one that is notified has run out of time. -/
def notifiedTooLate : List Event :=
  [.borrow, .borrowLock 0, .dialOk 0 3, .incPoolCreate 0, .incPoolBorrow 0, .borrow, .borrowLock 1,
    .clock 1000, .borrow, .borrowLock 2, .release 0 true, .sample 0, .clock 1000,
    .releaseLock 0 (some 1), .borrowTimeout 1]

theorem not_attended {i : Nat} {d : Int} (hshut : s.shuttingDown = false)
    (hi : s.callers[i]? = some (.asleep d)) (hzero : s.wakeups = 0) (hidle : s.idle.length = 1) :
    ¬ Attended o s := by
  intro h
  have hnone : ∀ d, .notified d ∉ s.callers := by
    intro d hd
    have hone := le_total Caller.wakeups hd
    rw [← State.wakeups, hzero] at hone
    cases hone
  have hempty := (h hshut ⟨d, List.mem_of_getElem? hi⟩ hnone).1
  rw [hempty] at hidle
  cases hidle

/-- In both runs a borrower sleeps in the end beside an idle connection, and nobody has been
notified. -/
theorem unattended_asleepMeanwhile :
    (∃ s, (machine { maxSize := 1 }).run asleepMeanwhile = some s ∧ s.sleeping = true ∧
      s.idle.length = 1 ∧ ¬ Attended (Options.normalise { maxSize := 1 }) s) ∧
    (∃ s, (machine { maxSize := 1 }).run notifiedTooLate = some s ∧ s.sleeping = true ∧
      s.idle.length = 1 ∧ ¬ Attended (Options.normalise { maxSize := 1 }) s) := by
  constructor
  · refine ⟨_, rfl, rfl, rfl, ?_⟩
    exact @not_attended _ _ 2 _ rfl rfl rfl rfl
  · refine ⟨_, rfl, rfl, rfl, ?_⟩
    exact @not_attended _ _ 2 _ rfl rfl rfl rfl

end InferenceRouter.BackendPool
