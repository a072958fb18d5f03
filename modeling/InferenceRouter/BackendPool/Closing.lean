import InferenceRouter.BackendPool.Ownership

/-!
# What `shutdown` closes

`shutdown` closes what it finds in `idle_`, and a connection released afterwards
is to be closed by `release`.  Two steps can still put a connection into `idle_`
when the flag is set: the critical section of a `release` that loaded the flag
before, and the reaper's, which does not look at the flag when it pushes the
survivors of its health check back.  Nothing takes a connection out of `idle_`
any more at that time, so such a connection stays open for good
(`shutdown_closes_all_iff`).
-/

namespace InferenceRouter.BackendPool

open Interleaving

variable {o : Options} {s s' : State} {e : Event}

/-- A connection is idle although `shutdown` has emptied `idle_`. -/
def State.Stray (s : State) : Prop :=
  s.shuttingDown = true ∧ s.unlocked = true ∧ s.idle ≠ []

/-- The step puts a connection into `idle_`. -/
def State.restocks (s : State) : Event → Bool
  | .releaseLock i _ =>
      match s.callers[i]? with
      | some (.sampled _ false) => true
      | _ => false
  | .reaperLock =>
      match s.reaper with
      | .pushBack (_ :: _) => true
      | _ => false
  | _ => false

/-- A stray connection stays. -/
theorem stray_step (h : Step o s e s') (hs : s.Stray) : s'.Stray := by
  obtain ⟨hshut, hlock, hidle⟩ := hs
  have hnot : s.shuttingDown ≠ false := by simp [hshut]
  have hunlocked : s.shutdown ≠ .closing := by
    intro hpc
    simp [State.unlocked, hpc] at hlock
  cases h with
  | borrowIdle _ _ _ hfalse | borrowDial _ _ _ hfalse | borrowSleep _ _ _ hfalse
  | shutdown _ hfalse | sweep _ hfalse | reaperWait _ hfalse => exact absurd hfalse hnot
  | shutdownClose hpc => exact absurd hpc hunlocked
  | shutdownUnlock hpc => exact absurd hpc hunlocked
  | releaseKeep => exact ⟨hshut, hlock, by simp⟩
  | pushBack => exact ⟨hshut, hlock, by simp [hidle]⟩
  | shutdownNotify => exact ⟨hshut, rfl, hidle⟩
  | shutdownReturn => exact ⟨hshut, rfl, hidle⟩
  | clock | foreignOpen | foreignClose | borrow | borrowAbort | borrowTimeout | borrowSpurious
  | dialOk | dialFail | dialFailLock | incPoolCreate | incPoolBorrow | release | sample
  | releaseDrop | releaseClose | shutdownAgain | reaperExit | closeVictim | victimsClosed
  | startPings | pingsDone | closeDead | deadClosed | pingOk | pingFail =>
      exact ⟨hshut, hlock, hidle⟩

/-- A connection becomes stray only by a step that puts it into `idle_` while the
flag is set. -/
theorem restocks_step (h : Step o s e s') (hs : ¬ s.Stray) :
    (s.restocks e = true ∧ (s'.Stray ↔ s.shuttingDown = true)) ∨
      (s.restocks e = false ∧ ¬ s'.Stray) := by
  have hsame : ∀ {t : State}, t.idle = s.idle → t.shuttingDown = s.shuttingDown →
      t.unlocked = s.unlocked → ¬ t.Stray := by
    intro t hidle hshut hlock ⟨hshut', hlock', hidle'⟩
    exact hs ⟨hshut ▸ hshut', hlock ▸ hlock', hidle ▸ hidle'⟩
  have hopen : ∀ {t : State}, t.shuttingDown = false → ¬ t.Stray := by
    intro t hshut ht
    simp [State.Stray, hshut] at ht
  have hlocked : ∀ {t : State}, t.unlocked = false → ¬ t.Stray := by
    intro t hlock ht
    simp [State.Stray, hlock] at ht
  cases h with
  | releaseKeep hi hlock =>
      refine .inl ⟨by simp [State.restocks, hi], fun ht => ht.1, fun hshut => ?_⟩
      exact ⟨hshut, hlock, by simp⟩
  | @pushBack survivors hlock hpc =>
      cases survivors with
      | nil =>
          refine .inr ⟨by simp [State.restocks, hpc], hsame ?_ rfl rfl⟩
          exact List.append_nil _
      | cons survivor survivors =>
          refine .inl ⟨by simp [State.restocks, hpc], fun ht => ht.1, fun hshut => ?_⟩
          exact ⟨hshut, hlock, by simp⟩
  | borrowIdle _ _ _ hshut => exact .inr ⟨rfl, hopen hshut⟩
  | sweep _ hshut hpc => exact .inr ⟨by simp [State.restocks, hpc], hopen hshut⟩
  | shutdown => exact .inr ⟨rfl, hlocked rfl⟩
  | shutdownClose hpc =>
      refine .inr ⟨rfl, hlocked ?_⟩
      simp [State.unlocked, State.closeFd, hpc]
  | shutdownUnlock _ hidle => exact .inr ⟨rfl, fun ht => ht.2.2 hidle⟩
  | shutdownNotify hpc => exact .inr ⟨rfl, hsame rfl rfl (by simp [State.unlocked, hpc])⟩
  | shutdownReturn hpc => exact .inr ⟨rfl, hsame rfl rfl (by simp [State.unlocked, hpc])⟩
  | releaseDrop hi => exact .inr ⟨by simp [State.restocks, hi], hsame rfl rfl rfl⟩
  | reaperExit _ _ hpc =>
      refine .inr ⟨?_, hsame rfl rfl rfl⟩
      rcases hpc with hpc | ⟨d, hpc⟩ <;> simp [State.restocks, hpc]
  | reaperWait _ _ hpc => exact .inr ⟨by simp [State.restocks, hpc], hsame rfl rfl rfl⟩
  | clock | foreignOpen | foreignClose | borrow | borrowAbort | borrowDial | borrowSleep
  | borrowTimeout | borrowSpurious | dialOk | dialFail | dialFailLock | incPoolCreate
  | incPoolBorrow | release | sample | releaseClose | shutdownAgain | closeVictim | victimsClosed
  | startPings | pingsDone | closeDead | deadClosed | pingOk | pingFail =>
      exact .inr ⟨rfl, hsame rfl rfl rfl⟩

theorem not_stray_iff (h : Step o s e s') (hs : ¬ s.Stray) :
    ¬ s'.Stray ↔ (s.restocks e = true → s.shuttingDown = false) := by
  rcases restocks_step h hs with ⟨hyes, hstray⟩ | ⟨hno, hstray⟩
  · rw [hstray, hyes]
    simp
  · simp [hno, hstray]

/-! ## After the shutdown -/

/-- The flag is set from the first step of `shutdown` on. -/
theorem flagged_step (h : Step o s e s')
    (hf : s.shutdown ≠ .idle → s.shuttingDown = true) :
    s'.shutdown ≠ .idle → s'.shuttingDown = true := by
  cases h with
  | shutdown => exact fun _ => rfl
  | shutdownUnlock hpc => exact fun _ => hf (by simp [hpc])
  | shutdownNotify hpc => exact fun _ => hf (by simp [hpc])
  | shutdownReturn hpc => exact fun _ => hf (by simp [hpc])
  | clock | foreignOpen | foreignClose | borrow | borrowAbort | borrowIdle | borrowDial
  | borrowSleep | borrowTimeout | borrowSpurious | dialOk | dialFail | dialFailLock | incPoolCreate
  | incPoolBorrow | release | sample | releaseKeep | releaseDrop | releaseClose | shutdownAgain
  | shutdownClose | reaperExit | reaperWait | sweep | pushBack | closeVictim | victimsClosed
  | startPings | pingsDone | closeDead | deadClosed | pingOk | pingFail => exact hf

theorem reachable_flagged (h : (machine o).Reachable s) (hpc : s.shutdown ≠ .idle) :
    s.shuttingDown = true :=
  h.invariant (P := fun t => t.shutdown ≠ .idle → t.shuttingDown = true)
    (fun hidle => absurd rfl hidle) (fun _ _ _ hf hstep => flagged_step (step_cases hstep) hf) hpc

/-- The caller's `borrow` failed, or its `release` has returned. -/
def Caller.done : Caller → Bool
  | .released | .failed _ => true
  | _ => false

theorem Caller.fds_of_done {c : Caller} (h : c.done = true) : c.fds = 0 := by
  cases c <;> simp_all [done, fds]

/-- `shutdown` has returned, every call has returned, every descriptor lent has
been released, and the reaper has exited. -/
structure State.Quiescent (s : State) : Prop where
  shutdown : s.shutdown = .returned
  callers : ∀ c ∈ s.callers, c.done = true
  reaper : s.reaper = .exited

/-- What a quiescent pool owns is idle. -/
theorem State.Quiescent.owned_eq (hq : s.Quiescent) : s.owned = fdsOf s.idle := by
  have hcallers : total Caller.fds s.callers = 0 :=
    total_eq_zero _ (fun c hc => Caller.fds_of_done (hq.callers c hc))
  rw [State.owned, hcallers, hq.reaper]
  simp [Reaper.slots]

/-- A quiescent pool without idle connections has closed all it ever dialled. -/
theorem State.Quiescent.closed_perm (hq : s.Quiescent) (hl : s.Ledger) (hidle : s.idle = []) :
    s.closed.Perm (List.range s.dials) := by
  have hconns := hl.1.conns
  rw [hq.owned_eq, hidle] at hconns
  simp only [fdsOf_nil, Multiset.map_zero, add_zero] at hconns
  exact Multiset.coe_eq_coe.mp hconns

/-- When everything is over, `idle_` is empty, every connection that was ever dialled
has been closed once and nothing else has been, exactly if no step put a connection
into `idle_` while the flag was set. -/
theorem shutdown_closes_all_iff (o : Options) {es : List Event} {s : State}
    (h : (machine o).run es = some s) (hq : s.Quiescent) :
    (s.idle = [] ∧ s.closed.Perm (List.range s.dials) ∧ s.badCloses = 0) ↔
      (machine o).Meets (fun t e => t.restocks e = true → t.shuttingDown = false)
        (machine o).init es := by
  have hreach : (machine o).Reachable s := ⟨es, h⟩
  have hmeets := Machine.always_iff_meets (m := machine o) (I := fun _ => True)
    (P := fun t => ¬ t.Stray) (fun _ _ _ _ _ => trivial)
    (fun _ _ _ _ hs hstep => not_stray_iff (step_cases hstep) hs) trivial
    (by simp [State.Stray, machine]) h
  have hlast := Machine.always_iff_last (m := machine o) (P := fun t => ¬ t.Stray)
    (fun _ _ _ hstep hs' hs => hs' (stray_step (step_cases hstep) hs)) h
  have hstray : ¬ s.Stray ↔ s.idle = [] := by
    have hshut := reachable_flagged hreach (by simp [hq.shutdown])
    have hlock : s.unlocked = true := by simp [State.unlocked, hq.shutdown]
    simp [State.Stray, hshut, hlock]
  rw [← hmeets, hlast, hstray]
  constructor
  · intro hclosed
    exact hclosed.1
  · intro hidle
    have hledger := reachable_ledger hreach
    exact ⟨hidle, hq.closed_perm hledger hidle, hledger.2⟩

/-- A connection is released before the shutdown and another one after it. -/
def releasedInTime : List Event :=
  [.borrow, .borrowLock 0, .dialOk 0 3, .incPoolCreate 0, .incPoolBorrow 0, .borrow, .borrowLock 1,
    .dialOk 1 4, .incPoolCreate 1, .incPoolBorrow 1, .release 0 true, .sample 0,
    .releaseLock 0 none, .shutdown, .shutdownStep, .shutdownStep, .release 1 true, .sample 1,
    .releaseLock 1 none, .releaseClose 1, .shutdownStep, .shutdownStep, .reaperLock]

theorem shutdown_closes_all_releasedInTime : ∃ s,
    (machine {}).run releasedInTime = some s ∧ s.Quiescent ∧ s.dials = 2 ∧ s.idle = [] ∧
      s.closed.Perm (List.range s.dials) ∧ s.badCloses = 0 := by
  refine ⟨_, rfl, ⟨rfl, List.all_eq_true.mp rfl, rfl⟩, rfl, ?_⟩
  have h := @shutdown_closes_all_iff {} releasedInTime _ rfl ⟨rfl, List.all_eq_true.mp rfl, rfl⟩
  exact h.mpr (by decide)

/-- A `release` loads the flag, `shutdown` runs, and the `release` goes on. -/
def releasedTooLate : List Event :=
  [.borrow, .borrowLock 0, .dialOk 0 3, .incPoolCreate 0, .incPoolBorrow 0, .release 0 true,
    .sample 0, .shutdown, .shutdownStep, .shutdownStep, .shutdownStep, .releaseLock 0 none,
    .reaperLock]

theorem shutdown_leaks_releasedTooLate : ∃ s,
    (machine {}).run releasedTooLate = some s ∧ s.Quiescent ∧ s.dials = 1 ∧ s.closed = [] ∧
      s.idle.map Slot.fd = [3] ∧ s.table 3 = some (.backend 0) := by
  refine ⟨_, rfl, ⟨rfl, ?_, rfl⟩, rfl, rfl, rfl, rfl⟩
  exact List.all_eq_true.mp rfl

end InferenceRouter.BackendPool
