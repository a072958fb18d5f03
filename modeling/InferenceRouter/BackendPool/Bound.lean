import InferenceRouter.BackendPool.Ownership

/-!
# The size of the pool

`max_size` is meant to bound the connections that the pool keeps.  `borrow`
compares it with `in_use_ + idle_.size()`, and that sum leaves out what the
reaper has taken from `idle_` for its health check.  `State.size` counts these
too.  No step makes it grow but the branch of `borrow` that dials, so the bound
holds all along a run exactly when every dial started with room for one more
(`bounded_iff`).  Without the health check that is always so.
-/

namespace InferenceRouter.BackendPool

open Interleaving

variable {o : Options} {s s' : State} {e : Event}

/-- The connections that the reaper holds for its health check. -/
def Reaper.checking : Reaper → List Slot
  | .closingVictims _ toCheck => toCheck
  | .pinging toCheck survivors dead => toCheck ++ (survivors ++ dead)
  | .closingDead dead survivors => dead ++ survivors
  | .pushBack survivors => survivors
  | .loopHead | .waiting _ | .exited => []

/-- The connections that are idle, in use, being dialled, or held for the health
check. -/
def State.size (s : State) : Nat := s.idle.length + s.inUse + s.reaper.checking.length

/-- The step is the branch of `borrow` that dials. -/
def State.dialBranch (o : Options) (s : State) : Event → Bool
  | .borrowLock _ =>
      !s.shuttingDown && (s.idle.isEmpty && decide (s.inUse + s.idle.length < o.maxSize))
  | _ => false

/-- Only the branch that dials adds to the size. -/
theorem size_step (h : Step o s e s') (hu : s.inUse = total Caller.leases s.callers) :
    (s.dialBranch o e = true ∧ s'.size = s.size + 1) ∨
      (s.dialBranch o e = false ∧ s'.size ≤ s.size) := by
  have hpos : ∀ {i : Nat} {c : Caller}, s.callers[i]? = some c → c.leases = 1 → 0 < s.inUse := by
    intro i c hi hc
    have hle := le_total Caller.leases (List.mem_of_getElem? hi)
    omega
  cases h with
  | borrowDial _ _ _ hshut hidle hroom =>
      refine .inl ⟨by simp [State.dialBranch, hshut, hidle, hroom], ?_⟩
      simp only [State.size]
      omega
  | borrowAbort _ _ _ hshut => exact .inr ⟨by simp [State.dialBranch, hshut], le_rfl⟩
  | borrowIdle _ _ _ _ hidle =>
      refine .inr ⟨by simp [State.dialBranch, hidle], ?_⟩
      simp only [State.size, hidle, List.length_cons]
      omega
  | borrowSleep _ _ _ _ _ hfull =>
      refine .inr ⟨?_, le_rfl⟩
      simp only [State.dialBranch, Bool.and_eq_false_imp, decide_eq_false_iff_not]
      omega
  | dialFailLock =>
      refine .inr ⟨rfl, ?_⟩
      simp only [State.size]
      omega
  | releaseKeep hi =>
      have hone := hpos hi rfl
      refine .inr ⟨rfl, ?_⟩
      simp only [State.size, List.length_append, List.length_singleton, if_pos hone]
      omega
  | releaseDrop =>
      refine .inr ⟨rfl, ?_⟩
      simp only [State.size]
      split <;> omega
  | shutdownClose _ hidle =>
      refine .inr ⟨rfl, ?_⟩
      simp only [State.size, State.closeFd, hidle, List.length_cons]
      omega
  | reaperExit _ _ hpc =>
      refine .inr ⟨rfl, ?_⟩
      rcases hpc with hpc | ⟨d, hpc⟩ <;> simp [State.size, hpc, Reaper.checking]
  | sweep _ _ hpc =>
      refine .inr ⟨rfl, ?_⟩
      have hle := List.length_filter_le (fun slot => !Slot.expired o s.now slot) s.idle
      simp only [State.size, State.sweep, hpc, Reaper.checking]
      split
      next =>
        rw [List.length_nil]
        omega
      next =>
        rw [List.length_nil]
        omega
  | pushBack _ hpc =>
      refine .inr ⟨rfl, ?_⟩
      simp only [State.size, hpc, Reaper.checking, List.length_append, List.length_nil]
      omega
  | closeVictim hpc => exact .inr ⟨rfl, by simp [State.size, State.closeFd, hpc, Reaper.checking]⟩
  | pingsDone hpc =>
      refine .inr ⟨rfl, ?_⟩
      simp only [State.size, hpc, Reaper.checking, List.length_append, List.length_nil]
      omega
  | closeDead hpc =>
      refine .inr ⟨rfl, ?_⟩
      simp only [State.size, State.closeFd, hpc, Reaper.checking, List.length_append,
        List.length_cons]
      omega
  | reaperWait _ _ hpc | victimsClosed hpc | startPings hpc | deadClosed hpc =>
      exact .inr ⟨rfl, by simp [State.size, hpc, Reaper.checking]⟩
  | pingOk hpc =>
      refine .inr ⟨rfl, ?_⟩
      simp only [State.size, hpc, Reaper.checking, List.length_append, List.length_cons,
        List.length_nil]
      omega
  | pingFail hpc =>
      refine .inr ⟨rfl, ?_⟩
      simp only [State.size, hpc, Reaper.checking, List.length_append, List.length_cons,
        List.length_nil]
      omega
  | clock | foreignOpen | foreignClose | borrow | borrowTimeout | borrowSpurious | dialOk | dialFail
  | incPoolCreate | incPoolBorrow | release | sample | releaseClose | shutdownAgain | shutdown
  | shutdownUnlock | shutdownNotify | shutdownReturn => exact .inr ⟨rfl, le_rfl⟩

/-- A step keeps the bound exactly if it is not a dial without room. -/
theorem size_le_iff {bound : Nat} (h : Step o s e s')
    (hu : s.inUse = total Caller.leases s.callers) (hle : s.size ≤ bound) :
    s'.size ≤ bound ↔ (s.dialBranch o e = true → s.size < bound) := by
  rcases size_step h hu with ⟨hdial, hsize⟩ | ⟨hdial, hsize⟩
  · rw [hsize, hdial]
    constructor
    · intro hlt _
      exact hlt
    · intro hlt
      exact hlt rfl
  · rw [hdial]
    simp only [Bool.false_eq_true, false_implies, iff_true]
    omega

/-! ## Without the health check -/

theorem Options.normalise_enableHealthCheck (o : Options) :
    o.normalise.enableHealthCheck = o.enableHealthCheck := by
  simp only [normalise]
  split <;> split <;> rfl

/-- A sweep that leaves nothing to check is the only way in which the reaper could come to
hold a connection that is no victim. -/
theorem checking_step_of_sweep (hsweep : (s.sweep o).reaper.checking = []) (h : Step o s e s')
    (hnone : s.reaper.checking = []) : s'.reaper.checking = [] := by
  cases h with
  | reaperExit | reaperWait | pushBack | victimsClosed => rfl
  | sweep => exact hsweep
  | closeVictim hpc =>
      rw [hpc] at hnone
      exact hnone
  | startPings hpc =>
      rw [hpc] at hnone
      simpa [Reaper.checking] using hnone
  | pingsDone hpc =>
      rw [hpc] at hnone
      simp only [Reaper.checking, List.nil_append, List.append_eq_nil_iff] at hnone ⊢
      exact hnone.symm
  | closeDead hpc =>
      rw [hpc] at hnone
      cases hnone
  | deadClosed hpc =>
      rw [hpc] at hnone
      exact hnone
  | pingOk hpc =>
      rw [hpc] at hnone
      cases hnone
  | pingFail hpc =>
      rw [hpc] at hnone
      cases hnone
  | clock | foreignOpen | foreignClose | borrow | borrowAbort | borrowIdle | borrowDial
  | borrowSleep | borrowTimeout | borrowSpurious | dialOk | dialFail | dialFailLock | incPoolCreate
  | incPoolBorrow | release | sample | releaseKeep | releaseDrop | releaseClose | shutdownAgain
  | shutdown | shutdownClose | shutdownUnlock | shutdownNotify | shutdownReturn => exact hnone

theorem checking_sweep (hoff : o.enableHealthCheck = false) : (s.sweep o).reaper.checking = [] := by
  simp [State.sweep, Reaper.checking, hoff]

/-- The reaper takes nothing but victims out of `idle_`. -/
theorem checking_step (hoff : o.enableHealthCheck = false) (h : Step o s e s')
    (hnone : s.reaper.checking = []) : s'.reaper.checking = [] :=
  checking_step_of_sweep (checking_sweep hoff) h hnone

/-- If no sweep leaves anything to check, the bound holds in every reachable state. -/
theorem size_le_of_sweep
    (hsweep : ∀ t, (machine o).Reachable t → (t.sweep o.normalise).reaper.checking = [])
    (h : (machine o).Reachable s) : s.size ≤ o.normalise.maxSize := by
  have hboth : s.reaper.checking = [] ∧ s.size ≤ o.normalise.maxSize := by
    refine Machine.Reachable.invariant_with
      (P := fun t => t.reaper.checking = [] ∧ t.size ≤ o.normalise.maxSize)
      (fun _ ht => And.intro (hsweep _ ht) (reachable_inUse ht)) ⟨rfl, Nat.zero_le _⟩ ?_ h
    rintro t e t' ⟨hswept, hu⟩ ht hstep
    refine ⟨checking_step_of_sweep hswept (step_cases hstep) ht.1, ?_⟩
    refine (size_le_iff (step_cases hstep) hu ht.2).mpr ?_
    intro hdial
    cases e with
    | borrowLock i =>
        simp only [State.dialBranch, Bool.and_eq_true, decide_eq_true_eq] at hdial
        simp only [State.size, ht.1, List.length_nil]
        omega
    | _ => cases hdial
  exact hboth.2

/-- With the health check off, the bound holds in every reachable state. -/
theorem size_le_of_no_healthCheck (hoff : o.enableHealthCheck = false)
    (h : (machine o).Reachable s) : s.size ≤ o.normalise.maxSize :=
  size_le_of_sweep (fun _ _ => checking_sweep (o.normalise_enableHealthCheck.trans hoff)) h

/-! ## With it -/

/-- Along every run, the connections that are idle, in use, being dialled or held
for the health check stay within `max_size` exactly if every `borrow` that dials
starts when they are fewer. -/
theorem bounded_iff (o : Options) {es : List Event} {s : State}
    (h : (machine o).run es = some s) :
    (machine o).Always (fun t => t.size ≤ o.normalise.maxSize) (machine o).init es ↔
      (machine o).Meets
        (fun t e => t.dialBranch o.normalise e = true → t.size < o.normalise.maxSize)
        (machine o).init es := by
  refine Machine.always_iff_meets (I := (machine o).Reachable) ?_ ?_ .init (Nat.zero_le _) h
  · intro t e t' ht hstep
    exact ht.step hstep
  · intro t e t' ht hle hstep
    exact size_le_iff (step_cases hstep) (reachable_inUse ht) hle

theorem bounded_borrowedAgain : ∃ s, (machine { maxSize := 1 }).run borrowedAgain = some s ∧
    (machine { maxSize := 1 }).Always (fun t => t.size ≤ 1) (machine { maxSize := 1 }).init
      borrowedAgain := by
  refine ⟨_, rfl, ?_⟩
  exact (bounded_iff { maxSize := 1 } rfl).mpr (by decide)

/-- The reaper has the only connection for its health check when a `borrow`
comes. -/
def borrowedMeanwhile : List Event :=
  [.borrow, .borrowLock 0, .dialOk 0 3, .incPoolCreate 0, .incPoolBorrow 0, .release 0 true,
    .sample 0, .releaseLock 0 none, .reaperLock, .clock 10000, .reaperLock, .reaperStep, .borrow,
    .borrowLock 1, .dialOk 1 4, .ping true, .reaperStep, .reaperStep, .reaperLock]

theorem unbounded_borrowedMeanwhile : ∃ s,
    (machine { maxSize := 1 }).run borrowedMeanwhile = some s ∧
      s.idle.length = 1 ∧ s.inUse = 1 ∧ s.size = 2 :=
  ⟨_, rfl, rfl, rfl, rfl⟩

end InferenceRouter.BackendPool
