import InferenceRouter.BackendPool.Standing

/-!
# What the pool's own steps do to others

Whoever embeds a pool in a larger system calls `borrow`, `release` and `shutdown`,
and everything else happens inside: `Event.inner` are the steps of the threads that
are in the pool already.

*Callers.*  From outside, a caller is in one of five phases, and an inner step moves
it along: it is in `borrow` until it holds a descriptor or has failed, it holds the
descriptor until it calls `release`, and then it is in `release` until it is
released.

*Descriptors.*  A step leaves the table as it is, or opens one connection at a free
number, or closes one connection of the pool.
-/

namespace InferenceRouter.BackendPool

open Interleaving

variable {o : Options} {s s' : State} {e : Event}

/-- The steps of the threads that are inside the pool. -/
def Event.inner : Event → Bool
  | .clock _ | .foreignOpen _ | .foreignClose _ | .borrow | .release _ _ | .shutdown => false
  | _ => true

/-! ## Callers -/

/-- A caller as the code around the pool sees it. -/
inductive Phase where
  | borrowing
  | held (fd : Nat)
  | releasing
  | released
  | failed
  deriving DecidableEq

def Caller.phase : Caller → Phase
  | .entered _ | .asleep _ | .notified _ | .spurious _ | .dialing | .dialFailed | .dialled _
  | .created _ => .borrowing
  | .held fd => .held fd
  | .releasing _ _ | .sampled _ _ | .closing _ => .releasing
  | .released => .released
  | .failed _ => .failed

/-- What may become of a caller by an inner step. -/
def Phase.Leads : Phase → Phase → Prop
  | .borrowing, .borrowing | .borrowing, .held _ | .borrowing, .failed => True
  | .releasing, .releasing | .releasing, .released => True
  | p, q => p = q

theorem Phase.Leads.refl (p : Phase) : p.Leads p := by
  cases p with
  | borrowing | releasing => trivial
  | held | released | failed => rfl

theorem Caller.phase_of_atLock {c : Caller} {d : Int} (h : c.atLock = some d) :
    c.phase = .borrowing := by
  cases c <;> simp_all [atLock, phase]

theorem Caller.phase_of_inWait {c : Caller} {d : Int} (h : c.inWait = some d) :
    c.phase = .borrowing := by
  cases c <;> simp_all [inWait, phase]

theorem borrowCv_phase_wake (c : Caller) (h : borrowCv.asleep c = true) :
    (borrowCv.wake c).phase = c.phase := by
  obtain ⟨d, rfl, hwake⟩ := borrowCv_wake h
  rw [hwake]
  rfl

/-- Every caller is where it was, or where its phase leads. -/
def Advances (callers callers' : List Caller) : Prop :=
  callers'.length = callers.length ∧ ∀ (k : Nat) (c : Caller), callers[k]? = some c →
    ∃ c', callers'[k]? = some c' ∧ c.phase.Leads c'.phase

theorem Advances.refl (callers : List Caller) : Advances callers callers :=
  Moves.refl (R := fun c c' : Caller => c.phase.Leads c'.phase) (fun c => .refl c.phase) callers

theorem Advances.set {callers : List Caller} {i : Nat} {a : Caller} (b : Caller)
    (hi : callers[i]? = some a) (hab : a.phase.Leads b.phase) :
    Advances callers (callers.set i b) :=
  Moves.set (R := fun c c' : Caller => c.phase.Leads c'.phase) (fun c => .refl c.phase) b hi hab

/-- A notification changes no phase. -/
theorem Advances.notifyOne {callers mid callers' : List Caller} (h : Advances callers mid)
    (hn : borrowCv.NotifiesOne mid callers') : Advances callers callers' := by
  refine ⟨hn.length_eq.trans h.1, fun k c hk => ?_⟩
  obtain ⟨c', hk', hleads⟩ := h.2 k c hk
  cases hn with
  | nobody => exact ⟨c', hk', hleads⟩
  | @one j a hj hasleep =>
      rw [getElem?_set_eq _ hj]
      by_cases hkj : k = j
      · subst hkj
        rw [hk', Option.some.injEq] at hj
        subst hj
        exact ⟨_, if_pos rfl, by rw [borrowCv_phase_wake c' hasleep]; exact hleads⟩
      · exact ⟨c', by rw [if_neg hkj, hk'], hleads⟩

theorem Advances.notifyAll (callers : List Caller) :
    Advances callers (borrowCv.notifyAll callers) := by
  refine ⟨CondVar.length_notifyAll _, fun k c hk => ?_⟩
  rw [CondVar.getElem?_notifyAll, hk]
  refine ⟨_, rfl, ?_⟩
  beta_reduce
  split
  next hasleep =>
    rw [borrowCv_phase_wake c hasleep]
    exact .refl _
  next => exact .refl _

theorem advances_step (h : Step o s e s') (hinner : e.inner = true) :
    Advances s.callers s'.callers := by
  have hborrow : ∀ {c c' : Caller}, c.phase = .borrowing →
      (c'.phase = .borrowing ∨ c'.phase = .failed ∨ ∃ fd, c'.phase = .held fd) →
      c.phase.Leads c'.phase := by
    intro c c' hc hc'
    rw [hc]
    rcases hc' with hc' | hc' | ⟨fd, hc'⟩
    · rw [hc']
      trivial
    · rw [hc']
      trivial
    · rw [hc']
      trivial
  cases h with
  | clock | foreignOpen | foreignClose | borrow | release | shutdownAgain | shutdown => cases hinner
  | borrowAbort hi hd => exact .set _ hi (hborrow (Caller.phase_of_atLock hd) (.inr (.inl rfl)))
  | @borrowIdle i c d slot rest hi hd =>
      exact .set _ hi (hborrow (Caller.phase_of_atLock hd) (.inr (.inr ⟨slot.fd, rfl⟩)))
  | borrowDial hi hd => exact .set _ hi (hborrow (Caller.phase_of_atLock hd) (.inl rfl))
  | borrowSleep hi hd => exact .set _ hi (hborrow (Caller.phase_of_atLock hd) (.inl rfl))
  | borrowTimeout hi hd => exact .set _ hi (hborrow (Caller.phase_of_inWait hd) (.inr (.inl rfl)))
  | @dialOk i fd hi =>
      apply Advances.set _ hi
      split
      next => exact hborrow rfl (.inl rfl)
      next => exact hborrow rfl (.inr (.inr ⟨fd, rfl⟩))
  | borrowSpurious hi | dialFail hi | incPoolCreate hi => exact .set _ hi (hborrow rfl (.inl rfl))
  | @incPoolBorrow i fd hi => exact .set _ hi (hborrow rfl (.inr (.inr ⟨fd, rfl⟩)))
  | dialFailLock hi _ hcallers =>
      exact (Advances.set _ hi (hborrow rfl (.inr (.inl rfl)))).notifyOne hcallers
  | sample hi => exact .set _ hi trivial
  | releaseKeep hi _ hcallers => exact (Advances.set .released hi trivial).notifyOne hcallers
  | @releaseDrop i fd _ _ hi _ hcallers =>
      exact (Advances.set (.closing fd) hi trivial).notifyOne hcallers
  | releaseClose hi => exact .set _ hi trivial
  | shutdownNotify => exact .notifyAll _
  | shutdownClose | shutdownUnlock | shutdownReturn | reaperExit | reaperWait | sweep | pushBack
  | closeVictim | victimsClosed | startPings | pingsDone | closeDead | deadClosed | pingOk
  | pingFail => exact .refl _

/-! ## Descriptors -/

/-- What a step of the pool does to the table. -/
inductive Touches (table : Nat → Option File) : (Nat → Option File) → Prop where
  | nothing : Touches table table
  | opens {fd : Nat} (n : Nat) : table fd = none →
      Touches table (Function.update table fd (some (.backend n)))
  | closes {fd n : Nat} : table fd = some (.backend n) →
      Touches table (Function.update table fd none)

/-- The events by which the rest of the process shows. -/
def Event.foreign : Event → Bool
  | .clock _ | .foreignOpen _ | .foreignClose _ => true
  | _ => false

theorem touches_step (h : Step o s e s') (hown : e.foreign = false) (hl : s.Ledger) :
    Touches s.table s'.table := by
  have hclose : ∀ {fd : Nat}, fd ∈ s.owned → Touches s.table (s.closeFd fd).table := by
    intro fd howned
    obtain ⟨n, hn⟩ := hl.1.isOpen fd howned
    exact .closes hn
  cases h with
  | clock | foreignOpen | foreignClose => cases hown
  | dialOk _ hfree => exact .opens _ hfree
  | releaseClose hi => exact hclose (mem_owned_of_caller hi (by simp [Caller.fds]))
  | shutdownClose _ hidle => exact hclose (mem_owned_of_idle (hidle ▸ List.mem_cons_self))
  | closeVictim hpc | closeDead hpc =>
      exact hclose (mem_owned_of_reaper (by rw [hpc]; exact List.mem_cons_self))
  | borrow | borrowAbort | borrowIdle | borrowDial | borrowSleep | borrowTimeout | borrowSpurious
  | dialFail | dialFailLock | incPoolCreate | incPoolBorrow | release | sample | releaseKeep
  | releaseDrop | shutdownAgain | shutdown | shutdownUnlock | shutdownNotify | shutdownReturn
  | reaperExit | reaperWait | sweep | pushBack | victimsClosed | startPings | pingsDone | deadClosed
  | pingOk | pingFail => exact .nothing

/-- No step of the pool moves the clock. -/
theorem now_step (h : Step o s e s') (hown : e.foreign = false) : s'.now = s.now := by
  cases h with
  | clock | foreignOpen | foreignClose => cases hown
  | borrow | borrowAbort | borrowIdle | borrowDial | borrowSleep | borrowTimeout | borrowSpurious
  | dialOk | dialFail | dialFailLock | incPoolCreate | incPoolBorrow | release | sample
  | releaseKeep | releaseDrop | releaseClose | shutdownAgain | shutdown | shutdownClose
  | shutdownUnlock | shutdownNotify | shutdownReturn | reaperExit | reaperWait | sweep | pushBack
  | closeVictim | victimsClosed | startPings | pingsDone | closeDead | deadClosed | pingOk
  | pingFail => rfl

end InferenceRouter.BackendPool
