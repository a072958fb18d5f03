import InferenceRouter.BackendPool.Model
import Mathlib.Algebra.Order.Group.Multiset
import Mathlib.Data.Multiset.Range

/-!
# Every connection has one owner

A descriptor of the pool is in the idle deque, in a local deque of the reaper, or
in the hands of a caller.  `State.owned` is the multiset of all of them.  A step
moves descriptors between these places, adds one that a dial opened, or removes
one that it closes; nothing is ever copied.  So the multiset keeps having no
duplicates, and what it names stays open: `Ledger` is the invariant, with one
lemma for each of the three things that can happen to it.

Descriptor numbers are recycled, so the ledger also follows the connections
behind them: those closed and those owned are all that were ever dialled, each
once.
-/

namespace InferenceRouter.BackendPool

open Interleaving

variable {o : Options} {s s' : State} {e : Event}

/-! ## Places -/

/-- The descriptor in a caller's hands. -/
def Caller.fds : Caller → Multiset Nat
  | .dialled fd | .created fd | .held fd | .releasing fd _ | .sampled fd _ | .closing fd => {fd}
  | _ => 0

/-- The reaper's local deques. -/
def Reaper.slots : Reaper → List Slot
  | .closingVictims victims toCheck => victims ++ toCheck
  | .pinging toCheck survivors dead => toCheck ++ (survivors ++ dead)
  | .closingDead dead survivors => dead ++ survivors
  | .pushBack survivors => survivors
  | .loopHead | .waiting _ | .exited => []

/-- The descriptors of a deque. -/
def fdsOf (slots : List Slot) : Multiset Nat := (slots.map Slot.fd : List Nat)

@[simp] theorem fdsOf_nil : fdsOf [] = 0 := rfl

@[simp] theorem fdsOf_cons (slot : Slot) (slots : List Slot) :
    fdsOf (slot :: slots) = {slot.fd} + fdsOf slots := rfl

@[simp] theorem fdsOf_append (l₁ l₂ : List Slot) : fdsOf (l₁ ++ l₂) = fdsOf l₁ + fdsOf l₂ := by
  simp [fdsOf]

/-- All descriptors of the pool, with their places forgotten. -/
def State.owned (s : State) : Multiset Nat :=
  fdsOf s.idle + fdsOf s.reaper.slots + total Caller.fds s.callers

theorem Caller.fds_of_atLock {c : Caller} {d : Int} (h : c.atLock = some d) : c.fds = 0 := by
  cases c <;> simp_all [atLock, fds]

theorem Caller.fds_of_inWait {c : Caller} {d : Int} (h : c.inWait = some d) : c.fds = 0 := by
  cases c <;> simp_all [inWait, fds]

theorem borrowCv_wake {c : Caller} (h : borrowCv.asleep c = true) :
    ∃ d, c = .asleep d ∧ borrowCv.wake c = .notified d := by
  cases c with
  | asleep d => exact ⟨d, rfl, rfl⟩
  | _ => cases h

theorem borrowCv_fds_wake (c : Caller) (h : borrowCv.asleep c = true) :
    (borrowCv.wake c).fds = c.fds := by
  obtain ⟨d, rfl, hwake⟩ := borrowCv_wake h
  rw [hwake]
  rfl

/-! ## The ledger -/

/-- The number of the connection that a descriptor names. -/
def conn (table : Nat → Option File) (fd : Nat) : Nat :=
  match table fd with
  | some (.backend n) => n
  | _ => 0

/-- The descriptors owned are distinct and open, and with the closed connections
they are everything that was dialled. -/
structure Ledger (owned : Multiset Nat) (table : Nat → Option File) (dials : Nat)
    (closed : List Nat) : Prop where
  nodup : owned.Nodup
  isOpen : ∀ fd ∈ owned, ∃ n, table fd = some (.backend n)
  conns : (closed : Multiset Nat) + owned.map (conn table) = Multiset.range dials

section Ledger

variable {owned : Multiset Nat} {table : Nat → Option File} {dials : Nat} {closed : List Nat}
  {fd : Nat}

theorem conn_update_of_ne {x : Nat} (f : Option File) (h : x ≠ fd) :
    conn (Function.update table fd f) x = conn table x := by
  simp [conn, Function.update_of_ne h]

theorem map_conn_update (f : Option File) (h : fd ∉ owned) :
    owned.map (conn (Function.update table fd f)) = owned.map (conn table) := by
  apply Multiset.map_congr rfl
  intro x hx
  exact conn_update_of_ne f (fun heq => h (heq ▸ hx))

/-- Only what the owned descriptors name matters. -/
theorem Ledger.congr (h : Ledger owned table dials closed) {table' : Nat → Option File}
    (htable : ∀ fd ∈ owned, table' fd = table fd) : Ledger owned table' dials closed where
  nodup := h.nodup
  isOpen := by
    intro fd hfd
    rw [htable fd hfd]
    exact h.isOpen fd hfd
  conns := by
    have hconn : owned.map (conn table') = owned.map (conn table) := by
      apply Multiset.map_congr rfl
      intro fd hfd
      simp only [conn, htable fd hfd]
    rw [hconn, h.conns]

/-- What happens at a descriptor of somebody else does not matter. -/
theorem Ledger.foreign (h : Ledger owned table dials closed) (hfd : fd ∉ owned)
    (f : Option File) : Ledger owned (Function.update table fd f) dials closed := by
  apply h.congr
  intro x hx
  have hne : x ≠ fd := fun heq => hfd (heq ▸ hx)
  rw [Function.update_of_ne hne]

/-- A number that is not an open connection of the pool is not owned. -/
theorem Ledger.not_owned (h : Ledger owned table dials closed)
    (hfd : ∀ n, table fd ≠ some (.backend n)) : fd ∉ owned := by
  intro hmem
  obtain ⟨n, hn⟩ := h.isOpen fd hmem
  exact hfd n hn

/-- A dial opens a free number. -/
theorem Ledger.dial (h : Ledger owned table dials closed) (hfree : table fd = none) :
    Ledger ({fd} + owned) (Function.update table fd (some (.backend dials))) (dials + 1)
      closed := by
  have hfd : fd ∉ owned := h.not_owned (by simp [hfree])
  have hframe := h.foreign hfd (some (.backend dials))
  refine ⟨?_, ?_, ?_⟩
  · rw [Multiset.singleton_add, Multiset.nodup_cons]
    exact ⟨hfd, h.nodup⟩
  · intro x hx
    rcases Multiset.mem_add.mp hx with hx | hx
    · rw [Multiset.mem_singleton.mp hx, Function.update_self]
      exact ⟨dials, rfl⟩
    · exact hframe.isOpen x hx
  · rw [Multiset.map_add, Multiset.map_singleton, add_left_comm, hframe.conns,
      Multiset.singleton_add, Multiset.range_succ]
    simp [conn]

/-- A close frees the number of one owned connection. -/
theorem Ledger.close (h : Ledger ({fd} + owned) table dials closed) :
    ∃ n, table fd = some (.backend n) ∧
      Ledger owned (Function.update table fd none) dials (closed ++ [n]) := by
  have hnodup := h.nodup
  rw [Multiset.singleton_add, Multiset.nodup_cons] at hnodup
  obtain ⟨n, hn⟩ := h.isOpen fd (by simp)
  refine ⟨n, hn, hnodup.2, ?_, ?_⟩
  · intro x hx
    have hne : x ≠ fd := fun heq => hnodup.1 (heq ▸ hx)
    rw [Function.update_of_ne hne]
    exact h.isOpen x (Multiset.mem_add.mpr (.inr hx))
  · have hconns := h.conns
    have hconn : conn table fd = n := by simp [conn, hn]
    rw [Multiset.map_add, Multiset.map_singleton, hconn] at hconns
    rw [map_conn_update none hnodup.1, ← hconns, ← Multiset.coe_add, Multiset.coe_singleton,
      add_assoc]

end Ledger

/-- The ledger of a state. -/
def State.Ledger (s : State) : Prop :=
  BackendPool.Ledger s.owned s.table s.dials s.closed ∧ s.badCloses = 0

/-- The pool closes a descriptor that it gives up. -/
theorem State.Ledger.close (hl : s.Ledger) {fd : Nat} {owned : Multiset Nat}
    (h : s.owned = {fd} + owned) :
    BackendPool.Ledger owned (s.closeFd fd).table s.dials (s.closeFd fd).closed ∧
      (s.closeFd fd).badCloses = 0 := by
  obtain ⟨hledger, hbad⟩ := hl
  rw [h] at hledger
  obtain ⟨n, hn, hclosed⟩ := hledger.close
  simp only [State.closeFd, hn]
  exact ⟨hclosed, hbad⟩

/-- A caller moves on with the same descriptor, or without one. -/
theorem owned_setCaller {i : Nat} {c c' : Caller} (hi : s.callers[i]? = some c)
    (hfds : c.fds = c'.fds) :
    fdsOf s.idle + fdsOf s.reaper.slots + total Caller.fds (s.callers.set i c') = s.owned := by
  rw [total_set_of_eq Caller.fds hi hfds]
  rfl

/-- A caller without a descriptor gets one. -/
theorem total_fds_gain {i fd : Nat} {c : Caller} (c' : Caller) (hi : s.callers[i]? = some c)
    (hc : c.fds = 0) (hc' : c'.fds = {fd}) :
    total Caller.fds (s.callers.set i c') = total Caller.fds s.callers + {fd} := by
  have hset := total_set Caller.fds c' hi
  rw [hc, hc', add_zero] at hset
  exact hset

/-- A caller gives its descriptor away. -/
theorem total_fds_lose {i fd : Nat} {c : Caller} (c' : Caller) (hi : s.callers[i]? = some c)
    (hc : c.fds = {fd}) (hc' : c'.fds = 0) :
    total Caller.fds (s.callers.set i c') + {fd} = total Caller.fds s.callers := by
  have hset := total_set Caller.fds c' hi
  rw [hc, hc', add_zero] at hset
  exact hset

/-- A sweep moves the idle connections into the reaper's deques, but for those
that it leaves. -/
theorem owned_sweep (o : Options) {d : Int} (hpc : s.reaper = .waiting d) :
    (s.sweep o).owned = s.owned := by
  have hsplit : fdsOf (s.idle.filter (Slot.expired o s.now)) +
      fdsOf (s.idle.filter (fun slot => !slot.expired o s.now)) = fdsOf s.idle := by
    rw [← fdsOf_append]
    exact Multiset.coe_eq_coe.mpr ((List.filter_append_perm _ _).map Slot.fd)
  simp only [State.owned, State.sweep, Reaper.slots, hpc, fdsOf_append, fdsOf_nil, ← hsplit]
  split
  next =>
    rw [fdsOf_nil]
    abel
  next =>
    rw [fdsOf_nil]
    abel

theorem ledger_step (h : Step o s e s') (hl : s.Ledger) : s'.Ledger := by
  have hkeep : ∀ {owned : Multiset Nat}, owned = s.owned →
      BackendPool.Ledger owned s.table s.dials s.closed ∧ s.badCloses = 0 := by
    intro owned howned
    rw [howned]
    exact hl
  cases h with
  | clock | shutdownAgain | shutdown | shutdownUnlock | shutdownReturn => exact hl
  | foreignOpen hfree => exact ⟨hl.1.foreign (hl.1.not_owned (by simp [hfree])) _, hl.2⟩
  | foreignClose hother => exact ⟨hl.1.foreign (hl.1.not_owned (by simp [hother])) _, hl.2⟩
  | borrow => exact hkeep (by simp [State.owned, Caller.fds])
  | borrowAbort hi hd => exact hkeep (owned_setCaller hi (Caller.fds_of_atLock hd))
  | @borrowIdle i c d slot rest hi hd _ _ hidle =>
      apply hkeep
      have hgain := total_fds_gain (.held slot.fd) hi (Caller.fds_of_atLock hd) rfl
      simp only [State.owned, hgain, hidle, fdsOf_cons]
      abel
  | borrowDial hi hd => exact hkeep (owned_setCaller hi (Caller.fds_of_atLock hd))
  | borrowSleep hi hd => exact hkeep (owned_setCaller hi (Caller.fds_of_atLock hd))
  | borrowTimeout hi hd => exact hkeep (owned_setCaller hi (Caller.fds_of_inWait hd))
  | @dialOk i fd hi hfree =>
      have hgain := @total_fds_gain s _ fd _
        (if o.metrics = true then .dialled fd else .held fd) hi rfl (by split <;> rfl)
      have howned : fdsOf s.idle + fdsOf s.reaper.slots +
          total Caller.fds (s.callers.set i (if o.metrics = true then .dialled fd else .held fd)) =
          {fd} + s.owned := by
        rw [hgain, State.owned]
        abel
      refine ⟨?_, hl.2⟩
      show BackendPool.Ledger (fdsOf s.idle + fdsOf s.reaper.slots + _) _ _ _
      rw [howned]
      exact hl.1.dial hfree
  | dialFailLock hi _ hcallers =>
      apply hkeep
      simp only [State.owned]
      rw [hcallers.total_eq borrowCv_fds_wake]
      exact owned_setCaller hi rfl
  | borrowSpurious hi | dialFail hi | incPoolCreate hi | incPoolBorrow hi | release ok hi
  | sample hi => exact hkeep (owned_setCaller hi rfl)
  | @releaseKeep i fd _ _ hi _ hcallers =>
      apply hkeep
      have hlose := total_fds_lose .released hi rfl rfl
      simp only [State.owned, hcallers.total_eq borrowCv_fds_wake, fdsOf_append, fdsOf_cons,
        fdsOf_nil, ← hlose]
      abel
  | releaseDrop hi _ hcallers =>
      apply hkeep
      simp only [State.owned]
      rw [hcallers.total_eq borrowCv_fds_wake]
      exact owned_setCaller hi rfl
  | @releaseClose i fd hi =>
      apply hl.close
      have hlose := total_fds_lose .released hi rfl rfl
      simp only [State.owned, State.setCaller, State.closeFd, ← hlose]
      abel
  | @shutdownClose slot rest _ hidle =>
      apply hl.close
      simp only [State.owned, State.closeFd, hidle, fdsOf_cons]
      abel
  | shutdownNotify =>
      apply hkeep
      simp only [State.owned]
      rw [CondVar.total_notifyAll borrowCv_fds_wake]
  | reaperExit _ _ hpc =>
      apply hkeep
      rcases hpc with hpc | ⟨d, hpc⟩ <;> simp only [State.owned, hpc, Reaper.slots]
  | reaperWait _ _ hpc =>
      apply hkeep
      simp only [State.owned, hpc, Reaper.slots]
  | sweep _ _ hpc => exact hkeep (owned_sweep o hpc)
  | pushBack _ hpc =>
      apply hkeep
      simp only [State.owned, hpc, Reaper.slots, fdsOf_append, fdsOf_nil]
      abel
  | closeVictim hpc =>
      apply hl.close
      simp only [State.owned, State.closeFd, hpc, Reaper.slots, List.cons_append, fdsOf_cons]
      abel
  | victimsClosed hpc =>
      apply hkeep
      simp only [State.owned, hpc, Reaper.slots, List.append_nil]
  | startPings hpc =>
      apply hkeep
      simp only [State.owned, hpc, Reaper.slots, List.append_nil, List.nil_append]
  | pingsDone hpc =>
      apply hkeep
      simp only [State.owned, hpc, Reaper.slots, List.nil_append, fdsOf_append]
      abel
  | closeDead hpc =>
      apply hl.close
      simp only [State.owned, State.closeFd, hpc, Reaper.slots, List.cons_append, fdsOf_cons]
      abel
  | deadClosed hpc =>
      apply hkeep
      simp only [State.owned, hpc, Reaper.slots, List.nil_append]
  | pingOk hpc =>
      apply hkeep
      simp only [State.owned, hpc, Reaper.slots, List.cons_append, fdsOf_cons, fdsOf_append,
        fdsOf_nil]
      abel
  | pingFail hpc =>
      apply hkeep
      simp only [State.owned, hpc, Reaper.slots, List.cons_append, fdsOf_cons, fdsOf_append,
        fdsOf_nil]
      abel

/-! ## The table -/

/-- The table after a close. -/
theorem closeFd_table_eq {fd fd' : Nat} {n : Nat}
    (h : (s.closeFd fd).table fd' = some (.backend n)) : s.table fd' = some (.backend n) := by
  by_cases heq : fd' = fd
  · subst heq
    simp [State.closeFd] at h
  · have h : Function.update s.table fd none fd' = some (.backend n) := h
    rwa [Function.update_of_ne heq] at h

/-- A connection was there before the step, unless it is the one that was
dialled. -/
theorem table_step (h : Step o s e s') {fd n : Nat} (hfd : s'.table fd = some (.backend n)) :
    s.table fd = some (.backend n) ∨ (s.table fd = none ∧ n = s.dials) := by
  cases h with
  | @foreignOpen fd' _ | @foreignClose fd' _ =>
      simp only [Function.update_apply] at hfd
      split at hfd
      next => cases hfd
      next => exact .inl hfd
  | @dialOk i fd' _ hfree =>
      simp only [Function.update_apply] at hfd
      split at hfd
      next heq =>
        cases hfd
        exact .inr ⟨heq ▸ hfree, rfl⟩
      next => exact .inl hfd
  | releaseClose | shutdownClose | closeVictim | closeDead => exact .inl (closeFd_table_eq hfd)
  | clock | borrow | borrowAbort | borrowIdle | borrowDial | borrowSleep | borrowTimeout
  | borrowSpurious | dialFail | dialFailLock | incPoolCreate | incPoolBorrow | release | sample
  | releaseKeep | releaseDrop | shutdownAgain | shutdown | shutdownUnlock | shutdownNotify
  | shutdownReturn | reaperExit | reaperWait | sweep | pushBack | victimsClosed | startPings
  | pingsDone | deadClosed | pingOk | pingFail => exact .inl hfd

/-! ## Connections in use -/

/-- What a caller adds to `in_use_`: a dial in progress, or a descriptor whose
`release` has not had its critical section. -/
def Caller.leases : Caller → Nat
  | .dialing | .dialFailed | .dialled _ | .created _ | .held _ | .releasing _ _ | .sampled _ _ => 1
  | _ => 0

theorem Caller.leases_of_atLock {c : Caller} {d : Int} (h : c.atLock = some d) :
    c.leases = 0 := by
  cases c <;> simp_all [atLock, leases]

theorem Caller.leases_of_inWait {c : Caller} {d : Int} (h : c.inWait = some d) :
    c.leases = 0 := by
  cases c <;> simp_all [inWait, leases]

theorem borrowCv_leases_wake (c : Caller) (h : borrowCv.asleep c = true) :
    (borrowCv.wake c).leases = c.leases := by
  obtain ⟨d, rfl, hwake⟩ := borrowCv_wake h
  rw [hwake]
  rfl

theorem inUse_step (h : Step o s e s') (hu : s.inUse = total Caller.leases s.callers) :
    s'.inUse = total Caller.leases s'.callers := by
  have hsame : ∀ {i : Nat} {c c' : Caller}, s.callers[i]? = some c → c.leases = c'.leases →
      s.inUse = total Caller.leases (s.callers.set i c') := by
    intro i c c' hi heq
    rw [total_set_of_eq Caller.leases hi heq, hu]
  have hgain : ∀ {i : Nat} {c c' : Caller}, s.callers[i]? = some c → c.leases = 0 →
      c'.leases = 1 → s.inUse + 1 = total Caller.leases (s.callers.set i c') := by
    intro i c c' hi hc hc'
    have hset := total_set Caller.leases c' hi
    omega
  have hlose : ∀ {i : Nat} {c : Caller} (c' : Caller), s.callers[i]? = some c → c.leases = 1 →
      c'.leases = 0 → s.inUse = total Caller.leases (s.callers.set i c') + 1 := by
    intro i c c' hi hc hc'
    have hset := total_set Caller.leases c' hi
    omega
  cases h with
  | borrow =>
      show s.inUse = total Caller.leases (s.callers ++ [_])
      rw [total_append, ← hu]
      rfl
  | borrowAbort hi hd => exact hsame hi (Caller.leases_of_atLock hd)
  | borrowIdle hi hd => exact hgain hi (Caller.leases_of_atLock hd) rfl
  | borrowDial hi hd => exact hgain hi (Caller.leases_of_atLock hd) rfl
  | borrowSleep hi hd => exact hsame hi (Caller.leases_of_atLock hd)
  | borrowTimeout hi hd => exact hsame hi (Caller.leases_of_inWait hd)
  | dialOk hi => exact hsame hi (by split <;> rfl)
  | dialFailLock hi _ hcallers =>
      have hless := hlose (.failed .dial) hi rfl rfl
      show s.inUse - 1 = total Caller.leases _
      rw [hcallers.total_eq borrowCv_leases_wake]
      omega
  | releaseKeep hi _ hcallers =>
      have hless := hlose .released hi rfl rfl
      show (if 0 < s.inUse then s.inUse - 1 else s.inUse) = total Caller.leases _
      rw [hcallers.total_eq borrowCv_leases_wake, if_pos (by omega)]
      omega
  | @releaseDrop i fd _ _ hi _ hcallers =>
      have hless := hlose (.closing fd) hi rfl rfl
      show (if 0 < s.inUse then s.inUse - 1 else s.inUse) = total Caller.leases _
      rw [hcallers.total_eq borrowCv_leases_wake, if_pos (by omega)]
      omega
  | borrowSpurious hi | dialFail hi | incPoolCreate hi | incPoolBorrow hi | release ok hi
  | sample hi | releaseClose hi => exact hsame hi rfl
  | shutdownNotify =>
      show s.inUse = total Caller.leases (borrowCv.notifyAll s.callers)
      rw [CondVar.total_notifyAll borrowCv_leases_wake, hu]
  | clock | foreignOpen | foreignClose | shutdownAgain | shutdown | shutdownClose | shutdownUnlock
  | shutdownReturn | reaperExit | reaperWait | sweep | pushBack | closeVictim | victimsClosed
  | startPings | pingsDone | closeDead | deadClosed | pingOk | pingFail => exact hu

/-! ## The counters -/

/-- A successful dial that `inc_pool_create` has not counted. -/
def Caller.uncounted : Caller → Nat
  | .dialled _ => 1
  | _ => 0

/-- A call of `borrow` that returned a descriptor. -/
def Caller.borrowed : Caller → Nat
  | .held _ | .releasing _ _ | .sampled _ _ | .closing _ | .released => 1
  | _ => 0

/-- A call of `borrow` that has not returned. -/
def Caller.inBorrow : Caller → Bool
  | .entered _ | .asleep _ | .notified _ | .spurious _ | .dialing | .dialFailed | .dialled _
  | .created _ => true
  | _ => false

/-- What the two counters of the pool count. -/
structure Metered (creates borrows dials : Nat) (callers : List Caller) : Prop where
  creates_eq : creates + total Caller.uncounted callers = dials
  borrows_eq : borrows = total Caller.borrowed callers

def State.Metered (s : State) : Prop := BackendPool.Metered s.creates s.borrows s.dials s.callers

/-- One caller moves, and the counters with it. -/
theorem Metered.set {creates creates' borrows borrows' dials dials' i : Nat}
    {callers : List Caller} {c c' : Caller} (h : Metered creates borrows dials callers)
    (hi : callers[i]? = some c)
    (hcreates : creates' + c'.uncounted + dials = creates + c.uncounted + dials')
    (hborrows : borrows' + c.borrowed = borrows + c'.borrowed) :
    Metered creates' borrows' dials' (callers.set i c') where
  creates_eq := by
    have hset := total_set Caller.uncounted c' hi
    have hold := h.creates_eq
    omega
  borrows_eq := by
    have hset := total_set Caller.borrowed c' hi
    have hold := h.borrows_eq
    omega

theorem Metered.keep {creates borrows dials i : Nat} {callers : List Caller} {c : Caller}
    (h : Metered creates borrows dials callers) (c' : Caller) (hi : callers[i]? = some c)
    (huncounted : c.uncounted = c'.uncounted) (hborrowed : c.borrowed = c'.borrowed) :
    Metered creates borrows dials (callers.set i c') :=
  h.set hi (by rw [huncounted]) (by rw [hborrowed])

theorem Caller.unmetered_of_atLock {c : Caller} {d : Int} (h : c.atLock = some d) :
    c.uncounted = 0 ∧ c.borrowed = 0 := by
  cases c <;> simp_all [atLock, uncounted, borrowed]

theorem Caller.unmetered_of_inWait {c : Caller} {d : Int} (h : c.inWait = some d) :
    c.uncounted = 0 ∧ c.borrowed = 0 := by
  cases c <;> simp_all [inWait, uncounted, borrowed]

theorem borrowCv_uncounted_wake (c : Caller) (h : borrowCv.asleep c = true) :
    (borrowCv.wake c).uncounted = c.uncounted := by
  obtain ⟨d, rfl, hwake⟩ := borrowCv_wake h
  rw [hwake]
  rfl

theorem borrowCv_borrowed_wake (c : Caller) (h : borrowCv.asleep c = true) :
    (borrowCv.wake c).borrowed = c.borrowed := by
  obtain ⟨d, rfl, hwake⟩ := borrowCv_wake h
  rw [hwake]
  rfl

theorem Metered.notifyOne {creates borrows dials : Nat} {callers callers' : List Caller}
    (h : Metered creates borrows dials callers) (hn : borrowCv.NotifiesOne callers callers') :
    Metered creates borrows dials callers' where
  creates_eq := by rw [hn.total_eq borrowCv_uncounted_wake, h.creates_eq]
  borrows_eq := by rw [hn.total_eq borrowCv_borrowed_wake, h.borrows_eq]

theorem metered_step (hmetrics : o.metrics = true) (h : Step o s e s') (hm : s.Metered) :
    s'.Metered := by
  have hlock : ∀ {i : Nat} {c c' : Caller} {d : Int}, s.callers[i]? = some c →
      c.atLock = some d → c'.uncounted = 0 → c'.borrowed = 0 →
      BackendPool.Metered s.creates s.borrows s.dials (s.callers.set i c') := by
    intro i c c' d hi hd huncounted hborrowed
    obtain ⟨hc, hc'⟩ := Caller.unmetered_of_atLock hd
    exact hm.keep _ hi (hc.trans huncounted.symm) (hc'.trans hborrowed.symm)
  cases h with
  | borrow =>
      constructor
      · simp [Caller.uncounted, hm.creates_eq]
      · simp [Caller.borrowed, hm.borrows_eq]
  | borrowAbort hi hd => exact hlock hi hd rfl rfl
  | borrowIdle hi hd =>
      obtain ⟨huncounted, hborrowed⟩ := Caller.unmetered_of_atLock hd
      refine hm.set hi ?_ ?_
      · rw [huncounted]
        rfl
      · rw [if_pos hmetrics, hborrowed]
        rfl
  | borrowDial hi hd => exact hlock hi hd rfl rfl
  | borrowSleep hi hd => exact hlock hi hd rfl rfl
  | borrowTimeout hi hd =>
      obtain ⟨huncounted, hborrowed⟩ := Caller.unmetered_of_inWait hd
      exact hm.keep _ hi huncounted hborrowed
  | dialOk hi =>
      rw [if_pos hmetrics]
      refine hm.set hi ?_ rfl
      show s.creates + 1 + s.dials = s.creates + 0 + (s.dials + 1)
      omega
  | dialFailLock hi _ hcallers =>
      exact (hm.keep (.failed .dial) hi rfl rfl).notifyOne hcallers
  | incPoolCreate hi => exact hm.set hi rfl rfl
  | incPoolBorrow hi => exact hm.set hi rfl rfl
  | releaseKeep hi _ hcallers => exact (hm.keep .released hi rfl rfl).notifyOne hcallers
  | @releaseDrop i fd _ _ hi _ hcallers =>
      exact (hm.keep (.closing fd) hi rfl rfl).notifyOne hcallers
  | borrowSpurious hi | dialFail hi | release ok hi | sample hi | releaseClose hi =>
      exact hm.keep _ hi rfl rfl
  | shutdownNotify =>
      constructor
      · show s.creates + total Caller.uncounted (borrowCv.notifyAll s.callers) = s.dials
        rw [CondVar.total_notifyAll borrowCv_uncounted_wake, hm.creates_eq]
      · show s.borrows = total Caller.borrowed (borrowCv.notifyAll s.callers)
        rw [CondVar.total_notifyAll borrowCv_borrowed_wake, hm.borrows_eq]
  | clock | foreignOpen | foreignClose | shutdownAgain | shutdown | shutdownClose | shutdownUnlock
  | shutdownReturn | reaperExit | reaperWait | sweep | pushBack | closeVictim | victimsClosed
  | startPings | pingsDone | closeDead | deadClosed | pingOk | pingFail => exact hm

/-! ## Reachable states -/

theorem Options.normalise_metrics (o : Options) : o.normalise.metrics = o.metrics := by
  simp only [normalise]
  split <;> split <;> rfl

/-- A new pool owns nothing. -/
theorem ledger_new (kernel : Kernel) : State.Ledger { kernel, ({} : Pool) with } := by
  refine ⟨⟨Multiset.nodup_zero, ?_, rfl⟩, rfl⟩
  intro fd hfd
  cases hfd

theorem reachable_ledger (h : (machine o).Reachable s) : s.Ledger :=
  h.invariant (P := State.Ledger) (ledger_new {})
    (fun _ _ _ hl hstep => ledger_step (step_cases hstep) hl)

theorem reachable_inUse (h : (machine o).Reachable s) :
    s.inUse = total Caller.leases s.callers :=
  h.invariant (P := fun t => t.inUse = total Caller.leases t.callers) rfl
    (fun _ _ _ hu hstep => inUse_step (step_cases hstep) hu)

theorem reachable_metered (hmetrics : o.metrics = true) (h : (machine o).Reachable s) :
    s.Metered := by
  refine h.invariant (P := State.Metered) ⟨rfl, rfl⟩ ?_
  intro t e t' hm hstep
  exact metered_step (o.normalise_metrics.trans hmetrics) (step_cases hstep) hm

theorem Caller.uncounted_of_inBorrow {c : Caller} (h : c.inBorrow = false) : c.uncounted = 0 := by
  cases c <;> simp_all [inBorrow, uncounted]

/-- What holds of the descriptors and of the counters, in every reachable state. -/
theorem reachable_owned (o : Options) {s : State} (h : (machine o).Reachable s) :
    s.owned.Nodup ∧
      (∀ fd ∈ s.owned, ∃ n, s.table fd = some (.backend n)) ∧
      s.badCloses = 0 ∧ s.closed.Nodup ∧
      s.inUse = total Caller.leases s.callers ∧
      (∀ c ∈ s.callers, c = .dialFailed ∨ (∃ fd closeIt, c = .sampled fd closeIt) → 0 < s.inUse) ∧
      (o.metrics = true → (∀ c ∈ s.callers, c.inBorrow = false) →
        s.creates = s.dials ∧ s.borrows = total Caller.borrowed s.callers) := by
  obtain ⟨hledger, hbad⟩ := reachable_ledger h
  have hinUse := reachable_inUse h
  have hclosed : s.closed.Nodup := by
    have hrange := Multiset.nodup_range s.dials
    rw [← hledger.conns] at hrange
    exact Multiset.coe_nodup.mp (Multiset.nodup_add.mp hrange).1
  refine ⟨hledger.nodup, hledger.isOpen, hbad, hclosed, hinUse, ?_, ?_⟩
  · intro c hc hpc
    have hle := le_total Caller.leases hc
    have hlease : c.leases = 1 := by
      rcases hpc with rfl | ⟨fd, closeIt, rfl⟩ <;> rfl
    omega
  · intro hmetrics hreturned
    have hm := reachable_metered hmetrics h
    have hzero : total Caller.uncounted s.callers = 0 :=
      total_eq_zero _ (fun c hc => Caller.uncounted_of_inBorrow (hreturned c hc))
    have hcreates := hm.creates_eq
    rw [hzero, add_zero] at hcreates
    exact ⟨hcreates, hm.borrows_eq⟩

/-- A connection is dialled, released, pinged and borrowed again. -/
def borrowedAgain : List Event :=
  [.borrow, .borrowLock 0, .dialOk 0 3, .incPoolCreate 0, .incPoolBorrow 0, .release 0 true,
    .sample 0, .releaseLock 0 none, .reaperLock, .clock 10000, .reaperLock, .reaperStep, .ping true,
    .reaperStep, .reaperStep, .reaperLock, .borrow, .borrowLock 1]

end InferenceRouter.BackendPool
