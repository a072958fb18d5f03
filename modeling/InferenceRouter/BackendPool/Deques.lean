import InferenceRouter.BackendPool.Ownership

/-!
# The deques as they stand in memory

`BackendPool.Model` follows a connection from place to place.  The code does not move it: a slot
that was pinged is copied into `survivors` or `dead` and stays in `to_check`, the survivors are
copied back into `idle_` and stay in `survivors`, and both deques last to the end of the loop
body.  A loop that closes a deque closes the front first and pops it afterwards, so that a closed
number is stored for a while.

Here the reaper and `shutdown` have their deques as they are, and the rest of the pool moves as
in `BackendPool.Model`.  `State.settled` leaves out the entries that the code does not come back
to, and under it every step here is a step there, or none (`settled_projection`).  So what is
true of the connections in their places there is true here of the entries that are still of use
(`State.live`).  It is not true of all entries that are stored (`State.stored`).
-/

namespace InferenceRouter.BackendPool.Deques

open Interleaving

/-! ## State -/

/-- The reaper thread, with its local deques. -/
inductive Reaper where
  /-- At the head of the loop, before `mu_`. -/
  | loopHead
  /-- In `reaper_cv_.wait_for`. -/
  | waiting (deadline : Int)
  /-- In `close_idle_(victims)`, at the test of its loop. -/
  | closingVictims (victims toCheck : List Slot)
  /-- The front is closed, before `pop_front`. -/
  | poppingVictim (victims toCheck : List Slot)
  /-- In the loop of health pings, at the `next` entry of `to_check`. -/
  | pinging (next : Nat) (toCheck survivors dead : List Slot)
  /-- In `close_idle_(dead)`, at the test of its loop. -/
  | closingDead (toCheck survivors dead : List Slot)
  | poppingDead (toCheck survivors dead : List Slot)
  /-- Before `mu_` and the loop that pushes the survivors back. -/
  | pushBack (toCheck survivors : List Slot)
  /-- `mu_` is free again, at the end of the loop body. -/
  | leaving (toCheck survivors : List Slot)
  | exited

/-- The thread inside `shutdown`. -/
inductive Shutdown where
  | idle
  /-- Holds `mu_`, at the test of the loop that closes the idle ones. -/
  | closing
  /-- Holds `mu_`, with the front closed, before `pop_front`. -/
  | popping
  /-- Before `cv_.notify_all()`. -/
  | notifying
  /-- Before `reaper_cv_.notify_all()`. -/
  | notifyingReaper
  | returned

structure State extends Kernel where
  idle : List Slot := []
  inUse : Nat := 0
  shuttingDown : Bool := false
  callers : List Caller := []
  reaper : Reaper := .loopHead
  shutdown : Shutdown := .idle
  creates : Nat := 0
  borrows : Nat := 0
  dials : Nat := 0
  closed : List Nat := []
  badCloses : Nat := 0

/-! ## What is still of use -/

/-- The reaper, without the entries that it does not come back to. -/
def Reaper.settled : Reaper → BackendPool.Reaper
  | .loopHead | .leaving _ _ => .loopHead
  | .waiting deadline => .waiting deadline
  | .closingVictims victims toCheck => .closingVictims victims toCheck
  | .poppingVictim victims toCheck => .closingVictims victims.tail toCheck
  | .pinging next toCheck survivors dead => .pinging (toCheck.drop next) survivors dead
  | .closingDead _ survivors dead => .closingDead dead survivors
  | .poppingDead _ survivors dead => .closingDead dead.tail survivors
  | .pushBack _ survivors => .pushBack survivors
  | .exited => .exited

def Shutdown.settled : Shutdown → BackendPool.Shutdown
  | .idle => .idle
  | .closing | .popping => .closing
  | .notifying => .notifying
  | .notifyingReaper => .notifyingReaper
  | .returned => .returned

/-- `idle_`, without a front that `shutdown` has closed. -/
def State.openIdle (s : State) : List Slot :=
  match s.shutdown with
  | .popping => s.idle.tail
  | _ => s.idle

def State.settled (s : State) : BackendPool.State where
  now := s.now
  table := s.table
  idle := s.openIdle
  inUse := s.inUse
  shuttingDown := s.shuttingDown
  callers := s.callers
  reaper := s.reaper.settled
  shutdown := s.shutdown.settled
  creates := s.creates
  borrows := s.borrows
  dials := s.dials
  closed := s.closed
  badCloses := s.badCloses

/-! ## Steps -/

/-- `mu_` is free between two steps, unless `shutdown` is in its loop. -/
def State.unlocked (s : State) : Bool :=
  match s.shutdown with
  | .closing | .popping => false
  | _ => true

/-- `safe_close(fd)`. -/
def State.closeFd (s : State) (fd : Nat) : State :=
  let t := s.settled.closeFd fd
  { s with table := t.table, closed := t.closed, badCloses := t.badCloses }

/-- The loop of `shutdown`, and its notifications. -/
def State.shutdownStep (s : State) : Option State :=
  match s.shutdown with
  | .closing =>
      match s.idle with
      | slot :: _ => some { s.closeFd slot.fd with shutdown := .popping }
      | [] => some { s with shutdown := .notifying }
  | .popping => some { s with idle := s.idle.tail, shutdown := .closing }
  | .notifying =>
      some { s with shutdown := .notifyingReaper, callers := borrowCv.notifyAll s.callers }
  | .notifyingReaper => some { s with shutdown := .returned }
  | .idle | .returned => none

/-- The critical section after the wait. -/
def State.sweep (o : Options) (s : State) : State :=
  let victims := s.idle.filter (Slot.expired o s.now)
  let rest := s.idle.filter (fun slot => !slot.expired o s.now)
  { s with
    idle := if o.enableHealthCheck = true then [] else rest
    reaper := .closingVictims victims (if o.enableHealthCheck = true then rest else []) }

/-- The reaper's critical sections. -/
def State.reaperLock (o : Options) (s : State) : Option State :=
  if s.unlocked = true then
    match s.reaper with
    | .loopHead =>
        if s.shuttingDown = true then some { s with reaper := .exited }
        else some { s with reaper := .waiting (s.now + o.reaperWait) }
    | .waiting deadline =>
        if s.shuttingDown = true then some { s with reaper := .exited }
        else if deadline ≤ s.now then some (s.sweep o) else none
    | .pushBack toCheck survivors =>
        some { s with idle := s.idle ++ survivors, reaper := .leaving toCheck survivors }
    | _ => none
  else none

/-- The reaper's steps outside `mu_` other than pings. -/
def State.reaperStep (s : State) : Option State :=
  match s.reaper with
  | .closingVictims (v :: victims) toCheck =>
      some { s.closeFd v.fd with reaper := .poppingVictim (v :: victims) toCheck }
  | .poppingVictim victims toCheck =>
      some { s with reaper := .closingVictims victims.tail toCheck }
  | .closingVictims [] [] => some { s with reaper := .loopHead }
  | .closingVictims [] (c :: toCheck) => some { s with reaper := .pinging 0 (c :: toCheck) [] [] }
  | .pinging next toCheck survivors dead =>
      if toCheck.length ≤ next then some { s with reaper := .closingDead toCheck survivors dead }
      else none
  | .closingDead toCheck survivors (d :: dead) =>
      some { s.closeFd d.fd with reaper := .poppingDead toCheck survivors (d :: dead) }
  | .poppingDead toCheck survivors dead =>
      some { s with reaper := .closingDead toCheck survivors dead.tail }
  | .closingDead toCheck survivors [] => some { s with reaper := .pushBack toCheck survivors }
  | .leaving _ _ => some { s with reaper := .loopHead }
  | _ => none

/-- `health_ping_` of the next connection returns.  Its entry gets the time, and is copied. -/
def State.ping (s : State) (ok : Bool) : Option State :=
  match s.reaper with
  | .pinging next toCheck survivors dead =>
      match toCheck[next]? with
      | some c =>
          if ok = true then
            let c := { c with lastUsed := s.now }
            some { s with
              reaper := .pinging (next + 1) (toCheck.set next c) (survivors ++ [c]) dead }
          else some { s with reaper := .pinging (next + 1) toCheck survivors (dead ++ [c]) }
      | none => none
  | _ => none

/-- What a step of a caller does, or one of the kernel. -/
def State.resume (s : State) (t : BackendPool.State) : State :=
  { s with
    now := t.now
    table := t.table
    idle := if s.unlocked = true then t.idle else s.idle
    inUse := t.inUse
    shuttingDown := t.shuttingDown
    callers := t.callers
    creates := t.creates
    borrows := t.borrows
    dials := t.dials
    closed := t.closed
    badCloses := t.badCloses }

def step (o : Options) (s : State) : Event → Option State
  | .shutdown =>
      if s.unlocked = true then
        if s.shuttingDown = true then some s
        else some { s with shuttingDown := true, shutdown := .closing }
      else none
  | .shutdownStep => s.shutdownStep
  | .reaperLock => s.reaperLock o
  | .reaperStep => s.reaperStep
  | .ping ok => s.ping ok
  | e => (BackendPool.step o s.settled e).map s.resume

def machine (o : Options) : Machine State Event where
  init := {}
  step := step o.normalise

/-! ## Every step is a step of the pool, or none -/

variable {o : Options} {s s' : State}

/-- The events of the reaper and of `shutdown`. -/
def ownEvent : Event → Bool
  | .shutdown | .shutdownStep | .reaperLock | .reaperStep | .ping _ => true
  | _ => false

theorem step_caller {e : Event} (h : ownEvent e = false) :
    step o s e = (BackendPool.step o s.settled e).map s.resume := by
  cases e with
  | shutdown | shutdownStep | reaperLock | reaperStep | ping => cases h
  | _ => rfl

/-- A caller leaves the reaper and `shutdown` where they are, and without `mu_` also `idle_`. -/
theorem caller_frame {t t' : BackendPool.State} {e : Event} (h : ownEvent e = false)
    (hstep : BackendPool.Step o t e t') :
    t'.reaper = t.reaper ∧ t'.shutdown = t.shutdown ∧ (t.unlocked = false → t'.idle = t.idle) := by
  cases hstep with
  | shutdownAgain | shutdown | shutdownClose | shutdownUnlock | shutdownNotify | shutdownReturn
  | reaperExit | reaperWait | sweep | pushBack | closeVictim | victimsClosed | startPings
  | pingsDone | closeDead | deadClosed | pingOk | pingFail => cases h
  | borrowIdle _ _ hlock | releaseKeep _ hlock =>
      refine ⟨rfl, rfl, fun hlocked => ?_⟩
      rw [hlock] at hlocked
      cases hlocked
  | _ => exact ⟨rfl, rfl, fun _ => rfl⟩

theorem settled_unlocked (s : State) : s.settled.unlocked = s.unlocked := by
  simp only [State.unlocked, BackendPool.State.unlocked, State.settled]
  cases s.shutdown <;> rfl

theorem openIdle_of_unlocked (h : s.unlocked = true) : s.openIdle = s.idle := by
  simp only [State.openIdle]
  split
  next hpc => simp [State.unlocked, hpc] at h
  next => rfl

theorem settled_resume {t : BackendPool.State} (hreaper : t.reaper = s.reaper.settled)
    (hshutdown : t.shutdown = s.shutdown.settled)
    (hidle : s.unlocked = false → t.idle = s.openIdle) : (s.resume t).settled = t := by
  have hopen : (s.resume t).openIdle = t.idle := by
    cases hlock : s.unlocked with
    | true =>
        have hsame : (s.resume t).unlocked = true := hlock
        rw [openIdle_of_unlocked hsame]
        simp [State.resume, hlock]
    | false =>
        rw [hidle hlock]
        simp only [State.openIdle, State.resume, hlock]
        rfl
  obtain ⟨kernel, pool⟩ := t
  simp only [State.settled, hopen]
  simp only at hreaper hshutdown
  rw [show (s.resume _).reaper = s.reaper from rfl,
    show (s.resume _).shutdown = s.shutdown from rfl, ← hreaper, ← hshutdown]
  rfl

/-- A step there, or none. -/
def Matches (o : Options) (s s' : State) : Prop :=
  s'.settled = s.settled ∨ ∃ e, BackendPool.step o s.settled e = some s'.settled

theorem shutdownStep_matches (h : s.shutdownStep = some s') : Matches o s s' := by
  simp only [State.shutdownStep] at h
  split at h
  next hpc =>
    split at h
    next slot rest hidle =>
      cases h
      refine .inr ⟨.shutdownStep, ?_⟩
      simp [BackendPool.step, BackendPool.State.shutdownStep, State.settled, State.closeFd,
        State.openIdle, Shutdown.settled, BackendPool.State.closeFd, hpc, hidle]
    next hidle =>
      cases h
      refine .inr ⟨.shutdownStep, ?_⟩
      simp [BackendPool.step, BackendPool.State.shutdownStep, State.settled, State.openIdle,
        Shutdown.settled, hpc, hidle]
  next hpc =>
    -- the front is popped that was left out already
    cases h
    refine .inl ?_
    simp [State.settled, State.openIdle, Shutdown.settled, hpc]
  next hpc =>
    cases h
    refine .inr ⟨.shutdownStep, ?_⟩
    simp [BackendPool.step, BackendPool.State.shutdownStep, State.settled, State.openIdle,
      Shutdown.settled, hpc]
  next hpc =>
    cases h
    refine .inr ⟨.shutdownStep, ?_⟩
    simp [BackendPool.step, BackendPool.State.shutdownStep, State.settled, State.openIdle,
      Shutdown.settled, hpc]
  next => cases h
  next => cases h

theorem settled_sweep (hlock : s.unlocked = true) : (s.sweep o).settled = s.settled.sweep o := by
  have hafter : (s.sweep o).unlocked = true := hlock
  simp only [State.settled, openIdle_of_unlocked hlock, openIdle_of_unlocked hafter]
  rfl

theorem reaperLock_matches (h : s.reaperLock o = some s') : Matches o s s' := by
  simp only [State.reaperLock] at h
  split at h
  next hlock =>
    have hlock' := (settled_unlocked s).trans hlock
    have hidle : s.settled.idle = s.idle := openIdle_of_unlocked hlock
    refine .inr ⟨.reaperLock, ?_⟩
    simp only [BackendPool.step, BackendPool.State.reaperLock, hlock', if_true]
    split at h
    next hpc =>
      have hpc' : s.settled.reaper = .loopHead := congrArg Reaper.settled hpc
      rw [hpc']
      split at h
      next hshut =>
        cases h
        exact if_pos hshut
      next hshut =>
        cases h
        exact if_neg hshut
    next deadline hpc =>
      have hpc' : s.settled.reaper = .waiting deadline := congrArg Reaper.settled hpc
      rw [hpc']
      split at h
      next hshut =>
        cases h
        exact if_pos hshut
      next hshut =>
        split at h
        next hdue =>
          cases h
          have hdue' : deadline ≤ s.settled.now := hdue
          rw [settled_sweep hlock]
          exact (if_neg hshut).trans (if_pos hdue')
        next => cases h
    next toCheck survivors hpc =>
      have hpc' : s.settled.reaper = .pushBack survivors := congrArg Reaper.settled hpc
      cases h
      rw [hpc', hidle]
      refine congrArg some ?_
      simp only [State.settled]
      rw [openIdle_of_unlocked (by exact hlock)]
      rfl
    next => cases h
  next => cases h

theorem reaperStep_matches (h : s.reaperStep = some s') : Matches o s s' := by
  simp only [State.reaperStep] at h
  split at h
  next v victims toCheck hpc =>
    cases h
    refine .inr ⟨.reaperStep, ?_⟩
    have hpc' : s.settled.reaper = .closingVictims (v :: victims) toCheck :=
      congrArg Reaper.settled hpc
    simp only [BackendPool.step, BackendPool.State.reaperStep, hpc']
    rfl
  next victims toCheck hpc =>
    cases h
    refine .inl ?_
    simp only [State.settled, hpc]
    rfl
  next hpc =>
    cases h
    refine .inr ⟨.reaperStep, ?_⟩
    have hpc' : s.settled.reaper = .closingVictims [] [] := congrArg Reaper.settled hpc
    simp only [BackendPool.step, BackendPool.State.reaperStep, hpc']
    rfl
  next c toCheck hpc =>
    cases h
    refine .inr ⟨.reaperStep, ?_⟩
    have hpc' : s.settled.reaper = .closingVictims [] (c :: toCheck) := congrArg Reaper.settled hpc
    simp only [BackendPool.step, BackendPool.State.reaperStep, hpc']
    rfl
  next next' toCheck survivors dead hpc =>
    split at h
    next hend =>
      cases h
      refine .inr ⟨.reaperStep, ?_⟩
      have hpc' : s.settled.reaper = .pinging [] survivors dead := by
        rw [show s.settled.reaper = s.reaper.settled from rfl, hpc, Reaper.settled,
          List.drop_eq_nil_of_le hend]
      simp only [BackendPool.step, BackendPool.State.reaperStep, hpc']
      rfl
    next => cases h
  next toCheck survivors d dead hpc =>
    cases h
    refine .inr ⟨.reaperStep, ?_⟩
    have hpc' : s.settled.reaper = .closingDead (d :: dead) survivors :=
      congrArg Reaper.settled hpc
    simp only [BackendPool.step, BackendPool.State.reaperStep, hpc']
    rfl
  next toCheck survivors dead hpc =>
    cases h
    refine .inl ?_
    simp only [State.settled, hpc]
    rfl
  next toCheck survivors hpc =>
    cases h
    refine .inr ⟨.reaperStep, ?_⟩
    have hpc' : s.settled.reaper = .closingDead [] survivors := congrArg Reaper.settled hpc
    simp only [BackendPool.step, BackendPool.State.reaperStep, hpc']
    rfl
  next hpc =>
    cases h
    refine .inl ?_
    simp only [State.settled, hpc]
    rfl
  next => cases h

theorem ping_matches {ok : Bool} (h : s.ping ok = some s') : Matches o s s' := by
  simp only [State.ping] at h
  split at h
  next next' toCheck survivors dead hpc =>
    split at h
    next c hc =>
      have hlt := (List.getElem?_eq_some_iff.mp hc).1
      have hdrop : toCheck.drop next' = c :: toCheck.drop (next' + 1) := by
        rw [List.drop_eq_getElem_cons hlt, (List.getElem?_eq_some_iff.mp hc).2]
      have hpc' : s.settled.reaper = .pinging (c :: toCheck.drop (next' + 1)) survivors dead := by
        rw [show s.settled.reaper = s.reaper.settled from rfl, hpc, Reaper.settled, hdrop]
      refine .inr ⟨.ping ok, ?_⟩
      simp only [BackendPool.step, BackendPool.State.ping, hpc']
      split at h
      next hok =>
        cases h
        rw [if_pos hok]
        simp only [State.settled, Reaper.settled, List.drop_set_of_lt (Nat.lt_succ_self next')]
        rfl
      next hok =>
        cases h
        rw [if_neg hok]
        rfl
    next => cases h
  next => cases h

theorem step_matches {e : Event} (h : step o s e = some s') : Matches o s s' := by
  cases hown : ownEvent e with
  | false =>
      rw [step_caller hown] at h
      obtain ⟨t, ht, rfl⟩ := Option.map_eq_some_iff.mp h
      obtain ⟨hreaper, hshutdown, hidle⟩ := caller_frame hown (BackendPool.step_cases ht)
      rw [settled_unlocked] at hidle
      refine .inr ⟨e, ?_⟩
      rw [settled_resume hreaper hshutdown hidle]
      exact ht
  | true =>
      cases e with
      | shutdown =>
          simp only [step] at h
          split at h
          next hlock =>
            split at h
            next =>
              cases h
              exact .inl rfl
            next hshut =>
              cases h
              have hlock' := (settled_unlocked s).trans hlock
              have hshut' : ¬ s.settled.shuttingDown = true := hshut
              refine .inr ⟨.shutdown, ?_⟩
              simp only [BackendPool.step, hlock', if_true, if_neg hshut']
              simp only [State.settled, openIdle_of_unlocked hlock]
              rfl
          next => cases h
      | shutdownStep => exact shutdownStep_matches h
      | reaperLock => exact reaperLock_matches h
      | reaperStep => exact reaperStep_matches h
      | ping ok => exact ping_matches h
      | _ => cases hown

theorem settled_projection (o : Options) :
    Machine.Projection (machine o) (BackendPool.machine o) State.settled where
  init := rfl
  step := by
    intro s e s' h
    rcases step_matches h with hsame | ⟨e', he'⟩
    · exact ⟨[], by rw [hsame]; rfl⟩
    · exact ⟨[e'], Machine.exec_single_iff.mpr he'⟩

/-! ## Entries -/

/-- The entries of the reaper's deques. -/
def Reaper.stored : Reaper → List Slot
  | .closingVictims victims toCheck | .poppingVictim victims toCheck => victims ++ toCheck
  | .pinging _ toCheck survivors dead | .closingDead toCheck survivors dead
  | .poppingDead toCheck survivors dead => toCheck ++ (survivors ++ dead)
  | .pushBack toCheck survivors | .leaving toCheck survivors => toCheck ++ survivors
  | .loopHead | .waiting _ | .exited => []

/-- Every number that is stored in `idle_`, in a local deque of the reaper or with a caller, as
often as it is. -/
def State.stored (s : State) : Multiset Nat :=
  fdsOf s.idle + fdsOf s.reaper.stored + total Caller.fds s.callers

/-- The entries of the reaper's deques that are still of use: those of `to_check` that were not
pinged, those of `survivors` that were not pushed back, and those of the other two that were not
closed. -/
def Reaper.live : Reaper → List Slot
  | .closingVictims victims toCheck => victims ++ toCheck
  | .poppingVictim victims toCheck => victims.tail ++ toCheck
  | .pinging next toCheck survivors dead => toCheck.drop next ++ (survivors ++ dead)
  | .closingDead _ survivors dead => dead ++ survivors
  | .poppingDead _ survivors dead => dead.tail ++ survivors
  | .pushBack _ survivors => survivors
  | .loopHead | .waiting _ | .leaving _ _ | .exited => []

def State.live (s : State) : Multiset Nat :=
  fdsOf s.openIdle + fdsOf s.reaper.live + total Caller.fds s.callers

theorem settled_owned (s : State) : s.settled.owned = s.live := by
  have hslots : s.reaper.settled.slots = s.reaper.live := by cases s.reaper <;> rfl
  rw [State.live, ← hslots]
  rfl

/-- In every reachable state, whatever the options and the interleaving: the entries that are
still of use, and the descriptors in the callers' hands, are distinct, and each is open and a
connection of this pool; no close has hit anything else, and no connection was closed twice;
`in_use_` counts the dials in progress and the descriptors not yet released, so it is positive at
each of its decrements; and with metrics set and no `borrow` in progress, the counters are the
numbers of successful dials and of successful borrows. -/
theorem exclusively_owned (o : Options) {s : State} (h : (machine o).Reachable s) :
    s.live.Nodup ∧
      (∀ fd ∈ s.live, ∃ n, s.table fd = some (.backend n)) ∧
      s.badCloses = 0 ∧ s.closed.Nodup ∧
      s.inUse = total Caller.leases s.callers ∧
      (∀ c ∈ s.callers, c = .dialFailed ∨ (∃ fd closeIt, c = .sampled fd closeIt) → 0 < s.inUse) ∧
      (o.metrics = true → (∀ c ∈ s.callers, c.inBorrow = false) →
        s.creates = s.dials ∧ s.borrows = total Caller.borrowed s.callers) := by
  have howned := reachable_owned o ((settled_projection o).reachable h)
  rw [settled_owned] at howned
  exact howned

theorem exclusively_owned_borrowedAgain : ∃ s,
    (machine {}).run borrowedAgain = some s ∧ s.live = {3} ∧ s.creates = 1 ∧ s.borrows = 2 ∧
      s.live.Nodup ∧ s.inUse = total Caller.leases s.callers := by
  refine ⟨_, rfl, rfl, rfl, rfl, ?_⟩
  have h := exclusively_owned {} ⟨borrowedAgain, rfl⟩
  exact ⟨h.1, h.2.2.2.2.1⟩

/-- After a ping the number is stored twice, and it is in the reaper's deques still when a caller
has it again.  After a close it is stored until it is popped. -/
theorem stored_copies :
    (∃ s, (machine {}).run (borrowedAgain.take 13) = some s ∧ s.stored = {3, 3} ∧
      ¬ s.stored.Nodup) ∧
    (∃ s, (machine {}).run borrowedAgain = some s ∧ s.stored = {3, 3, 3} ∧ ¬ s.stored.Nodup) ∧
    ∃ s, (machine {}).run (borrowedAgain.take 8 ++ [.shutdown, .shutdownStep]) = some s ∧
      s.stored = {3} ∧ s.table 3 = none := by
  refine ⟨⟨_, rfl, rfl, ?_⟩, ⟨_, rfl, rfl, ?_⟩, _, rfl, rfl, rfl⟩
  · exact of_decide_eq_false rfl
  · exact of_decide_eq_false rfl

end InferenceRouter.BackendPool.Deques
