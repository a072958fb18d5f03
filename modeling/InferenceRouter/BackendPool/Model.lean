import InferenceRouter.Interleaving.Machine
import InferenceRouter.Interleaving.Threads
import Mathlib.Logic.Function.Basic

/-!
# The backend pool

The model of `BackendPool` (`backend_pool.cpp`): the idle connections and the
count of those in use under `mu_`, any number of threads that borrow a
connection and release it, the reaper thread, and the thread inside `shutdown`.

A caller goes through `borrow()`, holds the descriptor it got, and goes through
`release(fd, ok)` once.  Dials, health pings and closes happen outside `mu_` and
are steps of their own.  `release` loads `shutting_down_` before it takes `mu_`,
and that load is a step too.  `shutdown` keeps `mu_` while it closes the idle
connections one by one, so no other critical section runs in between; every
other critical section is one step.  In the loops that close a deque,
`safe_close` of the front and `pop_front` are one step, and a slot that was
pinged or pushed back leaves the deque it was in.  In the code it stays there
as a copy, to the end of the loop body: `BackendPool.Deques` has the deques as
they stand in memory, and every step there is a step here, or none.

The kernel part of the state is the clock and the descriptor table of the
process.  `close` frees a number and a later dial, here or elsewhere in the
process, may get it again.  The `n`-th connection that the pool dials is the
file `backend n`; the files of everybody else are `other`.  `safe_close` is one
step here (`State.closeFd`).  It is a loop, and may be taken as one step as long
as no retry finds its number in use: see `Connection.safe_close_exact_iff` and
`Connection.files_run`.

`dials`, `closed` and `badCloses` record what happened and are read by no step:
how many dials succeeded, which connections were closed, and how often a close
hit a number that was not an open connection of the pool.
-/

namespace InferenceRouter.BackendPool

open Interleaving

/-- `BackendPool::Options`, with durations in milliseconds.  `metrics` says
whether the pointer is set. -/
structure Options where
  maxSize : Nat := 16
  minIdle : Nat := 2
  idleTimeout : Int := 60000
  maxLifetime : Int := 300000
  healthCheckInterval : Int := 10000
  borrowTimeout : Int := 2000
  enableHealthCheck : Bool := true
  metrics : Bool := true

/-- What the constructor makes of the options. -/
def Options.normalise (o : Options) : Options :=
  let o := if o.maxSize = 0 then { o with maxSize := 1 } else o
  if o.maxSize < o.minIdle then { o with minIdle := o.maxSize } else o

/-- How long the reaper waits between two sweeps. -/
def Options.reaperWait (o : Options) : Int :=
  let wait := min o.healthCheckInterval o.idleTimeout
  if wait < 100 then 100 else wait

/-- `BackendPool::Slot`. -/
structure Slot where
  fd : Nat
  created : Int
  lastUsed : Int

/-- The values of `errno` with which `borrow` returns `-1`. -/
inductive Errno where
  | econnaborted
  | etimedout
  /-- Whatever the dial left. -/
  | dial

/-- A thread from its call of `borrow` to the end of its `release`. -/
inductive Caller where
  /-- In `borrow`, before `mu_`. -/
  | entered (deadline : Int)
  /-- Asleep on `cv_` and not notified. -/
  | asleep (deadline : Int)
  | notified (deadline : Int)
  /-- Woken without a notification. -/
  | spurious (deadline : Int)
  /-- In `dial_one_`. -/
  | dialing
  /-- The dial failed, before `mu_`. -/
  | dialFailed
  /-- The dial succeeded, before `inc_pool_create`. -/
  | dialled (fd : Nat)
  /-- Before `inc_pool_borrow`. -/
  | created (fd : Nat)
  /-- `borrow` returned the descriptor. -/
  | held (fd : Nat)
  /-- In `release`, before the load of `shutting_down_`. -/
  | releasing (fd : Nat) (ok : Bool)
  /-- In `release`, before `mu_`. -/
  | sampled (fd : Nat) (closeIt : Bool)
  /-- In `release`, before `safe_close`. -/
  | closing (fd : Nat)
  | released
  /-- `borrow` returned `-1`. -/
  | failed (errno : Errno)

/-- The reaper thread, with its local deques. -/
inductive Reaper where
  /-- At the head of the loop, before `mu_`. -/
  | loopHead
  /-- In `reaper_cv_.wait_for`. -/
  | waiting (deadline : Int)
  /-- In `close_idle_(victims)`. -/
  | closingVictims (victims toCheck : List Slot)
  /-- In the loop of health pings. -/
  | pinging (toCheck survivors dead : List Slot)
  /-- In `close_idle_(dead)`. -/
  | closingDead (dead survivors : List Slot)
  /-- Before `mu_` and the loop that pushes the survivors back. -/
  | pushBack (survivors : List Slot)
  | exited

/-- The thread inside `shutdown`. -/
inductive Shutdown where
  | idle
  /-- Holds `mu_`, with the flag set, in the loop that closes the idle ones. -/
  | closing
  /-- Before `cv_.notify_all()`. -/
  | notifying
  /-- Before `reaper_cv_.notify_all()`. -/
  | notifyingReaper
  | returned

/-- An open file: a connection of the pool, or anything else. -/
inductive File where
  | backend (n : Nat)
  | other
  deriving DecidableEq

/-- The clock and the descriptor table. -/
structure Kernel where
  now : Int := 0
  table : Nat → Option File := fun _ => none

/-- The fields of the pool and the threads inside it. -/
structure Pool where
  idle : List Slot := []
  inUse : Nat := 0
  shuttingDown : Bool := false
  callers : List Caller := []
  reaper : Reaper := .loopHead
  shutdown : Shutdown := .idle
  creates : Nat := 0
  borrows : Nat := 0
  dials : Nat := 0
  closed : List Nat := []
  badCloses : Nat := 0

structure State extends Kernel, Pool

/-! ## Descriptors and locks -/

/-- `safe_close(fd)`, closing whatever the number names. -/
def State.closeFd (s : State) (fd : Nat) : State :=
  { s with
    table := Function.update s.table fd none
    closed :=
      match s.table fd with
      | some (.backend n) => s.closed ++ [n]
      | _ => s.closed
    badCloses :=
      match s.table fd with
      | some (.backend _) => s.badCloses
      | _ => s.badCloses + 1 }

/-- `mu_` is free between two steps, unless `shutdown` is in its loop. -/
def State.unlocked (s : State) : Bool :=
  match s.shutdown with
  | .closing => false
  | _ => true

def State.setCaller (s : State) (i : Nat) (c : Caller) : State :=
  { s with callers := s.callers.set i c }

/-- `cv_`, on which borrowers sleep. -/
def borrowCv : CondVar Caller where
  asleep
    | .asleep _ => true
    | _ => false
  wake
    | .asleep d => .notified d
    | c => c

/-! ## `borrow` -/

/-- The deadline of a borrower that is about to take `mu_`. -/
def Caller.atLock : Caller → Option Int
  | .entered d | .notified d | .spurious d => some d
  | _ => none

/-- The deadline of a borrower inside `wait_until`. -/
def Caller.inWait : Caller → Option Int
  | .asleep d | .notified d | .spurious d => some d
  | _ => none

/-- The body of the loop of `borrow`, up to the end of its critical section. -/
def State.borrowBody (o : Options) (s : State) (i : Nat) (deadline : Int) : State :=
  if s.shuttingDown = true then s.setCaller i (.failed .econnaborted)
  else
    match s.idle with
    | slot :: rest =>
        { s with
          idle := rest
          inUse := s.inUse + 1
          borrows := if o.metrics = true then s.borrows + 1 else s.borrows
          callers := s.callers.set i (.held slot.fd) }
    | [] =>
        if s.inUse + s.idle.length < o.maxSize then
          { s with inUse := s.inUse + 1, callers := s.callers.set i .dialing }
        else s.setCaller i (.asleep deadline)

/-- A borrower takes `mu_`: for the first time, or after `wait_until` returned
`no_timeout`. -/
def State.borrowLock (o : Options) (s : State) (i : Nat) : Option State :=
  match s.callers[i]? with
  | some c =>
      match c.atLock with
      | some deadline => if s.unlocked = true then some (s.borrowBody o i deadline) else none
      | none => none
  | none => none

/-- `wait_until` returns `timeout`, whether or not a notification was under way. -/
def State.borrowTimeout (s : State) (i : Nat) : Option State :=
  match s.callers[i]? with
  | some c =>
      match c.inWait with
      | some deadline =>
          if s.unlocked = true ∧ deadline ≤ s.now then some (s.setCaller i (.failed .etimedout))
          else none
      | none => none
  | none => none

/-- `dial_one_` returns a descriptor. -/
def State.dialOk (o : Options) (s : State) (i fd : Nat) : Option State :=
  match s.callers[i]?, s.table fd with
  | some .dialing, none =>
      some { s with
        table := Function.update s.table fd (some (.backend s.dials))
        dials := s.dials + 1
        callers := s.callers.set i (if o.metrics = true then .dialled fd else .held fd) }
  | _, _ => none

/-- The critical section after a failed dial. -/
def State.dialFailLock (s : State) (i : Nat) (pick : Option Nat) : Option State :=
  match s.callers[i]? with
  | some .dialFailed =>
      if s.unlocked = true then
        (borrowCv.notifyOne (s.callers.set i (.failed .dial)) pick).map (fun callers =>
          { s with inUse := s.inUse - 1, callers := callers })
      else none
  | _ => none

/-! ## `release` -/

/-- The critical section of `release`. -/
def State.releaseLock (s : State) (i : Nat) (pick : Option Nat) : Option State :=
  match s.callers[i]? with
  | some (.sampled fd closeIt) =>
      if s.unlocked = true then
        (borrowCv.notifyOne (s.callers.set i (if closeIt = true then .closing fd else .released))
          pick).map (fun callers =>
          { s with
            inUse := if 0 < s.inUse then s.inUse - 1 else s.inUse
            idle := if closeIt = true then s.idle else s.idle ++ [⟨fd, s.now, s.now⟩]
            callers := callers })
      else none
  | _ => none

/-! ## `shutdown` -/

/-- The steps of `shutdown` after its flag is set. -/
def State.shutdownStep (s : State) : Option State :=
  match s.shutdown with
  | .closing =>
      match s.idle with
      | slot :: rest => some { s.closeFd slot.fd with idle := rest }
      | [] => some { s with shutdown := .notifying }
  | .notifying =>
      some { s with shutdown := .notifyingReaper, callers := borrowCv.notifyAll s.callers }
  | .notifyingReaper => some { s with shutdown := .returned }
  | .idle | .returned => none

/-! ## The reaper -/

/-- The test of the sweep. -/
def Slot.expired (o : Options) (now : Int) (slot : Slot) : Bool :=
  decide (o.idleTimeout < now - slot.lastUsed) || decide (o.maxLifetime < now - slot.created)

/-- The critical section after the wait: the sweep, and the swap for the health
check. -/
def State.sweep (o : Options) (s : State) : State :=
  let victims := s.idle.filter (Slot.expired o s.now)
  let rest := s.idle.filter (fun slot => !slot.expired o s.now)
  { s with
    idle := if o.enableHealthCheck = true then [] else rest
    reaper := .closingVictims victims (if o.enableHealthCheck = true then rest else []) }

/-- The reaper's critical sections. -/
def State.reaperLock (o : Options) (s : State) : Option State :=
  if s.unlocked = true then
    match s.reaper with
    | .loopHead =>
        if s.shuttingDown = true then some { s with reaper := .exited }
        else some { s with reaper := .waiting (s.now + o.reaperWait) }
    | .waiting deadline =>
        if s.shuttingDown = true then some { s with reaper := .exited }
        else if deadline ≤ s.now then some (s.sweep o) else none
    | .pushBack survivors => some { s with idle := s.idle ++ survivors, reaper := .loopHead }
    | _ => none
  else none

/-- The reaper's steps outside `mu_` other than pings. -/
def State.reaperStep (s : State) : Option State :=
  match s.reaper with
  | .closingVictims (v :: victims) toCheck =>
      some { s.closeFd v.fd with reaper := .closingVictims victims toCheck }
  | .closingVictims [] [] => some { s with reaper := .loopHead }
  | .closingVictims [] (c :: toCheck) => some { s with reaper := .pinging (c :: toCheck) [] [] }
  | .pinging [] survivors dead => some { s with reaper := .closingDead dead survivors }
  | .closingDead (d :: dead) survivors =>
      some { s.closeFd d.fd with reaper := .closingDead dead survivors }
  | .closingDead [] survivors => some { s with reaper := .pushBack survivors }
  | _ => none

/-- `health_ping_` of the next connection returns. -/
def State.ping (s : State) (ok : Bool) : Option State :=
  match s.reaper with
  | .pinging (c :: toCheck) survivors dead =>
      if ok = true then
        some { s with
          reaper := .pinging toCheck (survivors ++ [{ c with lastUsed := s.now }]) dead }
      else some { s with reaper := .pinging toCheck survivors (dead ++ [c]) }
  | _ => none

/-! ## The machine -/

inductive Event where
  | clock (ms : Nat)
  /-- Another part of the process opens a file, or closes one of its own. -/
  | foreignOpen (fd : Nat)
  | foreignClose (fd : Nat)
  /-- Some thread calls `borrow`. -/
  | borrow
  | borrowLock (i : Nat)
  | borrowTimeout (i : Nat)
  | borrowSpurious (i : Nat)
  | dialOk (i fd : Nat)
  | dialFail (i : Nat)
  | dialFailLock (i : Nat) (pick : Option Nat)
  | incPoolCreate (i : Nat)
  | incPoolBorrow (i : Nat)
  /-- The holder calls `release`. -/
  | release (i : Nat) (ok : Bool)
  | sample (i : Nat)
  | releaseLock (i : Nat) (pick : Option Nat)
  | releaseClose (i : Nat)
  /-- Some thread calls `shutdown`. -/
  | shutdown
  | shutdownStep
  | reaperLock
  | reaperStep
  | ping (ok : Bool)

def step (o : Options) (s : State) : Event → Option State
  | .clock ms => some { s with now := s.now + ms }
  | .foreignOpen fd =>
      match s.table fd with
      | none => some { s with table := Function.update s.table fd (some .other) }
      | some _ => none
  | .foreignClose fd =>
      match s.table fd with
      | some .other => some { s with table := Function.update s.table fd none }
      | _ => none
  | .borrow => some { s with callers := s.callers ++ [.entered (s.now + o.borrowTimeout)] }
  | .borrowLock i => s.borrowLock o i
  | .borrowTimeout i => s.borrowTimeout i
  | .borrowSpurious i =>
      match s.callers[i]? with
      | some (.asleep d) => some (s.setCaller i (.spurious d))
      | _ => none
  | .dialOk i fd => s.dialOk o i fd
  | .dialFail i =>
      match s.callers[i]? with
      | some .dialing => some (s.setCaller i .dialFailed)
      | _ => none
  | .dialFailLock i pick => s.dialFailLock i pick
  | .incPoolCreate i =>
      match s.callers[i]? with
      | some (.dialled fd) => some { s.setCaller i (.created fd) with creates := s.creates + 1 }
      | _ => none
  | .incPoolBorrow i =>
      match s.callers[i]? with
      | some (.created fd) => some { s.setCaller i (.held fd) with borrows := s.borrows + 1 }
      | _ => none
  | .release i ok =>
      match s.callers[i]? with
      | some (.held fd) => some (s.setCaller i (.releasing fd ok))
      | _ => none
  | .sample i =>
      match s.callers[i]? with
      | some (.releasing fd ok) => some (s.setCaller i (.sampled fd (!ok || s.shuttingDown)))
      | _ => none
  | .releaseLock i pick => s.releaseLock i pick
  | .releaseClose i =>
      match s.callers[i]? with
      | some (.closing fd) => some ((s.closeFd fd).setCaller i .released)
      | _ => none
  | .shutdown =>
      if s.unlocked = true then
        if s.shuttingDown = true then some s
        else some { s with shuttingDown := true, shutdown := .closing }
      else none
  | .shutdownStep => s.shutdownStep
  | .reaperLock => s.reaperLock o
  | .reaperStep => s.reaperStep
  | .ping ok => s.ping ok

/-- The pool that the constructor makes of the given options. -/
def machine (o : Options) : Machine State Event where
  init := {}
  step := step o.normalise

/-! ## What a step can do -/

/-- Every way in which an event changes the pool, with the guard it was taken
under. -/
inductive Step (o : Options) (s : State) : Event → State → Prop where
  | clock (ms : Nat) : Step o s (.clock ms) { s with now := s.now + ms }
  | foreignOpen {fd : Nat} : s.table fd = none →
      Step o s (.foreignOpen fd) { s with table := Function.update s.table fd (some .other) }
  | foreignClose {fd : Nat} : s.table fd = some .other →
      Step o s (.foreignClose fd) { s with table := Function.update s.table fd none }
  | borrow :
      Step o s .borrow { s with callers := s.callers ++ [.entered (s.now + o.borrowTimeout)] }
  | borrowAbort {i : Nat} {c : Caller} {d : Int} : s.callers[i]? = some c → c.atLock = some d →
      s.unlocked = true → s.shuttingDown = true →
      Step o s (.borrowLock i) { s with callers := s.callers.set i (.failed .econnaborted) }
  | borrowIdle {i : Nat} {c : Caller} {d : Int} {slot : Slot} {rest : List Slot} :
      s.callers[i]? = some c → c.atLock = some d → s.unlocked = true → s.shuttingDown = false →
      s.idle = slot :: rest →
      Step o s (.borrowLock i) { s with
        idle := rest, inUse := s.inUse + 1
        borrows := if o.metrics = true then s.borrows + 1 else s.borrows
        callers := s.callers.set i (.held slot.fd) }
  | borrowDial {i : Nat} {c : Caller} {d : Int} : s.callers[i]? = some c → c.atLock = some d →
      s.unlocked = true → s.shuttingDown = false → s.idle = [] → s.inUse < o.maxSize →
      Step o s (.borrowLock i)
        { s with inUse := s.inUse + 1, callers := s.callers.set i .dialing }
  | borrowSleep {i : Nat} {c : Caller} {d : Int} : s.callers[i]? = some c → c.atLock = some d →
      s.unlocked = true → s.shuttingDown = false → s.idle = [] → o.maxSize ≤ s.inUse →
      Step o s (.borrowLock i) { s with callers := s.callers.set i (.asleep d) }
  | borrowTimeout {i : Nat} {c : Caller} {d : Int} : s.callers[i]? = some c → c.inWait = some d →
      s.unlocked = true → d ≤ s.now →
      Step o s (.borrowTimeout i) { s with callers := s.callers.set i (.failed .etimedout) }
  | borrowSpurious {i : Nat} {d : Int} : s.callers[i]? = some (.asleep d) →
      Step o s (.borrowSpurious i) { s with callers := s.callers.set i (.spurious d) }
  | dialOk {i fd : Nat} : s.callers[i]? = some .dialing → s.table fd = none →
      Step o s (.dialOk i fd) { s with
        table := Function.update s.table fd (some (.backend s.dials)), dials := s.dials + 1
        callers := s.callers.set i (if o.metrics = true then .dialled fd else .held fd) }
  | dialFail {i : Nat} : s.callers[i]? = some .dialing →
      Step o s (.dialFail i) { s with callers := s.callers.set i .dialFailed }
  | dialFailLock {i : Nat} {pick : Option Nat} {callers : List Caller} :
      s.callers[i]? = some .dialFailed → s.unlocked = true →
      borrowCv.NotifiesOne (s.callers.set i (.failed .dial)) callers →
      Step o s (.dialFailLock i pick) { s with inUse := s.inUse - 1, callers := callers }
  | incPoolCreate {i fd : Nat} : s.callers[i]? = some (.dialled fd) →
      Step o s (.incPoolCreate i)
        { s with callers := s.callers.set i (.created fd), creates := s.creates + 1 }
  | incPoolBorrow {i fd : Nat} : s.callers[i]? = some (.created fd) →
      Step o s (.incPoolBorrow i)
        { s with callers := s.callers.set i (.held fd), borrows := s.borrows + 1 }
  | release {i fd : Nat} (ok : Bool) : s.callers[i]? = some (.held fd) →
      Step o s (.release i ok) { s with callers := s.callers.set i (.releasing fd ok) }
  | sample {i fd : Nat} {ok : Bool} : s.callers[i]? = some (.releasing fd ok) →
      Step o s (.sample i)
        { s with callers := s.callers.set i (.sampled fd (!ok || s.shuttingDown)) }
  | releaseKeep {i fd : Nat} {pick : Option Nat} {callers : List Caller} :
      s.callers[i]? = some (.sampled fd false) → s.unlocked = true →
      borrowCv.NotifiesOne (s.callers.set i .released) callers →
      Step o s (.releaseLock i pick) { s with
        inUse := if 0 < s.inUse then s.inUse - 1 else s.inUse
        idle := s.idle ++ [⟨fd, s.now, s.now⟩], callers := callers }
  | releaseDrop {i fd : Nat} {pick : Option Nat} {callers : List Caller} :
      s.callers[i]? = some (.sampled fd true) → s.unlocked = true →
      borrowCv.NotifiesOne (s.callers.set i (.closing fd)) callers →
      Step o s (.releaseLock i pick) { s with
        inUse := if 0 < s.inUse then s.inUse - 1 else s.inUse, callers := callers }
  | releaseClose {i fd : Nat} : s.callers[i]? = some (.closing fd) →
      Step o s (.releaseClose i) ((s.closeFd fd).setCaller i .released)
  | shutdownAgain : s.unlocked = true → s.shuttingDown = true → Step o s .shutdown s
  | shutdown : s.unlocked = true → s.shuttingDown = false →
      Step o s .shutdown { s with shuttingDown := true, shutdown := .closing }
  | shutdownClose {slot : Slot} {rest : List Slot} : s.shutdown = .closing →
      s.idle = slot :: rest → Step o s .shutdownStep { s.closeFd slot.fd with idle := rest }
  | shutdownUnlock : s.shutdown = .closing → s.idle = [] →
      Step o s .shutdownStep { s with shutdown := .notifying }
  | shutdownNotify : s.shutdown = .notifying →
      Step o s .shutdownStep
        { s with shutdown := .notifyingReaper, callers := borrowCv.notifyAll s.callers }
  | shutdownReturn : s.shutdown = .notifyingReaper →
      Step o s .shutdownStep { s with shutdown := .returned }
  | reaperExit : s.unlocked = true → s.shuttingDown = true →
      (s.reaper = .loopHead ∨ ∃ d, s.reaper = .waiting d) →
      Step o s .reaperLock { s with reaper := .exited }
  | reaperWait : s.unlocked = true → s.shuttingDown = false → s.reaper = .loopHead →
      Step o s .reaperLock { s with reaper := .waiting (s.now + o.reaperWait) }
  | sweep {d : Int} : s.unlocked = true → s.shuttingDown = false → s.reaper = .waiting d →
      d ≤ s.now → Step o s .reaperLock (s.sweep o)
  | pushBack {survivors : List Slot} : s.unlocked = true → s.reaper = .pushBack survivors →
      Step o s .reaperLock { s with idle := s.idle ++ survivors, reaper := .loopHead }
  | closeVictim {v : Slot} {victims toCheck : List Slot} :
      s.reaper = .closingVictims (v :: victims) toCheck →
      Step o s .reaperStep { s.closeFd v.fd with reaper := .closingVictims victims toCheck }
  | victimsClosed : s.reaper = .closingVictims [] [] →
      Step o s .reaperStep { s with reaper := .loopHead }
  | startPings {toCheck : List Slot} : s.reaper = .closingVictims [] toCheck →
      Step o s .reaperStep { s with reaper := .pinging toCheck [] [] }
  | pingsDone {survivors dead : List Slot} : s.reaper = .pinging [] survivors dead →
      Step o s .reaperStep { s with reaper := .closingDead dead survivors }
  | closeDead {d : Slot} {dead survivors : List Slot} :
      s.reaper = .closingDead (d :: dead) survivors →
      Step o s .reaperStep { s.closeFd d.fd with reaper := .closingDead dead survivors }
  | deadClosed {survivors : List Slot} : s.reaper = .closingDead [] survivors →
      Step o s .reaperStep { s with reaper := .pushBack survivors }
  | pingOk {c : Slot} {toCheck survivors dead : List Slot} :
      s.reaper = .pinging (c :: toCheck) survivors dead →
      Step o s (.ping true)
        { s with reaper := .pinging toCheck (survivors ++ [{ c with lastUsed := s.now }]) dead }
  | pingFail {c : Slot} {toCheck survivors dead : List Slot} :
      s.reaper = .pinging (c :: toCheck) survivors dead →
      Step o s (.ping false) { s with reaper := .pinging toCheck survivors (dead ++ [c]) }

variable {o : Options} {s s' : State}

theorem borrowLock_cases {i : Nat} (h : s.borrowLock o i = some s') :
    Step o s (.borrowLock i) s' := by
  simp only [State.borrowLock] at h
  split at h
  next c hi =>
    split at h
    next d hd =>
      split at h
      next hlock =>
        cases h
        unfold State.borrowBody
        split
        next hshut => exact .borrowAbort hi hd hlock hshut
        next hshut =>
          have hshut : s.shuttingDown = false := by simpa using hshut
          split
          next slot rest hidle => exact .borrowIdle hi hd hlock hshut hidle
          next hidle =>
            have hsize : s.inUse + s.idle.length = s.inUse := by
              rw [hidle, List.length_nil, Nat.add_zero]
            split
            next hroom => exact .borrowDial hi hd hlock hshut hidle (by omega)
            next hfull => exact .borrowSleep hi hd hlock hshut hidle (by omega)
      next => cases h
    next => cases h
  next => cases h

theorem borrowTimeout_cases {i : Nat} (h : s.borrowTimeout i = some s') :
    Step o s (.borrowTimeout i) s' := by
  simp only [State.borrowTimeout] at h
  split at h
  next c hi =>
    split at h
    next d hd =>
      split at h
      next hguard =>
        cases h
        exact .borrowTimeout hi hd hguard.1 hguard.2
      next => cases h
    next => cases h
  next => cases h

theorem dialOk_cases {i fd : Nat} (h : s.dialOk o i fd = some s') :
    Step o s (.dialOk i fd) s' := by
  simp only [State.dialOk] at h
  split at h
  next hi hfree =>
    cases h
    exact .dialOk hi hfree
  next => cases h

theorem dialFailLock_cases {i : Nat} {pick : Option Nat} (h : s.dialFailLock i pick = some s') :
    Step o s (.dialFailLock i pick) s' := by
  simp only [State.dialFailLock] at h
  split at h
  next hi =>
    split at h
    next hlock =>
      obtain ⟨callers, hcallers, rfl⟩ := Option.map_eq_some_iff.mp h
      exact .dialFailLock hi hlock (CondVar.notifyOne_cases hcallers)
    next => cases h
  next => cases h

theorem releaseLock_cases {i : Nat} {pick : Option Nat} (h : s.releaseLock i pick = some s') :
    Step o s (.releaseLock i pick) s' := by
  simp only [State.releaseLock] at h
  split at h
  next fd closeIt hi =>
    split at h
    next hlock =>
      obtain ⟨callers, hcallers, rfl⟩ := Option.map_eq_some_iff.mp h
      cases closeIt with
      | true => exact .releaseDrop hi hlock (CondVar.notifyOne_cases hcallers)
      | false => exact .releaseKeep hi hlock (CondVar.notifyOne_cases hcallers)
    next => cases h
  next => cases h

theorem shutdownStep_cases (h : s.shutdownStep = some s') : Step o s .shutdownStep s' := by
  simp only [State.shutdownStep] at h
  split at h
  next hpc =>
    split at h
    next slot rest hidle =>
      cases h
      exact .shutdownClose hpc hidle
    next hidle =>
      cases h
      exact .shutdownUnlock hpc hidle
  next hpc =>
    cases h
    exact .shutdownNotify hpc
  next hpc =>
    cases h
    exact .shutdownReturn hpc
  next => cases h
  next => cases h

theorem reaperLock_cases (h : s.reaperLock o = some s') : Step o s .reaperLock s' := by
  simp only [State.reaperLock] at h
  split at h
  next hlock =>
    split at h
    next hpc =>
      split at h
      next hshut =>
        cases h
        exact .reaperExit hlock hshut (.inl hpc)
      next hshut =>
        cases h
        exact .reaperWait hlock (by simpa using hshut) hpc
    next d hpc =>
      split at h
      next hshut =>
        cases h
        exact .reaperExit hlock hshut (.inr ⟨d, hpc⟩)
      next hshut =>
        split at h
        next hdue =>
          cases h
          exact .sweep hlock (by simpa using hshut) hpc hdue
        next => cases h
    next survivors hpc =>
      cases h
      exact .pushBack hlock hpc
    next => cases h
  next => cases h

theorem reaperStep_cases (h : s.reaperStep = some s') : Step o s .reaperStep s' := by
  simp only [State.reaperStep] at h
  split at h
  next v victims toCheck hpc =>
    cases h
    exact .closeVictim hpc
  next hpc =>
    cases h
    exact .victimsClosed hpc
  next c toCheck hpc =>
    cases h
    exact .startPings hpc
  next survivors dead hpc =>
    cases h
    exact .pingsDone hpc
  next d dead survivors hpc =>
    cases h
    exact .closeDead hpc
  next survivors hpc =>
    cases h
    exact .deadClosed hpc
  next => cases h

theorem ping_cases {ok : Bool} (h : s.ping ok = some s') : Step o s (.ping ok) s' := by
  simp only [State.ping] at h
  split at h
  next c toCheck survivors dead hpc =>
    cases ok with
    | true =>
        cases h
        exact .pingOk hpc
    | false =>
        cases h
        exact .pingFail hpc
  next => cases h

/-- The inversion of a step. -/
theorem step_cases {e : Event} (h : step o s e = some s') : Step o s e s' := by
  cases e with
  | clock ms =>
      cases h
      exact .clock ms
  | foreignOpen fd =>
      simp only [step] at h
      split at h
      next hfree =>
        cases h
        exact .foreignOpen hfree
      next => cases h
  | foreignClose fd =>
      simp only [step] at h
      split at h
      next hother =>
        cases h
        exact .foreignClose hother
      next => cases h
  | borrow =>
      cases h
      exact .borrow
  | borrowLock i => exact borrowLock_cases h
  | borrowTimeout i => exact borrowTimeout_cases h
  | borrowSpurious i =>
      simp only [step] at h
      split at h
      next d hi =>
        cases h
        exact .borrowSpurious hi
      next => cases h
  | dialOk i fd => exact dialOk_cases h
  | dialFail i =>
      simp only [step] at h
      split at h
      next hi =>
        cases h
        exact .dialFail hi
      next => cases h
  | dialFailLock i pick => exact dialFailLock_cases h
  | incPoolCreate i =>
      simp only [step] at h
      split at h
      next fd hi =>
        cases h
        exact .incPoolCreate hi
      next => cases h
  | incPoolBorrow i =>
      simp only [step] at h
      split at h
      next fd hi =>
        cases h
        exact .incPoolBorrow hi
      next => cases h
  | release i ok =>
      simp only [step] at h
      split at h
      next fd hi =>
        cases h
        exact .release ok hi
      next => cases h
  | sample i =>
      simp only [step] at h
      split at h
      next fd ok hi =>
        cases h
        exact .sample hi
      next => cases h
  | releaseLock i pick => exact releaseLock_cases h
  | releaseClose i =>
      simp only [step] at h
      split at h
      next fd hi =>
        cases h
        exact .releaseClose hi
      next => cases h
  | shutdown =>
      simp only [step] at h
      split at h
      next hlock =>
        split at h
        next hshut =>
          cases h
          exact .shutdownAgain hlock hshut
        next hshut =>
          cases h
          exact .shutdown hlock (by simpa using hshut)
      next => cases h
  | shutdownStep => exact shutdownStep_cases h
  | reaperLock => exact reaperLock_cases h
  | reaperStep => exact reaperStep_cases h
  | ping ok => exact ping_cases h

end InferenceRouter.BackendPool
