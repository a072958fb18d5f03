import InferenceRouter.BackendPool.Callers
import InferenceRouter.Handler

/-!
# The backend set

The model of `BackendSet` (`backend_set.cpp`): a `BackendPool` for each backend, the
load counters, and any number of threads that borrow a handle and release it.

A caller goes through `borrow()`, holds the handle it got, and goes through
`release(h, ok)` once.  Inside the pick, every load of a counter is a step of its
own: `pick_mu_` keeps other picks out, but decrements do not take it.  `borrow` and
`release` of a pool are calls into `BackendPool.Model`, so a caller of the set waits
while its entry among the callers of the pool moves by the pool's own steps.  All
pools see one descriptor table, in which the connections of the others are `other`
to them.

`inFlight` is an integer, so that a decrement below zero would show.  The counter in
the source is its remainder modulo `2 ^ 64`, and that is what a load returns.

`Pick.reads` and `invalidReleases` record what happened and are read by no step:
the values that the pick has loaded, and how often `release` took its branch for an
invalid `pool_index`.
-/

namespace InferenceRouter.BackendSet

open Interleaving Handler

/-! ## State -/

/-- `BackendSet::BackendSpec`. -/
structure BackendSpec where
  host : String
  port : UInt16
  weight : UInt64 := 1

/-- The arguments of the constructor. -/
structure Config where
  specs : List BackendSpec
  shared : BackendPool.Options := {}

/-- `weights_`. -/
def Config.weights (cfg : Config) : List UInt64 :=
  cfg.specs.map (fun s => if s.weight = 0 then 1 else s.weight)

/-- `pools_.size()`. -/
def Config.count (cfg : Config) : Nat := cfg.specs.length

/-- `weights_[i]`. -/
def Config.weight (cfg : Config) (i : Nat) : UInt64 := cfg.weights.getD i 1

/-- The locals of `pick_lowest_load_locked_` between two loads. -/
structure Pick where
  best : Nat
  bestInFlight : UInt64
  bestWeight : UInt64
  reads : List UInt64

/-- A caller of the set, from its call of `borrow` to the end of its `release`. -/
inductive Caller where
  /-- In `borrow`, before `pick_mu_`. -/
  | entered
  /-- Holds `pick_mu_`, before the first load. -/
  | locked
  /-- Holds `pick_mu_`, in the loop of the pick or at the `fetch_add` after it. -/
  | picking (p : Pick)
  /-- Counted on backend `i`, before `pools_[i]->borrow()`. -/
  | picked (i : Nat)
  /-- In `pools_[i]->borrow()`, as caller `k` of the pool. -/
  | borrowing (i k : Nat)
  /-- The pool returned a descriptor, before `handled_[i]` is counted. -/
  | borrowed (i k fd : Nat)
  /-- The pool returned `-1`, before the compensating decrement. -/
  | refused (i : Nat)
  /-- `borrow` returned the handle. -/
  | held (h : Handle) (k : Nat)
  /-- In `pools_[h.pool_index]->release(h.fd, ok)`. -/
  | releasing (h : Handle) (k : Nat)
  /-- The pool's `release` has returned, before the decrement. -/
  | released (h : Handle)
  /-- `release` has returned. -/
  | returned (h : Handle)
  /-- `borrow` returned a handle without a descriptor. -/
  | failed

/-- The thread inside `shutdown`. -/
inductive Shutdown where
  | idle
  /-- Before the call for pool `i`. -/
  | calling (i : Nat)
  /-- In `pools_[i]->shutdown()`. -/
  | inside (i : Nat)
  | returned

/-- An open file: the `n`-th connection that a pool dialled, or anything else. -/
inductive File where
  | conn (pool n : Nat)
  | other
  deriving DecidableEq

structure State where
  now : Int := 0
  table : Nat → Option File := fun _ => none
  pools : List BackendPool.Pool
  inFlight : Nat → Int := fun _ => 0
  handled : Nat → Nat := fun _ => 0
  /-- `pick_mu_` is held. -/
  pickMu : Bool := false
  callers : List Caller := []
  shutdown : Shutdown := .idle
  invalidReleases : Nat := 0

/-! ## Pools -/

/-- What a file is to pool `i`. -/
def viewFile (i : Nat) : File → BackendPool.File
  | .conn k n => if k = i then .backend n else .other
  | .other => .other

/-- The state as pool `i` sees it. -/
def State.view (s : State) (i : Nat) (p : BackendPool.Pool) : BackendPool.State where
  now := s.now
  table fd := (s.table fd).map (viewFile i)
  toPool := p

/-- The state after a step of pool `i`. -/
def State.putPool (s : State) (i : Nat) (v : BackendPool.State) : State :=
  { s with
    table := fun fd =>
      match v.table fd with
      | some (.backend n) => some (.conn i n)
      | some .other => s.table fd
      | none => none
    pools := s.pools.set i v.toPool }

def State.poolStep (cfg : Config) (s : State) (i : Nat) (e : BackendPool.Event) : Option State :=
  match s.pools[i]? with
  | some p => (BackendPool.step cfg.shared.normalise (s.view i p) e).map (s.putPool i)
  | none => none

/-- A thread's entry among the callers of a pool. -/
def State.entry (s : State) (i k : Nat) : Option BackendPool.Caller :=
  (s.pools[i]?).bind (fun p => p.callers[k]?)

def State.setCaller (s : State) (c : Nat) (caller : Caller) : State :=
  { s with callers := s.callers.set c caller }

/-! ## `pick_lowest_load_locked_` -/

/-- `in_flight_[i].load()`. -/
def State.load (s : State) (i : Nat) : UInt64 := .ofNat (s.inFlight i % 2 ^ 64).toNat

/-- The first load, before the loop. -/
def Pick.first (weight inFlight : UInt64) : Pick where
  best := 0
  bestInFlight := inFlight
  bestWeight := weight
  reads := [inFlight]

/-- One turn of the loop, for backend `p.reads.length`. -/
def Pick.next (p : Pick) (candWeight candInFlight : UInt64) : Pick :=
  if candInFlight * p.bestWeight < p.bestInFlight * candWeight then
    { best := p.reads.length
      bestInFlight := candInFlight
      bestWeight := candWeight
      reads := p.reads ++ [candInFlight] }
  else { p with reads := p.reads ++ [candInFlight] }

/-- The next load of a pick. -/
def State.pickLoad (cfg : Config) (s : State) (c : Nat) : Option State :=
  match s.callers[c]? with
  | some .locked => some (s.setCaller c (.picking (.first (cfg.weight 0) (s.load 0))))
  | some (.picking p) =>
      let i := p.reads.length
      if i < cfg.count then some (s.setCaller c (.picking (p.next (cfg.weight i) (s.load i))))
      else none
  | _ => none

/-! ## `borrow` -/

/-- The pick has returned: `fetch_add`, and `pick_mu_` is unlocked. -/
def State.bump (cfg : Config) (s : State) (c : Nat) : Option State :=
  match s.callers[c]? with
  | some (.picking p) =>
      if p.reads.length < cfg.count then none
      else
        some { s with
          inFlight := Function.update s.inFlight p.best (s.inFlight p.best + 1)
          pickMu := false
          callers := s.callers.set c (.picked p.best) }
  | _ => none

/-- The call of `pools_[idx]->borrow()`. -/
def State.poolBorrow (cfg : Config) (s : State) (c : Nat) : Option State :=
  match s.callers[c]? with
  | some (.picked i) =>
      match s.pools[i]? with
      | some p =>
          (s.poolStep cfg i .borrow).map (fun s' =>
            s'.setCaller c (.borrowing i p.callers.length))
      | none => none
  | _ => none

/-- `pools_[idx]->borrow()` returns. -/
def State.poolReturn (s : State) (c : Nat) : Option State :=
  match s.callers[c]? with
  | some (.borrowing i k) =>
      match s.entry i k with
      | some (.held fd) => some (s.setCaller c (.borrowed i k fd))
      | some (.failed _) => some (s.setCaller c (.refused i))
      | _ => none
  | _ => none

/-- `handled_[idx].fetch_add(1)`, and the handle is returned. -/
def State.count (s : State) (c : Nat) : Option State :=
  match s.callers[c]? with
  | some (.borrowed i k fd) =>
      some { s with
        handled := Function.update s.handled i (s.handled i + 1)
        callers := s.callers.set c (.held { fd := fd, poolIndex := i } k) }
  | _ => none

/-- `in_flight_[idx].fetch_sub(1)` after a failed borrow. -/
def State.compensate (s : State) (c : Nat) : Option State :=
  match s.callers[c]? with
  | some (.refused i) =>
      some { s with
        inFlight := Function.update s.inFlight i (s.inFlight i - 1)
        callers := s.callers.set c .failed }
  | _ => none

/-! ## `release` -/

/-- The call of `release(h, ok)`, up to the call of the pool's `release`. -/
def State.release (cfg : Config) (s : State) (c : Nat) (ok : Bool) : Option State :=
  match s.callers[c]? with
  | some (.held h k) =>
      if h.fd < 0 then some (s.setCaller c (.returned h))
      else if cfg.count ≤ h.poolIndex then
        some { s.setCaller c (.returned h) with invalidReleases := s.invalidReleases + 1 }
      else
        match s.pools[h.poolIndex]? with
        | some p =>
            some { s with
              pools := s.pools.set h.poolIndex
                { p with callers := p.callers.set k (.releasing h.fd.toNat ok) }
              callers := s.callers.set c (.releasing h k) }
        | none => none
  | _ => none

/-- The pool's `release` returns. -/
def State.releaseReturn (s : State) (c : Nat) : Option State :=
  match s.callers[c]? with
  | some (.releasing h k) =>
      match s.entry h.poolIndex k with
      | some .released => some (s.setCaller c (.released h))
      | _ => none
  | _ => none

/-- `in_flight_[h.pool_index].fetch_sub(1)`. -/
def State.decrement (s : State) (c : Nat) : Option State :=
  match s.callers[c]? with
  | some (.released h) =>
      some { s with
        inFlight := Function.update s.inFlight h.poolIndex (s.inFlight h.poolIndex - 1)
        callers := s.callers.set c (.returned h) }
  | _ => none

/-! ## `shutdown` -/

/-- The steps of the loop of `shutdown`. -/
def State.shutdownStep (cfg : Config) (s : State) : Option State :=
  match s.shutdown with
  | .calling i =>
      if i < cfg.count then
        (s.poolStep cfg i .shutdown).map (fun s' => { s' with shutdown := .inside i })
      else some { s with shutdown := .returned }
  | .inside i =>
      match s.pools[i]? with
      | some p =>
          match p.shutdown with
          | .returned => some { s with shutdown := .calling (i + 1) }
          | _ => none
      | none => none
  | .idle | .returned => none

/-! ## The machine -/

inductive Event where
  | clock (ms : Nat)
  /-- Another part of the process opens a file, or closes one of its own. -/
  | foreignOpen (fd : Nat)
  | foreignClose (fd : Nat)
  /-- A step of the threads inside pool `i`. -/
  | pool (i : Nat) (e : BackendPool.Event)
  /-- Some thread calls `borrow`. -/
  | borrow
  | pickLock (c : Nat)
  | pickLoad (c : Nat)
  | bump (c : Nat)
  | poolBorrow (c : Nat)
  | poolReturn (c : Nat)
  | count (c : Nat)
  | compensate (c : Nat)
  /-- The holder calls `release`. -/
  | release (c : Nat) (ok : Bool)
  | releaseReturn (c : Nat)
  | decrement (c : Nat)
  /-- Some thread calls `shutdown`. -/
  | shutdown
  | shutdownStep

def step (cfg : Config) (s : State) : Event → Option State
  | .clock ms => some { s with now := s.now + ms }
  | .foreignOpen fd =>
      match s.table fd with
      | none => some { s with table := Function.update s.table fd (some .other) }
      | some _ => none
  | .foreignClose fd =>
      match s.table fd with
      | some .other => some { s with table := Function.update s.table fd none }
      | _ => none
  | .pool i e => if e.inner = true then s.poolStep cfg i e else none
  | .borrow =>
      some { s with callers := s.callers ++ [if cfg.count = 0 then .failed else .entered] }
  | .pickLock c =>
      match s.callers[c]? with
      | some .entered =>
          if s.pickMu = true then none
          else some { s with pickMu := true, callers := s.callers.set c .locked }
      | _ => none
  | .pickLoad c => s.pickLoad cfg c
  | .bump c => s.bump cfg c
  | .poolBorrow c => s.poolBorrow cfg c
  | .poolReturn c => s.poolReturn c
  | .count c => s.count c
  | .compensate c => s.compensate c
  | .release c ok => s.release cfg c ok
  | .releaseReturn c => s.releaseReturn c
  | .decrement c => s.decrement c
  | .shutdown =>
      match s.shutdown with
      | .idle | .returned => some { s with shutdown := .calling 0 }
      | _ => none
  | .shutdownStep => s.shutdownStep cfg

/-- The set that the constructor makes of its arguments. -/
def machine (cfg : Config) : Machine State Event where
  init := { pools := List.replicate cfg.count {} }
  step := step cfg

/-! ## What a step can do -/

/-- Every way in which an event changes the set, with the guard it was taken
under. -/
inductive Step (cfg : Config) (s : State) : Event → State → Prop where
  | clock (ms : Nat) : Step cfg s (.clock ms) { s with now := s.now + ms }
  | foreignOpen {fd : Nat} : s.table fd = none →
      Step cfg s (.foreignOpen fd) { s with table := Function.update s.table fd (some .other) }
  | foreignClose {fd : Nat} : s.table fd = some .other →
      Step cfg s (.foreignClose fd) { s with table := Function.update s.table fd none }
  | pool {i : Nat} {e : BackendPool.Event} {p : BackendPool.Pool} {v : BackendPool.State} :
      e.inner = true → s.pools[i]? = some p →
      BackendPool.step cfg.shared.normalise (s.view i p) e = some v →
      Step cfg s (.pool i e) (s.putPool i v)
  | borrowEmpty : cfg.count = 0 →
      Step cfg s .borrow { s with callers := s.callers ++ [.failed] }
  | borrow : cfg.count ≠ 0 → Step cfg s .borrow { s with callers := s.callers ++ [.entered] }
  | pickLock {c : Nat} : s.callers[c]? = some .entered → s.pickMu = false →
      Step cfg s (.pickLock c) { s with pickMu := true, callers := s.callers.set c .locked }
  | pickFirst {c : Nat} : s.callers[c]? = some .locked →
      Step cfg s (.pickLoad c)
        { s with callers := s.callers.set c (.picking (.first (cfg.weight 0) (s.load 0))) }
  | pickNext {c : Nat} {p : Pick} : s.callers[c]? = some (.picking p) →
      p.reads.length < cfg.count →
      Step cfg s (.pickLoad c) { s with
        callers := s.callers.set c
          (.picking (p.next (cfg.weight p.reads.length) (s.load p.reads.length))) }
  | bump {c : Nat} {p : Pick} : s.callers[c]? = some (.picking p) →
      cfg.count ≤ p.reads.length →
      Step cfg s (.bump c) { s with
        inFlight := Function.update s.inFlight p.best (s.inFlight p.best + 1)
        pickMu := false
        callers := s.callers.set c (.picked p.best) }
  | poolBorrow {c i : Nat} {p : BackendPool.Pool} {v : BackendPool.State} :
      s.callers[c]? = some (.picked i) → s.pools[i]? = some p →
      BackendPool.step cfg.shared.normalise (s.view i p) .borrow = some v →
      Step cfg s (.poolBorrow c) ((s.putPool i v).setCaller c (.borrowing i p.callers.length))
  | poolHeld {c i k fd : Nat} : s.callers[c]? = some (.borrowing i k) →
      s.entry i k = some (.held fd) →
      Step cfg s (.poolReturn c) { s with callers := s.callers.set c (.borrowed i k fd) }
  | poolRefused {c i k : Nat} {errno : BackendPool.Errno} :
      s.callers[c]? = some (.borrowing i k) → s.entry i k = some (.failed errno) →
      Step cfg s (.poolReturn c) { s with callers := s.callers.set c (.refused i) }
  | count {c i k fd : Nat} : s.callers[c]? = some (.borrowed i k fd) →
      Step cfg s (.count c) { s with
        handled := Function.update s.handled i (s.handled i + 1)
        callers := s.callers.set c (.held { fd := fd, poolIndex := i } k) }
  | compensate {c i : Nat} : s.callers[c]? = some (.refused i) →
      Step cfg s (.compensate c) { s with
        inFlight := Function.update s.inFlight i (s.inFlight i - 1)
        callers := s.callers.set c .failed }
  | releaseNothing {c k : Nat} {h : Handle} (ok : Bool) : s.callers[c]? = some (.held h k) →
      h.fd < 0 →
      Step cfg s (.release c ok) { s with callers := s.callers.set c (.returned h) }
  | releaseInvalid {c k : Nat} {h : Handle} (ok : Bool) : s.callers[c]? = some (.held h k) →
      0 ≤ h.fd → cfg.count ≤ h.poolIndex →
      Step cfg s (.release c ok) { s with
        callers := s.callers.set c (.returned h), invalidReleases := s.invalidReleases + 1 }
  | release {c k : Nat} {h : Handle} {p : BackendPool.Pool} (ok : Bool) :
      s.callers[c]? = some (.held h k) → 0 ≤ h.fd → s.pools[h.poolIndex]? = some p →
      Step cfg s (.release c ok) { s with
        pools := s.pools.set h.poolIndex
          { p with callers := p.callers.set k (.releasing h.fd.toNat ok) }
        callers := s.callers.set c (.releasing h k) }
  | releaseReturn {c k : Nat} {h : Handle} : s.callers[c]? = some (.releasing h k) →
      s.entry h.poolIndex k = some .released →
      Step cfg s (.releaseReturn c) { s with callers := s.callers.set c (.released h) }
  | decrement {c : Nat} {h : Handle} : s.callers[c]? = some (.released h) →
      Step cfg s (.decrement c) { s with
        inFlight := Function.update s.inFlight h.poolIndex (s.inFlight h.poolIndex - 1)
        callers := s.callers.set c (.returned h) }
  | shutdown : Step cfg s .shutdown { s with shutdown := .calling 0 }
  | shutdownCall {i : Nat} {p : BackendPool.Pool} {v : BackendPool.State} :
      s.shutdown = .calling i → s.pools[i]? = some p →
      BackendPool.step cfg.shared.normalise (s.view i p) .shutdown = some v →
      Step cfg s .shutdownStep { s.putPool i v with shutdown := .inside i }
  | shutdownNext {i : Nat} : s.shutdown = .inside i →
      Step cfg s .shutdownStep { s with shutdown := .calling (i + 1) }
  | shutdownReturn {i : Nat} : s.shutdown = .calling i → cfg.count ≤ i →
      Step cfg s .shutdownStep { s with shutdown := .returned }

variable {cfg : Config} {s s' : State}

theorem poolStep_cases {i : Nat} {e : BackendPool.Event} (h : s.poolStep cfg i e = some s') :
    ∃ p v, s.pools[i]? = some p ∧ BackendPool.step cfg.shared.normalise (s.view i p) e = some v ∧
      s' = s.putPool i v := by
  simp only [State.poolStep] at h
  split at h
  next p hp =>
    obtain ⟨v, hv, rfl⟩ := Option.map_eq_some_iff.mp h
    exact ⟨p, v, hp, hv, rfl⟩
  next => cases h

theorem pickLoad_cases {c : Nat} (h : s.pickLoad cfg c = some s') :
    Step cfg s (.pickLoad c) s' := by
  simp only [State.pickLoad] at h
  split at h
  next hc =>
    cases h
    exact .pickFirst hc
  next p hc =>
    split at h
    next hmore =>
      cases h
      exact .pickNext hc hmore
    next => cases h
  next => cases h

theorem bump_cases {c : Nat} (h : s.bump cfg c = some s') : Step cfg s (.bump c) s' := by
  simp only [State.bump] at h
  split at h
  next p hc =>
    split at h
    next => cases h
    next hdone =>
      cases h
      exact .bump hc (Nat.not_lt.mp hdone)
  next => cases h

theorem poolBorrow_cases {c : Nat} (h : s.poolBorrow cfg c = some s') :
    Step cfg s (.poolBorrow c) s' := by
  simp only [State.poolBorrow] at h
  split at h
  next i hc =>
    split at h
    next p hp =>
      obtain ⟨t, ht, rfl⟩ := Option.map_eq_some_iff.mp h
      obtain ⟨p', v, hp', hv, rfl⟩ := poolStep_cases ht
      rw [hp, Option.some.injEq] at hp'
      subst hp'
      exact .poolBorrow hc hp hv
    next => cases h
  next => cases h

theorem poolReturn_cases {c : Nat} (h : s.poolReturn c = some s') :
    Step cfg s (.poolReturn c) s' := by
  simp only [State.poolReturn] at h
  split at h
  next i k hc =>
    split at h
    next fd hk =>
      cases h
      exact .poolHeld hc hk
    next errno hk =>
      cases h
      exact .poolRefused hc hk
    next => cases h
  next => cases h

theorem release_cases {c : Nat} {ok : Bool} (h : s.release cfg c ok = some s') :
    Step cfg s (.release c ok) s' := by
  simp only [State.release] at h
  split at h
  next hd k hc =>
    split at h
    next hneg =>
      cases h
      exact .releaseNothing ok hc hneg
    next hfd =>
      split at h
      next hinvalid =>
        cases h
        exact .releaseInvalid ok hc (Int.not_lt.mp hfd) hinvalid
      next =>
        split at h
        next p hp =>
          cases h
          exact .release ok hc (Int.not_lt.mp hfd) hp
        next => cases h
  next => cases h

theorem releaseReturn_cases {c : Nat} (h : s.releaseReturn c = some s') :
    Step cfg s (.releaseReturn c) s' := by
  simp only [State.releaseReturn] at h
  split at h
  next hd k hc =>
    split at h
    next hk =>
      cases h
      exact .releaseReturn hc hk
    next => cases h
  next => cases h

theorem shutdownStep_cases (h : s.shutdownStep cfg = some s') :
    Step cfg s .shutdownStep s' := by
  simp only [State.shutdownStep] at h
  split at h
  next i hpc =>
    split at h
    next =>
      obtain ⟨t, ht, rfl⟩ := Option.map_eq_some_iff.mp h
      obtain ⟨p, v, hp, hv, rfl⟩ := poolStep_cases ht
      exact .shutdownCall hpc hp hv
    next hdone =>
      cases h
      exact .shutdownReturn hpc (Nat.not_lt.mp hdone)
  next i hpc =>
    split at h
    next p hp =>
      split at h
      next =>
        cases h
        exact .shutdownNext hpc
      next => cases h
    next => cases h
  next => cases h
  next => cases h

/-- The inversion of a step. -/
theorem step_cases {e : Event} (h : step cfg s e = some s') : Step cfg s e s' := by
  cases e with
  | clock ms =>
      cases h
      exact .clock ms
  | foreignOpen fd =>
      simp only [step] at h
      split at h
      next hfree =>
        cases h
        exact .foreignOpen hfree
      next => cases h
  | foreignClose fd =>
      simp only [step] at h
      split at h
      next hother =>
        cases h
        exact .foreignClose hother
      next => cases h
  | pool i e =>
      simp only [step] at h
      split at h
      next hinner =>
        obtain ⟨p, v, hp, hv, rfl⟩ := poolStep_cases h
        exact .pool hinner hp hv
      next => cases h
  | borrow =>
      simp only [step] at h
      split at h
      next hempty =>
        cases h
        exact .borrowEmpty hempty
      next hne =>
        cases h
        exact .borrow hne
  | pickLock c =>
      simp only [step] at h
      split at h
      next hc =>
        split at h
        next => cases h
        next hfree =>
          cases h
          exact .pickLock hc (by simpa using hfree)
      next => cases h
  | pickLoad c => exact pickLoad_cases h
  | bump c => exact bump_cases h
  | poolBorrow c => exact poolBorrow_cases h
  | poolReturn c => exact poolReturn_cases h
  | count c =>
      simp only [step, State.count] at h
      split at h
      next i k fd hc =>
        cases h
        exact .count hc
      next => cases h
  | compensate c =>
      simp only [step, State.compensate] at h
      split at h
      next i hc =>
        cases h
        exact .compensate hc
      next => cases h
  | release c ok => exact release_cases h
  | releaseReturn c => exact releaseReturn_cases h
  | decrement c =>
      simp only [step, State.decrement] at h
      split at h
      next hd hc =>
        cases h
        exact .decrement hc
      next => cases h
  | shutdown =>
      simp only [step] at h
      split at h
      next =>
        cases h
        exact .shutdown
      next =>
        cases h
        exact .shutdown
      next => cases h
  | shutdownStep => exact shutdownStep_cases h

end InferenceRouter.BackendSet
