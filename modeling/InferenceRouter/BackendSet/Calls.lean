import InferenceRouter.BackendSet.Model

/-!
# The calls of the set

`BackendSet::borrow` and `BackendSet::release` as whole calls, for what a handler sees of
them.  Their pick is the one of `BackendSet.Model` when no other thread takes a step in
between (`exec_pick`).  The pools are behind `PoolCalls`, which leaves open what else
happens in a pool during a call: `scripted` is the pool of `BackendPool.Model`, with a
script for every call.
-/

namespace InferenceRouter.BackendSet

open Interleaving Handler

/-- The calls of a pool.  `none` is a call that does not return. -/
structure PoolCalls (π : Type) where
  /-- The descriptor, or `none` for `-1`. -/
  borrow : π → Option (Option Nat × π)
  release : π → Nat → Bool → Option π

/-- The members of the set that the calls use. -/
structure Members (π : Type) where
  pools : List π
  inFlight : Nat → UInt64 := fun _ => 0
  handled : Nat → UInt64 := fun _ => 0

variable {π : Type}

/-- The loop of `pick_lowest_load_locked_`, up to backend `n`. -/
def pickUpTo (cfg : Config) (load : Nat → UInt64) : Nat → Pick
  | 0 => .first (cfg.weight 0) (load 0)
  | n + 1 => (pickUpTo cfg load n).next (cfg.weight (n + 1)) (load (n + 1))

/-- `pick_lowest_load_locked_`. -/
def Members.pickLowestLoad (cfg : Config) (s : Members π) : Nat :=
  (pickUpTo cfg s.inFlight (s.pools.length - 1)).best

/-- `BackendSet::borrow`. -/
def Members.borrow (P : PoolCalls π) (cfg : Config) (s : Members π) : Option (Handle × Members π) :=
  match s.pools with
  | [] => some ({ fd := -1, poolIndex := 0 }, s)
  | _ =>
      let i := s.pickLowestLoad cfg
      let bumped := Function.update s.inFlight i (s.inFlight i + 1)
      match s.pools[i]? with
      | none => none
      | some p =>
          match P.borrow p with
          | none => none
          | some (none, p') =>
              some ({ fd := -1, poolIndex := 0 }, { s with
                pools := s.pools.set i p'
                inFlight := Function.update bumped i (bumped i - 1) })
          | some (some fd, p') =>
              some ({ fd := fd, poolIndex := i }, { s with
                pools := s.pools.set i p'
                inFlight := bumped
                handled := Function.update s.handled i (s.handled i + 1) })

/-- `BackendSet::release`. -/
def Members.release (P : PoolCalls π) (s : Members π) (h : Handle) (ok : Bool) :
    Option (Members π) :=
  if h.fd < 0 then some s
  else
    match s.pools[h.poolIndex]? with
    | none => some s
    | some p =>
        match P.release p h.fd.toNat ok with
        | none => none
        | some p' =>
            some { s with
              pools := s.pools.set h.poolIndex p'
              inFlight := Function.update s.inFlight h.poolIndex (s.inFlight h.poolIndex - 1) }

/-! ## The pick of a thread that nobody disturbs -/

section Alone

variable {cfg : Config} {s : State} {c : Nat}

theorem length_pickUpTo (cfg : Config) (load : Nat → UInt64) (n : Nat) :
    (pickUpTo cfg load n).reads.length = n + 1 := by
  induction n with
  | zero => rfl
  | succ n ih =>
      simp only [pickUpTo, Pick.next]
      split <;> simp [ih]

/-- Without other steps in between, the loads of a pick are the loop over one state. -/
theorem exec_pickLoads (hc : s.callers[c]? = some .locked) {n : Nat} (hn : n < cfg.count) :
    (machine cfg).exec s (List.replicate (n + 1) (.pickLoad c)) =
      some (s.setCaller c (.picking (pickUpTo cfg s.load n))) := by
  induction n with
  | zero =>
      refine Machine.exec_single_iff.mpr ?_
      show s.pickLoad cfg c = _
      simp only [State.pickLoad, hc]
      rfl
  | succ n ih =>
      rw [List.replicate_succ', Machine.exec_append_iff]
      refine ⟨_, ih (Nat.lt_of_succ_lt hn), Machine.exec_single_iff.mpr ?_⟩
      show State.pickLoad cfg _ c = _
      simp only [State.pickLoad, State.setCaller, getElem?_set_eq _ hc, if_true, length_pickUpTo,
        if_pos hn, List.set_set]
      rfl

/-- Such a pick chooses the backend of the whole call. -/
theorem exec_pick {m : Members π} (hc : s.callers[c]? = some .locked) (hload : m.inFlight = s.load)
    (hpools : m.pools.length = cfg.count) (hcount : 0 < cfg.count) :
    (machine cfg).exec s (List.replicate cfg.count (.pickLoad c) ++ [.bump c]) =
      some { s with
        inFlight := Function.update s.inFlight (m.pickLowestLoad cfg)
          (s.inFlight (m.pickLowestLoad cfg) + 1)
        pickMu := false
        callers := s.callers.set c (.picked (m.pickLowestLoad cfg)) } := by
  obtain ⟨n, hn⟩ := Nat.exists_eq_add_one_of_ne_zero (Nat.ne_of_gt hcount)
  have hbest : m.pickLowestLoad cfg = (pickUpTo cfg s.load n).best := by
    rw [Members.pickLowestLoad, hload, hpools, hn, Nat.add_sub_cancel]
  have hlt : n < cfg.count := by omega
  have hloads := exec_pickLoads hc hlt
  rw [← hn] at hloads
  refine Machine.exec_append_iff.mpr ⟨_, hloads, Machine.exec_single_iff.mpr ?_⟩
  have hdone : ¬ n + 1 < cfg.count := by omega
  show State.bump cfg _ c = _
  simp only [State.bump, State.setCaller, getElem?_set_eq _ hc, if_true, length_pickUpTo,
    if_neg hdone, List.set_set, hbest]

end Alone

/-! ## The pool of the model -/

/-- A pool, and what happens in it until the end of the next calls. -/
structure Scripted where
  pool : BackendPool.State := {}
  calls : List (List BackendPool.Event)
  /-- The caller's place among the callers of the pool. -/
  mine : Nat := 0

/-- The calls of a `BackendPool`. -/
def scripted (o : BackendPool.Options) : PoolCalls Scripted where
  borrow s :=
    match s.calls with
    | [] => none
    | events :: calls =>
        let mine := s.pool.callers.length
        match (BackendPool.machine o).exec s.pool (.borrow :: events) with
        | none => none
        | some pool =>
            match pool.callers[mine]? with
            | some (.held fd) => some (some fd, { pool := pool, calls := calls, mine := mine })
            | some (.failed _) => some (none, { pool := pool, calls := calls, mine := mine })
            | _ => none
  release s fd ok :=
    match s.calls, s.pool.callers[s.mine]? with
    | events :: calls, some (.held fd') =>
        if fd' = fd then
          match (BackendPool.machine o).exec s.pool (.release s.mine ok :: events) with
          | none => none
          | some pool =>
              match pool.callers[s.mine]? with
              | some .released => some { s with pool := pool, calls := calls }
              | _ => none
        else none
    | _, _ => none

/-- A borrow is a run of the pool that begins with the call and ends with its return. -/
theorem scripted_borrow {o : BackendPool.Options} {p p' : Scripted} {fd : Option Nat}
    (h : (scripted o).borrow p = some (fd, p')) :
    ∃ events, (BackendPool.machine o).exec p.pool (.borrow :: events) = some p'.pool ∧
      p'.mine = p.pool.callers.length ∧
      ((∃ n, fd = some n ∧ p'.pool.callers[p'.mine]? = some (.held n)) ∨
        ∃ errno, fd = none ∧ p'.pool.callers[p'.mine]? = some (.failed errno)) := by
  simp only [scripted] at h
  split at h
  next => cases h
  next events calls _ =>
    split at h
    next => cases h
    next pool hexec =>
      split at h
      next n hn =>
        cases h
        exact ⟨events, hexec, rfl, .inl ⟨n, rfl, hn⟩⟩
      next errno hn =>
        cases h
        exact ⟨events, hexec, rfl, .inr ⟨errno, rfl, hn⟩⟩
      next => cases h

theorem scripted_release {o : BackendPool.Options} {p p' : Scripted} {fd : Nat} {ok : Bool}
    (h : (scripted o).release p fd ok = some p') :
    ∃ events, (BackendPool.machine o).exec p.pool (.release p.mine ok :: events) = some p'.pool ∧
      p'.mine = p.mine ∧ p'.pool.callers[p.mine]? = some .released := by
  simp only [scripted] at h
  split at h
  next events calls fd' _ _ =>
    split at h
    next =>
      split at h
      next => cases h
      next pool hexec =>
        split at h
        next hreleased =>
          cases h
          exact ⟨events, hexec, rfl, hreleased⟩
        next => cases h
    next => cases h
  next => cases h

end InferenceRouter.BackendSet
