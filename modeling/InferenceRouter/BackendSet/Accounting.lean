import InferenceRouter.BackendSet.Model

/-!
# The load counters

A caller counts on one backend from the `fetch_add` under `pick_mu_` to the
`fetch_sub` that undoes it, which comes after a failed borrow or at the end of
`release`.  `Accounted` says that every counter is the number of callers that count
on its backend, that at most one thread is inside the pick, and that handles name
backends of the set.  Every step keeps it.
-/

namespace InferenceRouter.BackendSet

open Interleaving Handler

variable {cfg : Config} {s s' : State} {e : Event}

/-! ## What a caller adds to the counters -/

/-- The backend on whose `in_flight_` the caller counts. -/
def Caller.backend : Caller → Option Nat
  | .picked i | .borrowing i _ | .borrowed i _ _ | .refused i => some i
  | .held h _ | .releasing h _ | .released h => some h.poolIndex
  | .entered | .locked | .picking _ | .returned _ | .failed => none

/-- What the caller adds to `in_flight_[i]`. -/
def Caller.load (i : Nat) (c : Caller) : Int := if c.backend = some i then 1 else 0

/-- What the caller adds to `handled_[i]`. -/
def Caller.handled (i : Nat) : Caller → Nat
  | .held h _ | .releasing h _ | .released h | .returned h => if h.poolIndex = i then 1 else 0
  | _ => 0

/-- The caller holds `pick_mu_`. -/
def Caller.inPick : Caller → Nat
  | .locked | .picking _ => 1
  | _ => 0

/-- The caller names backends of the set. -/
def Caller.Placed (cfg : Config) : Caller → Prop
  | .entered | .locked => cfg.count ≠ 0
  | .picking p => p.best < p.reads.length ∧ p.reads.length ≤ cfg.count
  | .picked i | .borrowing i _ | .borrowed i _ _ | .refused i => i < cfg.count
  | .held h _ | .releasing h _ | .released h => 0 ≤ h.fd ∧ h.poolIndex < cfg.count
  | .returned _ | .failed => True

theorem Caller.Placed.backend_lt {c : Caller} (h : c.Placed cfg) {i : Nat}
    (hi : c.backend = some i) : i < cfg.count := by
  cases c with
  | picked | borrowing | borrowed | refused =>
      cases hi
      exact h
  | held | releasing | released =>
      cases hi
      exact h.2
  | entered | locked | picking | returned | failed => cases hi

theorem Caller.load_nonneg (i : Nat) (c : Caller) : 0 ≤ c.load i := by
  simp only [load]
  split <;> simp

structure Accounted (cfg : Config) (s : State) : Prop where
  loads : ∀ i, s.inFlight i = total (Caller.load i) s.callers
  handled : ∀ i, s.handled i = total (Caller.handled i) s.callers
  mutex : total Caller.inPick s.callers = if s.pickMu = true then 1 else 0
  placed : ∀ c ∈ s.callers, c.Placed cfg
  valid : s.invalidReleases = 0

/-! ## Steps -/

theorem Pick.length_next (p : Pick) (w l : UInt64) :
    (p.next w l).reads.length = p.reads.length + 1 := by
  simp only [next]
  split <;> simp

theorem Pick.best_next_lt {p : Pick} (h : p.best < p.reads.length) (w l : UInt64) :
    (p.next w l).best < (p.next w l).reads.length := by
  rw [length_next]
  simp only [next]
  split
  next => exact Nat.lt_succ_self _
  next => exact Nat.lt_succ_of_lt h

section Step

variable {callers : List Caller} {c : Nat} {a : Caller}

/-- The counters after a caller that is counted elsewhere than before. -/
theorem load_set {inFlight : Nat → Int} (b : Caller) {i : Nat} {d : Int}
    (h : ∀ j, inFlight j = total (Caller.load j) callers) (hc : callers[c]? = some a)
    (hi : b.load i = a.load i + d) (hne : ∀ j, j ≠ i → b.load j = a.load j) (j : Nat) :
    Function.update inFlight i (inFlight i + d) j = total (Caller.load j) (callers.set c b) := by
  have hset := total_set (Caller.load j) b hc
  by_cases hj : j = i
  · subst hj
    rw [Function.update_self, h]
    omega
  · have hsame := hne j hj
    rw [Function.update_of_ne hj, h]
    omega

theorem load_none {c : Caller} (h : c.backend = none) (i : Nat) : c.load i = 0 := by
  simp [Caller.load, h]

theorem load_some {c : Caller} {k : Nat} (h : c.backend = some k) (i : Nat) :
    c.load i = if k = i then 1 else 0 := by
  simp [Caller.load, h]

end Step

theorem loads_step (h : Step cfg s e s') (ha : Accounted cfg s) (i : Nat) :
    s'.inFlight i = total (Caller.load i) s'.callers := by
  have hsame : ∀ {c : Nat} {a : Caller} (b : Caller), s.callers[c]? = some a →
      a.backend = b.backend → s.inFlight i = total (Caller.load i) (s.callers.set c b) := by
    intro c a b hc hab
    rw [total_set_of_eq (Caller.load i) hc (by simp only [Caller.load, hab]), ha.loads i]
  have hleave : ∀ {c k : Nat} {a : Caller} (b : Caller), s.callers[c]? = some a →
      a.backend = some k → b.backend = none →
      Function.update s.inFlight k (s.inFlight k - 1) i =
        total (Caller.load i) (s.callers.set c b) := by
    intro c k a b hc hak hb
    refine load_set b ha.loads hc ?_ ?_ i
    · rw [load_none hb, load_some hak, if_pos rfl]
      rfl
    · intro j hj
      rw [load_none hb, load_some hak, if_neg (Ne.symm hj)]
  have hnew : ∀ {b : Caller}, b.backend = none →
      s.inFlight i = total (Caller.load i) (s.callers ++ [b]) := by
    intro b hb
    rw [total_append, total_cons, total_nil, load_none hb, ha.loads i, add_zero, add_zero]
  cases h with
  | clock | foreignOpen | foreignClose | pool | shutdown | shutdownCall | shutdownNext
  | shutdownReturn => exact ha.loads i
  | borrowEmpty | borrow => exact hnew rfl
  | pickLock hc | pickFirst hc | pickNext hc | poolBorrow hc | poolHeld hc | poolRefused hc
  | count hc | release _ hc | releaseReturn hc => exact hsame _ hc rfl
  | @bump c p hc =>
      refine load_set (.picked p.best) ha.loads hc ?_ ?_ i
      · rw [load_some (c := .picked p.best) rfl, load_none rfl, if_pos rfl]
        rfl
      · intro j hj
        rw [load_some (c := .picked p.best) rfl, load_none rfl, if_neg (Ne.symm hj)]
  | compensate hc => exact hleave _ hc rfl rfl
  | decrement hc => exact hleave _ hc rfl rfl
  | releaseNothing _ hc hfd =>
      have hplaced := ha.placed _ (List.mem_of_getElem? hc)
      exact absurd hfd (Int.not_lt.mpr hplaced.1)
  | releaseInvalid _ hc _ hindex =>
      have hplaced := ha.placed _ (List.mem_of_getElem? hc)
      exact absurd hplaced.2 (Nat.not_lt.mpr hindex)

theorem handled_step (h : Step cfg s e s') (ha : Accounted cfg s) (i : Nat) :
    s'.handled i = total (Caller.handled i) s'.callers := by
  have hsame : ∀ {c : Nat} {a : Caller} (b : Caller), s.callers[c]? = some a →
      a.handled i = b.handled i → s.handled i = total (Caller.handled i) (s.callers.set c b) := by
    intro c a b hc hab
    rw [total_set_of_eq (Caller.handled i) hc hab, ha.handled i]
  cases h with
  | clock | foreignOpen | foreignClose | pool | shutdown | shutdownCall | shutdownNext
  | shutdownReturn => exact ha.handled i
  | borrowEmpty | borrow =>
      show s.handled i = total (Caller.handled i) (s.callers ++ [_])
      rw [total_append, ← ha.handled i]
      rfl
  | pickLock hc | pickFirst hc | pickNext hc | bump hc | poolBorrow hc | poolHeld hc
  | poolRefused hc | compensate hc | releaseNothing _ hc | releaseInvalid _ hc | release _ hc
  | releaseReturn hc | decrement hc => exact hsame _ hc rfl
  | @count c k slot fd hc =>
      have hset := total_set (Caller.handled i) (.held { fd := fd, poolIndex := k } slot) hc
      show Function.update s.handled k (s.handled k + 1) i = _
      simp only [Caller.handled, add_zero] at hset
      rw [hset]
      by_cases hik : i = k
      · subst hik
        rw [Function.update_self, if_pos rfl, ha.handled]
      · rw [Function.update_of_ne hik, if_neg (Ne.symm hik), ha.handled, add_zero]

theorem mutex_step (h : Step cfg s e s') (ha : Accounted cfg s) :
    total Caller.inPick s'.callers = if s'.pickMu = true then 1 else 0 := by
  have hsame : ∀ {c : Nat} {a : Caller} (b : Caller), s.callers[c]? = some a →
      a.inPick = b.inPick →
      total Caller.inPick (s.callers.set c b) = if s.pickMu = true then 1 else 0 := by
    intro c a b hc hab
    rw [total_set_of_eq Caller.inPick hc hab, ha.mutex]
  cases h with
  | clock | foreignOpen | foreignClose | pool | shutdown | shutdownCall | shutdownNext
  | shutdownReturn => exact ha.mutex
  | borrowEmpty | borrow =>
      show total Caller.inPick (s.callers ++ [_]) = _
      rw [total_append, ha.mutex]
      rfl
  | pickFirst hc | pickNext hc | poolBorrow hc | poolHeld hc | poolRefused hc | count hc
  | compensate hc | releaseNothing _ hc | releaseInvalid _ hc | release _ hc | releaseReturn hc
  | decrement hc => exact hsame _ hc rfl
  | pickLock hc hfree =>
      have hset := total_set Caller.inPick .locked hc
      rw [ha.mutex, hfree] at hset
      exact hset
  | @bump c p hc =>
      have hset := total_set Caller.inPick (.picked p.best) hc
      have hle := le_total Caller.inPick (List.mem_of_getElem? hc)
      have hmutex := ha.mutex
      show total Caller.inPick (s.callers.set c (.picked p.best)) = 0
      simp only [Caller.inPick] at hset hle
      split at hmutex <;> omega

theorem placed_step (h : Step cfg s e s') (ha : Accounted cfg s) :
    ∀ c ∈ s'.callers, c.Placed cfg := by
  have hset : ∀ {c : Nat} {a : Caller} (b : Caller), s.callers[c]? = some a →
      (a.Placed cfg → b.Placed cfg) → ∀ d ∈ s.callers.set c b, d.Placed cfg := by
    intro c a b hc hab
    exact forall_mem_set ha.placed (hab (ha.placed a (List.mem_of_getElem? hc)))
  have hnew : ∀ {b : Caller}, b.Placed cfg → ∀ d ∈ s.callers ++ [b], d.Placed cfg := by
    intro b hb d hd
    rcases List.mem_append.mp hd with hd | hd
    · exact ha.placed d hd
    · rw [List.mem_singleton.mp hd]
      exact hb
  cases h with
  | clock | foreignOpen | foreignClose | pool | shutdown | shutdownCall | shutdownNext
  | shutdownReturn => exact ha.placed
  | borrowEmpty => exact hnew trivial
  | borrow hne => exact hnew hne
  | pickLock hc => exact hset _ hc id
  | pickFirst hc =>
      apply hset _ hc
      intro hne
      exact ⟨Nat.one_pos, Nat.pos_of_ne_zero hne⟩
  | pickNext hc hmore =>
      apply hset _ hc
      intro hp
      refine ⟨Pick.best_next_lt hp.1 _ _, ?_⟩
      rw [Pick.length_next]
      exact hmore
  | bump hc => exact hset _ hc (fun hp => Nat.lt_of_lt_of_le hp.1 hp.2)
  | poolBorrow hc => exact hset _ hc id
  | poolHeld hc | poolRefused hc | releaseReturn hc | release _ hc => exact hset _ hc id
  | count hc => exact hset _ hc (fun hi => ⟨Int.natCast_nonneg _, hi⟩)
  | compensate hc | releaseNothing _ hc | releaseInvalid _ hc | decrement hc =>
      exact hset _ hc (fun _ => trivial)

theorem valid_step (h : Step cfg s e s') (ha : Accounted cfg s) : s'.invalidReleases = 0 := by
  cases h with
  | releaseInvalid _ hc _ hindex =>
      have hplaced := ha.placed _ (List.mem_of_getElem? hc)
      exact absurd hplaced.2 (Nat.not_lt.mpr hindex)
  | clock | foreignOpen | foreignClose | pool | borrowEmpty | borrow | pickLock | pickFirst
  | pickNext | bump | poolBorrow | poolHeld | poolRefused | count | compensate | releaseNothing
  | release | releaseReturn | decrement | shutdown | shutdownCall | shutdownNext
  | shutdownReturn => exact ha.valid

theorem accounted_step (h : Step cfg s e s') (ha : Accounted cfg s) : Accounted cfg s' where
  loads := loads_step h ha
  handled := handled_step h ha
  mutex := mutex_step h ha
  placed := placed_step h ha
  valid := valid_step h ha

theorem accounted_init (cfg : Config) : Accounted cfg (machine cfg).init where
  loads _ := rfl
  handled _ := rfl
  mutex := rfl
  placed _ hc := absurd hc List.not_mem_nil
  valid := rfl

theorem reachable_accounted (h : (machine cfg).Reachable s) : Accounted cfg s :=
  h.invariant (accounted_init cfg) (fun _ _ _ ha hstep => accounted_step (step_cases hstep) ha)

/-! ## Consequences -/

theorem Accounted.inFlight_nonneg (h : Accounted cfg s) (i : Nat) : 0 ≤ s.inFlight i := by
  rw [h.loads]
  generalize s.callers = callers
  induction callers with
  | nil => exact le_rfl
  | cons c callers ih =>
      have := c.load_nonneg i
      rw [total_cons]
      omega

/-- Two threads are never inside the pick. -/
theorem Accounted.picking_unique (h : Accounted cfg s) {c d : Nat} {a b : Caller}
    (hc : s.callers[c]? = some a) (hd : s.callers[d]? = some b) (ha : a.inPick = 1)
    (hb : b.inPick = 1) : c = d := by
  by_contra hne
  have hset := total_set Caller.inPick .failed hc
  have hd' : (s.callers.set c .failed)[d]? = some b := by
    rw [getElem?_set_eq _ hc, if_neg (Ne.symm hne), hd]
  have hle := le_total Caller.inPick (List.mem_of_getElem? hd')
  have hmutex := h.mutex
  have hzero : Caller.inPick .failed = 0 := rfl
  split at hmutex <;> omega

end InferenceRouter.BackendSet
