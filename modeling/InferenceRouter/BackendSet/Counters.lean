import InferenceRouter.BackendSet.Pick
import InferenceRouter.BackendSet.Pools

/-!
# The counters are exact

What the load counters are worth at every moment: `in_flight_[i]` is the number of
calls and handles that it is meant to count, so no decrement goes below zero, it covers
the connections that pool `i` has in use, and every handle goes back to the pool that
dialled its descriptor.
-/

namespace InferenceRouter.BackendSet

open Interleaving Handler

variable {cfg : Config} {s s' : State}

/-- In `borrow`, between the `fetch_add` on backend `i` and the return or the
compensating decrement. -/
def Caller.borrowsFrom (i : Nat) : Caller → Nat
  | .picked j | .borrowing j _ | .borrowed j _ _ | .refused j => if j = i then 1 else 0
  | _ => 0

/-- Has a handle of backend `i`. -/
def Caller.holds (i : Nat) : Caller → Nat
  | .held h _ => if h.poolIndex = i then 1 else 0
  | _ => 0

/-- In `release` of such a handle, before the decrement. -/
def Caller.releasesTo (i : Nat) : Caller → Nat
  | .releasing h _ | .released h => if h.poolIndex = i then 1 else 0
  | _ => 0

/-- The next step of the caller is a decrement of `in_flight_[i]`. -/
def Caller.Decrements (i : Nat) : Caller → Prop
  | .refused j => j = i
  | .released h => h.poolIndex = i
  | _ => False

/-- The calls and handles that `in_flight_[i]` counts. -/
def State.counted (s : State) (i : Nat) : Nat :=
  total (Caller.borrowsFrom i) s.callers + total (Caller.holds i) s.callers +
    total (Caller.releasesTo i) s.callers

structure Exact (cfg : Config) (s : State) : Prop where
  inFlight : ∀ i, s.inFlight i = s.counted i
  /-- The counter of 64 bits. -/
  load : ∀ i, (s.load i).toNat = s.counted i % 2 ^ 64
  noWrap : ∀ (i c : Nat) (caller : Caller), s.callers[c]? = some caller → caller.Decrements i →
    0 < s.inFlight i
  inUse : ∀ i p, s.pools[i]? = some p → (p.inUse : Int) ≤ s.inFlight i
  handled : ∀ i, s.handled i = total (Caller.handled i) s.callers
  /-- A handle is released to the pool that dialled its descriptor. -/
  release : ∀ c ok s', step cfg s (.release c ok) = some s' → ∃ h k n, ∃ fd : Nat,
    s.callers[c]? = some (.held h k) ∧ h.fd = fd ∧ s.table fd = some (.conn h.poolIndex n) ∧
      s.entry h.poolIndex k = some (.held fd) ∧ s'.entry h.poolIndex k = some (.releasing fd ok)
  valid : s.invalidReleases = 0

theorem load_eq_counts (i : Nat) (c : Caller) :
    ((c.borrowsFrom i + c.holds i + c.releasesTo i : Nat) : Int) = c.load i := by
  cases c <;> simp [Caller.borrowsFrom, Caller.holds, Caller.releasesTo, Caller.load,
    Caller.backend]

theorem Accounted.inFlight_eq_counted (ha : Accounted cfg s) (i : Nat) :
    s.inFlight i = s.counted i := by
  rw [ha.loads, ← natCast_total (fun c _ => load_eq_counts i c), State.counted, total_add,
    total_add]

theorem Caller.Decrements.load {c : Caller} {i : Nat} (h : c.Decrements i) : c.load i = 1 := by
  cases c with
  | refused | released =>
      have h : _ = i := h
      subst h
      simp [Caller.load, Caller.backend]
  | _ => cases h

theorem Accounted.decrements (ha : Accounted cfg s) {i c : Nat} {caller : Caller}
    (hc : s.callers[c]? = some caller) (hd : caller.Decrements i) : 0 < s.inFlight i := by
  have hle := le_total (fun c => c.borrowsFrom i + c.holds i + c.releasesTo i)
    (List.mem_of_getElem? hc)
  have hone := hd.load
  rw [← load_eq_counts] at hone
  rw [ha.loads, ← natCast_total (fun c _ => load_eq_counts i c)]
  omega

/-- A connection in use is in the hands of an entry that is not finished. -/
theorem leases_of_finished {a : BackendPool.Caller} (h : Finished a.phase) : a.leases = 0 := by
  cases a <;> simp_all [Finished, BackendPool.Caller.phase, BackendPool.Caller.leases]

theorem leases_le_one (a : BackendPool.Caller) : a.leases ≤ 1 := by
  cases a <;> simp [BackendPool.Caller.leases]

theorem Caller.load_of_ticket {c : Caller} {i k : Nat} (h : c.ticket = some (i, k)) :
    c.load i = 1 := by
  cases c <;> simp_all [Caller.ticket, Caller.load, Caller.backend]

theorem inUse_le (ha : Accounted cfg s) (hl : Linked s) (hv : Viewed cfg s) {i : Nat}
    {p : BackendPool.Pool} (hp : s.pools[i]? = some p) : (p.inUse : Int) ≤ s.inFlight i := by
  have huse : p.inUse = total BackendPool.Caller.leases p.callers :=
    BackendPool.reachable_inUse (hv i p hp)
  rw [huse, ha.loads, ← natCast_total (fun c _ => load_eq_counts i c), Int.ofNat_le]
  -- an entry in use is sent to the caller whose ticket it is
  apply total_le_total
    (fun k c => ∃ caller : Caller, s.callers[c]? = some caller ∧ caller.ticket = some (i, k))
  · intro k a hk hne
    obtain ⟨c, caller, hc, ht⟩ := hl.covered i k a (entry_eq_some.mpr ⟨p, hp, hk⟩)
      (fun hfin => hne (leases_of_finished hfin))
    have hone := Caller.load_of_ticket ht
    rw [← load_eq_counts] at hone
    have hle := leases_le_one a
    exact ⟨c, caller, hc, by omega, caller, hc, ht⟩
  · rintro k k' c ⟨caller, hc, ht⟩ ⟨caller', hc', ht'⟩
    rw [hc, Option.some.injEq] at hc'
    subst hc'
    rw [ht, Option.some.injEq, Prod.mk.injEq] at ht'
    exact ht'.2

/-- A handle names a connection that its pool has dialled. -/
theorem held_conn (ha : Accounted cfg s) (hl : Linked s) (hv : Viewed cfg s) {c k : Nat}
    {h : Handle} (hc : s.callers[c]? = some (.held h k)) :
    ∃ n, ∃ fd : Nat, h.fd = fd ∧ s.table fd = some (.conn h.poolIndex n) ∧
      s.entry h.poolIndex k = some (.held fd) := by
  obtain ⟨a, hentry, hexp⟩ := hl.entries c _ _ _ hc rfl
  have hheld : a = .held h.fd.toNat := by
    cases a <;> cases hexp
    rfl
  subst hheld
  obtain ⟨p, hp, hk⟩ := entry_eq_some.mp hentry
  -- the pool owns what its callers hold
  have hledger := BackendPool.reachable_ledger (hv _ p hp)
  have howned : h.fd.toNat ∈ (s.view h.poolIndex p).owned := by
    have hmem : (.held h.fd.toNat) ∈ p.callers := List.mem_of_getElem? hk
    obtain ⟨l₁, l₂, hsplit⟩ := List.append_of_mem hmem
    have hcallers : (s.view h.poolIndex p).callers = l₁ ++ .held h.fd.toNat :: l₂ := hsplit
    rw [BackendPool.State.owned, hcallers, total_append, total_cons]
    simp [BackendPool.Caller.fds]
  obtain ⟨n, hn⟩ := hledger.1.isOpen _ howned
  have hpos := (ha.placed _ (List.mem_of_getElem? hc)).1
  exact ⟨n, h.fd.toNat, (Int.toNat_of_nonneg hpos).symm, view_table_backend.mp hn, hentry⟩

/-- What a call of `release` does. -/
theorem release_entry (ha : Accounted cfg s) (hl : Linked s) (hv : Viewed cfg s) {c : Nat}
    {ok : Bool} (hstep : Step cfg s (.release c ok) s') : ∃ h k n, ∃ fd : Nat,
      s.callers[c]? = some (.held h k) ∧ h.fd = fd ∧ s.table fd = some (.conn h.poolIndex n) ∧
        s.entry h.poolIndex k = some (.held fd) ∧
          s'.entry h.poolIndex k = some (.releasing fd ok) := by
  cases hstep with
  | releaseNothing _ hc hfd =>
      exact absurd hfd (Int.not_lt.mpr (ha.placed _ (List.mem_of_getElem? hc)).1)
  | releaseInvalid _ hc _ hindex =>
      exact absurd (ha.placed _ (List.mem_of_getElem? hc)).2 (Nat.not_lt.mpr hindex)
  | @release c k h p ok hc _ hp =>
      obtain ⟨n, fd, hfd, htable, hentry⟩ := held_conn ha hl hv hc
      refine ⟨h, k, n, fd, hc, hfd, htable, hentry, ?_⟩
      obtain ⟨q, hq, hk⟩ := entry_eq_some.mp hentry
      rw [hp, Option.some.injEq] at hq
      subst hq
      rw [entry_set hp rfl (fun l => getElem?_set_eq _ hk l), if_pos ⟨rfl, rfl⟩, hfd,
        Int.toNat_natCast]

theorem counters_exact (cfg : Config) (h : (machine cfg).Reachable s) : Exact cfg s := by
  have ha := reachable_accounted h
  have hl := reachable_linked h
  have hv := reachable_view h
  constructor
  case inFlight => exact ha.inFlight_eq_counted
  case load =>
    intro i
    rw [State.load, ha.inFlight_eq_counted, UInt64.toNat_ofNat']
    omega
  case noWrap =>
    intro i c caller hc hd
    exact ha.decrements hc hd
  case inUse =>
    intro i p hp
    exact inUse_le ha hl hv hp
  case handled => exact ha.handled
  case release =>
    intro c ok s' hstep
    exact release_entry ha hl hv (step_cases hstep)
  case valid => exact ha.valid

/-- One thread holds a connection of the second backend, one was refused by the first,
and one is between the pool's `release` and the decrement. -/
def threeCallers : List Event :=
  [.borrow, .pickLock 0, .pickLoad 0, .pickLoad 0, .bump 0, .poolBorrow 0, .borrow, .pickLock 1,
    .pickLoad 1, .pickLoad 1, .bump 1, .poolBorrow 1, .borrow, .pickLock 2, .pickLoad 2,
    .pickLoad 2, .bump 2, .poolBorrow 2, .pool 0 (.borrowLock 0), .pool 0 (.dialFail 0),
    .pool 0 (.dialFailLock 0 none), .poolReturn 0, .pool 1 (.borrowLock 0), .pool 1 (.dialOk 0 3),
    .pool 1 (.borrowLock 1), .pool 1 (.dialOk 1 4), .poolReturn 1, .count 1, .poolReturn 2,
    .count 2, .release 2 true, .pool 1 (.sample 1), .pool 1 (.releaseLock 1 none),
    .releaseReturn 2]

theorem counters_exact_threeCallers : ∃ s, (machine oneAndTwo).run threeCallers = some s ∧
    s.inFlight 0 = 1 ∧ s.inFlight 1 = 2 ∧ s.handled 1 = 2 ∧ Exact oneAndTwo s := by
  refine ⟨_, rfl, rfl, rfl, rfl, ?_⟩
  exact counters_exact oneAndTwo ⟨threeCallers, rfl⟩

end InferenceRouter.BackendSet
