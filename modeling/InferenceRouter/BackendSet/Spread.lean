import InferenceRouter.BackendSet.Capacity
import InferenceRouter.BackendSet.Pick

/-!
# Picks among few loads

A pick takes the first backend of least load, and a backend without load is least loaded
whatever its weight is.  If the loads that a pick reads add up to less than `n`, one of the
first `n` backends has none, and the pick does not get past it (`State.Sparse.best_lt`).

The values that a pick has read are not a snapshot.  What is invariant is the sum of the
values already read and of the counters still to be read (`State.Sparse`): a load of the
pick itself does not change it, and every other step only makes counters smaller, since
`pick_mu_` keeps other increments out.

Where no pick gets past the first `n` backends, the others are never called
(`confined_step`).
-/

namespace InferenceRouter.BackendPool

open Interleaving

variable {o : Options} {s s' : State} {e : Event}

/-- A pool that nobody has called dials nothing. -/
theorem uncalled_step (h : Step o s e s') (hborrow : e ≠ .borrow) (hnil : s.callers = []) :
    s'.callers = [] ∧ s'.dials = s.dials := by
  have hnone : ∀ {i : Nat} {c : Caller}, s.callers[i]? ≠ some c := by
    intro i c
    rw [hnil]
    simp
  cases h with
  | borrow => exact absurd rfl hborrow
  | borrowAbort hi | borrowIdle hi | borrowDial hi | borrowSleep hi | borrowTimeout hi
  | borrowSpurious hi | dialOk hi | dialFail hi | dialFailLock hi | incPoolCreate hi
  | incPoolBorrow hi | release _ hi | sample hi | releaseKeep hi | releaseDrop hi
  | releaseClose hi => exact absurd hi hnone
  | shutdownNotify => exact ⟨by rw [hnil]; rfl, rfl⟩
  | clock | foreignOpen | foreignClose | shutdownAgain | shutdown | shutdownClose | shutdownUnlock
  | shutdownReturn | reaperExit | reaperWait | sweep | pushBack | closeVictim | victimsClosed
  | startPings | pingsDone | closeDead | deadClosed | pingOk | pingFail => exact ⟨hnil, rfl⟩

end InferenceRouter.BackendPool

namespace InferenceRouter.BackendSet

open Interleaving Balance

variable {cfg : Config} {s s' : State} {e : Event} {n : Nat}

/-! ## What a pick has read, and will read -/

/-- The value read for backend `j`, or the counter that is still to be read. -/
def Pick.mixed (p : Pick) (inFlight : Nat → Int) (j : Nat) : Int :=
  if j < p.reads.length then p.read j else inFlight j

theorem Pick.read_nonneg (p : Pick) (j : Nat) : 0 ≤ p.read j := Int.natCast_nonneg _

theorem Pick.mixed_first {w l : UInt64} {inFlight : Nat → Int} (h : (l.toNat : Int) = inFlight 0) :
    (Pick.first w l).mixed inFlight = inFlight := by
  funext j
  by_cases hj : j < (Pick.first w l).reads.length
  · rw [mixed, if_pos hj, Nat.lt_one_iff.mp hj]
    exact h
  · rw [mixed, if_neg hj]

theorem Pick.mixed_next {p : Pick} {w l : UInt64} {inFlight : Nat → Int}
    (h : (l.toNat : Int) = inFlight p.reads.length) :
    (p.next w l).mixed inFlight = p.mixed inFlight := by
  funext j
  simp only [mixed, length_next]
  rcases Nat.lt_trichotomy j p.reads.length with hlt | rfl | hgt
  · rw [if_pos (by omega), if_pos hlt, read_next_of_lt hlt]
  · rw [if_pos (by omega), if_neg (by omega), read_next_length, h]
  · rw [if_neg (by omega), if_neg (by omega)]

theorem Pick.mixed_mono {p : Pick} {inFlight inFlight' : Nat → Int} {j : Nat}
    (h : inFlight' j ≤ inFlight j) : p.mixed inFlight' j ≤ p.mixed inFlight j := by
  simp only [mixed]
  split
  next => exact le_rfl
  next => exact h

/-- Where a pick comes from: it was there before, or it has just loaded a counter. -/
theorem picking_source (h : Step cfg s e s') {c : Nat} {p : Pick}
    (hc : s'.callers[c]? = some (.picking p)) :
    (s.callers[c]? = some (.picking p) ∧ e.actor ≠ some c) ∨
      s'.inFlight = s.inFlight ∧
        ((s.callers[c]? = some .locked ∧ p = .first (cfg.weight 0) (s.load 0)) ∨
          ∃ q : Pick, s.callers[c]? = some (.picking q) ∧ q.reads.length < cfg.count ∧
            p = q.next (cfg.weight q.reads.length) (s.load q.reads.length)) := by
  have hset : ∀ {d : Nat} {a : Caller} (b : Caller), s.callers[d]? = some a →
      (∀ q, b ≠ .picking q) → (s.callers.set d b)[c]? = some (.picking p) →
      s.callers[c]? = some (.picking p) ∧ some d ≠ some c := by
    intro d a b hd hb hget
    rw [getElem?_set_eq b hd] at hget
    split at hget
    next => exact absurd (Option.some.inj hget) (hb p)
    next hne => exact ⟨hget, fun heq => hne (Option.some.inj heq).symm⟩
  have hnew : ∀ b : Caller, (∀ q, b ≠ .picking q) →
      (s.callers ++ [b])[c]? = some (.picking p) → s.callers[c]? = some (.picking p) := by
    intro b hb hget
    rcases getElem?_append_single hget with hold | ⟨-, heq⟩
    · exact hold
    · exact absurd heq.symm (hb p)
  cases h with
  | clock | foreignOpen | foreignClose | pool | shutdown | shutdownCall | shutdownNext
  | shutdownReturn => exact .inl ⟨hc, by simp [Event.actor]⟩
  | borrowEmpty | borrow => exact .inl ⟨hnew _ (by simp) hc, by simp [Event.actor]⟩
  | pickFirst hd =>
      rw [getElem?_set_eq _ hd] at hc
      split at hc
      next heq =>
        subst heq
        cases hc
        exact .inr ⟨rfl, .inl ⟨hd, rfl⟩⟩
      next hne => exact .inl ⟨hc, fun heq => hne (Option.some.inj heq).symm⟩
  | @pickNext d q hd hmore =>
      rw [getElem?_set_eq _ hd] at hc
      split at hc
      next heq =>
        subst heq
        cases hc
        exact .inr ⟨rfl, .inr ⟨q, hd, hmore, rfl⟩⟩
      next hne => exact .inl ⟨hc, fun heq => hne (Option.some.inj heq).symm⟩
  | pickLock hd | bump hd | poolBorrow hd | poolHeld hd | poolRefused hd | count hd
  | compensate hd | releaseNothing _ hd | releaseInvalid _ hd | release _ hd | releaseReturn hd
  | decrement hd => exact .inl (hset _ hd (by simp) hc)

/-- Every pick has scanned what it read, and the sum over what was and will be read is
below `n`. -/
def State.Sparse (cfg : Config) (n : Nat) (s : State) : Prop :=
  ∀ (c : Nat) (p : Pick), s.callers[c]? = some (.picking p) →
    p.Scanned cfg ∧ ∑ j ∈ Finset.range cfg.count, p.mixed s.inFlight j < n

theorem sparse_step (h : Step cfg s e s') (ha : Accounted cfg s)
    (hfits : ∀ (c : Nat) (p : Pick), s.callers[c]? = some (.picking p) →
      p.reads.length < cfg.count → p.Fits (cfg.weight p.reads.length) (s.load p.reads.length))
    (hload : ∀ i < cfg.count, ((s.load i).toNat : Int) = s.inFlight i)
    (hroom : ∀ c : Nat, s.callers[c]? = some .locked →
      ∑ j ∈ Finset.range cfg.count, s.inFlight j < n)
    (hs : s.Sparse cfg n) : s'.Sparse cfg n := by
  intro c p hc
  rcases picking_source h hc with ⟨hold, hactor⟩ | ⟨hsame, ⟨hlocked, rfl⟩ | ⟨q, hq, hmore, rfl⟩⟩
  · -- another thread's step: counters only shrink
    obtain ⟨hscanned, hsum⟩ := hs c p hold
    refine ⟨hscanned, lt_of_le_of_lt (Finset.sum_le_sum fun j _ => ?_) hsum⟩
    exact Pick.mixed_mono (ha.inFlight_le h hold rfl hactor j)
  · have hne : cfg.count ≠ 0 := ha.placed _ (List.mem_of_getElem? hlocked)
    rw [hsame, Pick.mixed_first (hload 0 (Nat.pos_of_ne_zero hne))]
    exact ⟨Pick.scanned_first cfg _, hroom c hlocked⟩
  · obtain ⟨hscanned, hsum⟩ := hs c q hq
    rw [hsame, Pick.mixed_next (hload _ hmore)]
    exact ⟨hscanned.next (hfits c q hq hmore), hsum⟩

theorem Config.score_nonneg {inFlight : Nat → Int} {j : Nat} (h : 0 ≤ inFlight j) :
    0 ≤ cfg.score inFlight j :=
  div_nonneg (by exact_mod_cast h) (Nat.cast_nonneg _)

/-- A pick that has read all counters has chosen one of the first `n` backends. -/
theorem State.Sparse.best_lt (hs : s.Sparse cfg n) {c : Nat} {p : Pick}
    (hc : s.callers[c]? = some (.picking p)) (hdone : p.reads.length = cfg.count) :
    p.best < n := by
  obtain ⟨hscanned, hsum⟩ := hs c p hc
  have hleft := hscanned.leftmost
  rcases Nat.lt_or_ge p.best n with hlt | hge
  · exact hlt
  have hn : n ≤ cfg.count := by
    have := hleft.lt
    omega
  -- among the first `n` values read there is a zero
  have hprefix : ∑ j ∈ Finset.range n, p.read j < n := by
    refine lt_of_le_of_lt ?_ hsum
    have hmixed : ∑ j ∈ Finset.range cfg.count, p.mixed s.inFlight j =
        ∑ j ∈ Finset.range cfg.count, p.read j := by
      refine Finset.sum_congr rfl fun j hj => if_pos ?_
      rw [hdone]
      exact Finset.mem_range.mp hj
    rw [hmixed]
    exact Finset.sum_le_sum_of_subset_of_nonneg (Finset.range_mono hn)
      (fun j _ _ => p.read_nonneg j)
  obtain ⟨j, hj, hzero⟩ := exists_eq_zero_of_sum_lt (fun j _ => p.read_nonneg j) hprefix
  have hle : p.best ≤ j := hleft.le_of_eq_zero
    (fun k _ => Config.score_nonneg (p.read_nonneg k)) (by simp [Config.score, hzero])
  omega

/-! ## Backends that nobody picks -/

/-- The backend that the caller was given. -/
def Caller.target : Caller → Option Nat
  | .returned h => some h.poolIndex
  | c => c.backend

/-- Only the first `n` backends are in use. -/
structure Confined (n : Nat) (s : State) : Prop where
  callers : ∀ c ∈ s.callers, ∀ i, c.target = some i → i < n
  pools : ∀ (j : Nat) (p : BackendPool.Pool), n ≤ j → s.pools[j]? = some p →
    p.callers = [] ∧ p.dials = 0

theorem Confined.setPool (h : Confined n s) {i : Nat} {p q : BackendPool.Pool}
    (hp : s.pools[i]? = some p) (hq : n ≤ i → q.callers = [] ∧ q.dials = 0) (j : Nat)
    (r : BackendPool.Pool) (hj : n ≤ j) (hr : (s.pools.set i q)[j]? = some r) :
    r.callers = [] ∧ r.dials = 0 := by
  rw [getElem?_set_eq _ hp] at hr
  split at hr
  next heq =>
    cases hr
    exact hq (heq ▸ hj)
  next => exact h.pools j r hj hr

theorem confined_step (h : Step cfg s e s')
    (hbest : ∀ (c : Nat) (p : Pick), s.callers[c]? = some (.picking p) →
      cfg.count ≤ p.reads.length → p.best < n)
    (hc : Confined n s) : Confined n s' := by
  have hset : ∀ {c : Nat} {a : Caller} (b : Caller), s.callers[c]? = some a →
      (∀ i, b.target = some i → a.target = some i) →
      ∀ d ∈ s.callers.set c b, ∀ i, d.target = some i → i < n := by
    intro c a b ha hab
    apply forall_mem_set hc.callers
    intro i hi
    exact hc.callers a (List.mem_of_getElem? ha) i (hab i hi)
  have hpool : ∀ {i : Nat} {p : BackendPool.Pool} {e : BackendPool.Event}
      {v : BackendPool.State}, s.pools[i]? = some p → e ≠ .borrow →
      BackendPool.step cfg.shared.normalise (s.view i p) e = some v →
      n ≤ i → v.toPool.callers = [] ∧ v.toPool.dials = 0 := by
    intro i p e v hp he hv hi
    obtain ⟨hnil, hdials⟩ := hc.pools i p hi hp
    obtain ⟨hnil', hdials'⟩ := BackendPool.uncalled_step (BackendPool.step_cases hv) he hnil
    exact ⟨hnil', hdials'.trans hdials⟩
  cases h with
  | clock | foreignOpen | foreignClose | shutdown | shutdownNext | shutdownReturn =>
      exact ⟨hc.callers, hc.pools⟩
  | @pool i e p v hinner hp hv =>
      refine ⟨hc.callers, hc.setPool hp (hpool hp ?_ hv)⟩
      rintro rfl
      cases hinner
  | shutdownCall _ hp hv => exact ⟨hc.callers, hc.setPool hp (hpool hp (by simp) hv)⟩
  | borrowEmpty | borrow =>
      refine ⟨fun c hmem => ?_, hc.pools⟩
      rcases List.mem_append.mp hmem with hold | hnew
      · exact hc.callers c hold
      · rw [List.mem_singleton.mp hnew]
        simp [Caller.target, Caller.backend]
  | @bump c p hd hdone =>
      refine ⟨forall_mem_set hc.callers ?_, hc.pools⟩
      intro i hi
      cases hi
      exact hbest c p hd hdone
  | @poolBorrow c i p v hd hp hv =>
      have hi : i < n := hc.callers _ (List.mem_of_getElem? hd) i rfl
      exact ⟨hset _ hd (by simp [Caller.target, Caller.backend]),
        hc.setPool hp (fun hle => absurd hi (Nat.not_lt.mpr hle))⟩
  | @release c k hd p ok hheld _ hp =>
      have hi : hd.poolIndex < n := hc.callers _ (List.mem_of_getElem? hheld) _ rfl
      exact ⟨hset _ hheld (by simp [Caller.target, Caller.backend]),
        hc.setPool hp (fun hle => absurd hi (Nat.not_lt.mpr hle))⟩
  | pickLock hd | pickFirst hd | pickNext hd | poolHeld hd | poolRefused hd | count hd
  | compensate hd | releaseNothing _ hd | releaseInvalid _ hd | releaseReturn hd | decrement hd =>
      exact ⟨hset _ hd (by simp [Caller.target, Caller.backend]), hc.pools⟩

theorem confined_init (cfg : Config) (n : Nat) : Confined n (machine cfg).init where
  callers _ hc := absurd hc List.not_mem_nil
  pools _ p _ hp := by
    have hempty : p = {} := List.eq_of_mem_replicate (List.mem_of_getElem? hp)
    rw [hempty]
    exact ⟨rfl, rfl⟩

theorem reachable_confined (h : (machine cfg).Reachable s) : Confined cfg.count s := by
  refine h.invariant_with (Q := Accounted cfg) (fun _ => reachable_accounted)
    (confined_init cfg _) ?_
  intro t e t' ha hc hstep
  refine confined_step (step_cases hstep) (fun c p hp _ => ?_) hc
  obtain ⟨hbest, hle⟩ := ha.placed _ (List.mem_of_getElem? hp)
  omega

theorem Confined.unused (h : Confined n s) (ha : Accounted cfg s) {j : Nat} (hj : n ≤ j) :
    s.inFlight j = 0 ∧ s.handled j = 0 := by
  rw [ha.loads, ha.handled]
  refine ⟨total_eq_zero _ fun c hc => ?_, total_eq_zero _ fun c hc => ?_⟩
  · have hne : c.backend ≠ some j := by
      intro hb
      have htarget : c.target = some j := by
        cases c <;> simp_all [Caller.target, Caller.backend]
      exact absurd (h.callers c hc j htarget) (Nat.not_lt.mpr hj)
    simp [Caller.load, hne]
  · by_contra hne
    have htarget : c.target = some j := by
      cases c <;> simp_all [Caller.target, Caller.backend, Caller.handled]
    exact absurd (h.callers c hc j htarget) (Nat.not_lt.mpr hj)

end InferenceRouter.BackendSet
