import InferenceRouter.BackendPool.Effort
import InferenceRouter.BackendSet.Callers
import InferenceRouter.BackendSet.Capacity

/-!
# The steps that the set has left

The effort of the set is that of its pools, with what its own callers and its `shutdown`
have before them.  A caller that has not picked a backend yet has the whole scan of the
pick to make, and it keeps in hand what its call of the pool's `borrow` will cost there
(`effort_step`).

A call of the set is never stuck.  A caller waits for `pick_mu_`, whose holder can go on, or
for its entry in a pool, which can go on by `BackendPool.canMove_of_caller`; and `shutdown`
waits for the `shutdown` of one pool, which waits for nobody (`canMove_of_caller`,
`canMove_of_shutdown`).
-/

namespace InferenceRouter.BackendSet

open Interleaving Handler
open BackendPool (Phase)

variable {cfg : Config} {s s' : State} {e : Event}

/-! ## Steps and their prices -/

/-- The steps of the callers and of `shutdown`, in the set and in its pools. -/
def Event.productive : Event → Bool
  | .pool _ e => e.productive
  | .pickLock _ | .pickLoad _ | .bump _ | .poolBorrow _ | .poolReturn _ | .count _ | .compensate _
  | .releaseReturn _ | .decrement _ | .shutdownStep => true
  | .clock _ | .foreignOpen _ | .foreignClose _ | .borrow | .release _ _ | .shutdown => false

/-- How many steps a call or a spurious wakeup can cause. -/
def Event.price (cfg : Config) : Event → Nat
  | .pool _ e => e.price
  | .borrow => cfg.count + 19
  | .shutdown => 2 * cfg.count + 1
  | _ => 0

theorem Event.inner_of_productive (h : e.productive = true) : e.inner = true := by
  cases e <;> first | rfl | cases h

theorem Event.price_of_productive (h : e.productive = true) : e.price cfg = 0 := by
  cases e with
  | pool i e => exact BackendPool.Event.price_of_productive h
  | borrow | shutdown => cases h
  | _ => rfl

/-! ## The work that is left -/

def Caller.effort (cfg : Config) : Caller → Nat
  | .entered => cfg.count + 19
  | .locked => cfg.count + 18
  | .picking p => (cfg.count - p.reads.length) + 17
  | .picked _ => 16
  | .borrowing _ _ => 5
  | .borrowed _ _ _ => 4
  | .held _ _ => 3
  | .releasing _ _ => 2
  | .released _ | .refused _ => 1
  | .returned _ | .failed => 0

def Shutdown.effort (cfg : Config) : Shutdown → Nat
  | .calling i => 2 * (cfg.count - i) + 1
  | .inside i => 2 * (cfg.count - i)
  | .idle | .returned => 0

def State.effort (cfg : Config) (s : State) : Nat :=
  total BackendPool.Pool.effort s.pools + total (Caller.effort cfg) s.callers +
    s.shutdown.effort cfg

/-- A caller moves on. -/
theorem effort_setCaller {n price c : Nat} {a b : Caller} (hc : s.callers[c]? = some a)
    (hcallers : s'.callers = s.callers.set c b) (hpools : s'.pools = s.pools)
    (hshutdown : s'.shutdown = s.shutdown) (hlower : n + b.effort cfg ≤ a.effort cfg + price) :
    n + s'.effort cfg ≤ s.effort cfg + price := by
  have hset := total_set (Caller.effort cfg) b hc
  simp only [State.effort, hcallers, hpools, hshutdown]
  omega

/-- A caller moves on, with one of the pools. -/
theorem effort_setPool {n price c i : Nat} {a b : Caller} {p q : BackendPool.Pool}
    (hc : s.callers[c]? = some a) (hp : s.pools[i]? = some p)
    (hcallers : s'.callers = s.callers.set c b) (hpools : s'.pools = s.pools.set i q)
    (hshutdown : s'.shutdown = s.shutdown)
    (hlower : n + b.effort cfg + q.effort ≤ a.effort cfg + p.effort + price) :
    n + s'.effort cfg ≤ s.effort cfg + price := by
  have hset := total_set (Caller.effort cfg) b hc
  have hpool := total_set BackendPool.Pool.effort q hp
  simp only [State.effort, hcallers, hpools, hshutdown]
  omega

/-! ## Pools that are shut down -/

/-- A pool whose flag is set keeps it. -/
theorem shuttingDown_step (h : Step cfg s e s') (hl : Linked s) {i : Nat} {p : BackendPool.Pool}
    (hp : s.pools[i]? = some p) (hshut : p.shuttingDown = true) :
    ∃ q, s'.pools[i]? = some q ∧ q.shuttingDown = true := by
  obtain ⟨q, hq, hstep⟩ := pool_step h hl hp
  refine ⟨q, hq, ?_⟩
  cases hstep with
  | same => exact hshut
  | own hv => exact BackendPool.shuttingDown_step hv hshut

/-- In `pools_[i]->shutdown()` the flag of that pool is set. -/
def State.Shutting (s : State) : Prop :=
  ∀ i, s.shutdown = .inside i → ∃ p, s.pools[i]? = some p ∧ p.shuttingDown = true

theorem shutting_step (h : Step cfg s e s') (hl : Linked s) (hs : s.Shutting) :
    s'.Shutting := by
  intro i hinside
  have hkeep : s.shutdown = .inside i → ∃ q, s'.pools[i]? = some q ∧ q.shuttingDown = true := by
    intro hpc
    obtain ⟨p, hp, hshut⟩ := hs i hpc
    exact shuttingDown_step h hl hp hshut
  cases h with
  | @shutdownCall j p v _ hp hv =>
      cases hinside
      refine ⟨v.toPool, by simp [State.putPool, getElem?_set_eq _ hp], ?_⟩
      cases BackendPool.step_cases hv with
      | shutdownAgain _ hset => exact hset
      | shutdown => rfl
  | shutdown | shutdownNext | shutdownReturn => cases hinside
  | clock | foreignOpen | foreignClose | pool | borrowEmpty | borrow | pickLock | pickFirst
  | pickNext | bump | poolBorrow | poolHeld | poolRefused | count | compensate | releaseNothing
  | releaseInvalid | release | releaseReturn | decrement => exact hkeep hinside

theorem reachable_shutting (h : (machine cfg).Reachable s) : s.Shutting :=
  h.invariant_with (P := State.Shutting) (fun _ => reachable_linked) (fun i hpc => by cases hpc)
    (fun _ _ _ hl hs hstep => shutting_step (step_cases hstep) hl hs)

/-- Only a call of `shutdown` begins one, and only a call begins another. -/
theorem shutdown_step (h : Step cfg s e s') (he : e ≠ .shutdown) :
    (s'.shutdown = .idle ↔ s.shutdown = .idle) ∧
      (s.shutdown = .returned → s'.shutdown = .returned) := by
  cases h with
  | shutdown => exact absurd rfl he
  | shutdownCall hpc | shutdownNext hpc | shutdownReturn hpc => simp [hpc]
  | clock | foreignOpen | foreignClose | pool | borrowEmpty | borrow | pickLock | pickFirst
  | pickNext | bump | poolBorrow | poolHeld | poolRefused | count | compensate | releaseNothing
  | releaseInvalid | release | releaseReturn | decrement => exact ⟨Iff.rfl, id⟩

/-! ## Every step counts -/

theorem effort_pool (h : (machine cfg).Reachable s) {i : Nat} {e : BackendPool.Event}
    {p : BackendPool.Pool} {v : BackendPool.State} (hp : s.pools[i]? = some p)
    (hv : BackendPool.Step cfg.shared.normalise (s.view i p) e v) :
    e.productive.toNat + v.toPool.effort ≤ p.effort + e.price :=
  BackendPool.effort_step hv (BackendPool.reachable_flagged (reachable_view h i p hp))

/-- A step of a caller or of `shutdown` lowers the effort, up to the price of its event. -/
theorem effort_step (h : (machine cfg).Reachable s) (hstep : Step cfg s e s') :
    e.productive.toNat + s'.effort cfg ≤ s.effort cfg + e.price cfg := by
  cases hstep with
  | clock | foreignOpen | foreignClose => exact (Nat.zero_add _).le
  | @pool i e p v _ hp hv =>
      have hpool := effort_pool h hp (BackendPool.step_cases hv)
      have hset := total_set BackendPool.Pool.effort v.toPool hp
      simp only [Event.productive, Event.price, State.effort, State.putPool]
      omega
  | borrowEmpty | borrow =>
      simp only [Event.productive, Event.price, State.effort, Bool.toNat_false, total_append,
        total_cons, total_nil, Caller.effort]
      omega
  | pickLock hc | pickFirst hc | poolHeld hc | poolRefused hc | count hc | compensate hc
  | releaseNothing _ hc | releaseInvalid _ hc | releaseReturn hc | decrement hc =>
      refine effort_setCaller hc rfl rfl rfl ?_
      simp only [Event.productive, Event.price, Bool.toNat_true, Bool.toNat_false, Caller.effort]
      omega
  | pickNext hc hmore =>
      refine effort_setCaller hc rfl rfl rfl ?_
      simp only [Event.productive, Event.price, Bool.toNat_true, Caller.effort, Pick.length_next]
      omega
  | bump hc =>
      refine effort_setCaller hc rfl rfl rfl ?_
      simp only [Event.productive, Event.price, Bool.toNat_true, Caller.effort]
      omega
  | poolBorrow hc hp hv =>
      have hpool := effort_pool h hp (BackendPool.step_cases hv)
      refine effort_setPool hc hp rfl rfl rfl ?_
      simp only [Event.productive, Event.price, Bool.toNat_true, Caller.effort,
        BackendPool.Event.productive, BackendPool.Event.price, Bool.toNat_false] at hpool ⊢
      omega
  | @release c k hd p ok hc _ hp =>
      -- the entry holds the descriptor, and its `release` costs less than the pool counted
      obtain ⟨x, hx, hexp⟩ := (reachable_linked h).entries c _ _ _ hc rfl
      obtain ⟨p', hp', hk⟩ := entry_eq_some.mp hx
      rw [hp, Option.some.injEq] at hp'
      subst hp'
      have hheld : x = .held hd.fd.toNat := by
        cases x <;> cases hexp
        rfl
      subst hheld
      have hpool : 0 + BackendPool.Pool.effort
          { p with callers := p.callers.set k (.releasing hd.fd.toNat ok) } ≤ p.effort + 0 :=
        effort_pool h hp (.release ok hk)
      refine effort_setPool hc hp rfl rfl rfl ?_
      simp only [Event.productive, Event.price, Caller.effort, Bool.toNat_false]
      omega
  | shutdown =>
      simp only [Event.productive, Event.price, State.effort, Bool.toNat_false, Shutdown.effort]
      omega
  | @shutdownCall i p v hpc hp hv =>
      have hpool := effort_pool h hp (BackendPool.step_cases hv)
      have hset := total_set BackendPool.Pool.effort v.toPool hp
      simp only [Event.productive, Event.price, State.effort, State.putPool, hpc, Shutdown.effort,
        BackendPool.Event.productive, BackendPool.Event.price, Bool.toNat_true,
        Bool.toNat_false] at hpool ⊢
      omega
  | @shutdownNext i hpc =>
      obtain ⟨p, hp, -⟩ := reachable_shutting h i hpc
      have hlt : i < cfg.count := length_pools h ▸ lt_of_getElem? hp
      simp only [Event.productive, Event.price, State.effort, hpc, Shutdown.effort,
        Bool.toNat_true]
      omega
  | shutdownReturn hpc =>
      simp only [Event.productive, Event.price, State.effort, hpc, Shutdown.effort,
        Bool.toNat_true]
      omega

/-! ## Some thread can move -/

/-- Some thread inside the set has a step to take after at most a wait. -/
def State.CanMove (cfg : Config) (s : State) : Prop :=
  ∃ (ms : Nat) (e : Event), e.productive = true ∧
    (step cfg { s with now := s.now + ms } e).isSome

theorem State.CanMove.now (he : e.productive = true)
    (h : (step cfg { s with now := s.now + (0 : Nat) } e).isSome) : s.CanMove cfg :=
  ⟨0, e, he, h⟩

/-- What can move in a pool can move in the set. -/
theorem canMove_of_pool {i : Nat} {p : BackendPool.Pool} (hp : s.pools[i]? = some p)
    (h : (s.view i p).CanMove cfg.shared.normalise) : s.CanMove cfg := by
  obtain ⟨ms, e, he, hsome⟩ := h
  obtain ⟨v, hv⟩ := Option.isSome_iff_exists.mp hsome
  have hv : BackendPool.step cfg.shared.normalise
      (State.view { s with now := s.now + ms } i p) e = some v := hv
  refine ⟨ms, .pool i e, he, ?_⟩
  simp [step, BackendPool.Event.inner_of_productive he, State.poolStep, hp, hv]

/-- The entry of a caller that waits for its pool can move. -/
theorem canMove_of_entry {i k : Nat} {a : BackendPool.Caller} (ha : s.entry i k = some a)
    (hphase : a.phase = .borrowing ∨ a.phase = .releasing) : s.CanMove cfg := by
  obtain ⟨p, hp, hk⟩ := entry_eq_some.mp ha
  refine canMove_of_pool hp (BackendPool.canMove_of_caller hk ?_ ?_)
  · cases a <;> simp_all [BackendPool.Caller.phase, BackendPool.Caller.done]
  · rintro fd rfl
    rcases hphase with hphase | hphase <;> cases hphase

/-- The holder of `pick_mu_` can go on. -/
theorem canMove_of_inPick {c : Nat} {a : Caller} (hc : s.callers[c]? = some a)
    (ha : a.inPick = 1) : s.CanMove cfg := by
  cases a with
  | locked =>
      refine .now (e := .pickLoad c) rfl ?_
      simp [step, State.pickLoad, hc]
  | picking p =>
      by_cases hmore : p.reads.length < cfg.count
      · refine .now (e := .pickLoad c) rfl ?_
        simp [step, State.pickLoad, hc, hmore]
      · refine .now (e := .bump c) rfl ?_
        simp [step, State.bump, hc, hmore]
  | entered | picked | borrowing | borrowed | refused | held | releasing | released | returned
  | failed => cases ha

/-- A caller before `pick_mu_` takes it, or its holder goes on. -/
theorem canMove_of_entered (ha : Accounted cfg s) {c : Nat} (hc : s.callers[c]? = some .entered) :
    s.CanMove cfg := by
  cases hmu : s.pickMu with
  | false =>
      refine .now (e := .pickLock c) rfl ?_
      simp [step, hc, hmu]
  | true =>
      have hone := ha.mutex
      rw [if_pos hmu] at hone
      obtain ⟨b, hb, hpick⟩ : ∃ b ∈ s.callers, b.inPick ≠ 0 := by
        by_contra hnone
        have hzero : ∀ b ∈ s.callers, b.inPick = 0 := by simpa using hnone
        rw [total_eq_zero Caller.inPick hzero] at hone
        cases hone
      obtain ⟨d, hd⟩ := List.mem_iff_getElem?.mp hb
      have hle := le_total Caller.inPick hb
      exact canMove_of_inPick hd (by omega)

/-- A caller in `borrow` or in `release` is never stuck. -/
theorem canMove_of_caller (h : (machine cfg).Reachable s) {c : Nat} {p : Stage}
    (hc : s.stage c = some p) (hp : p = .borrowing ∨ ∃ hd, p = .releasing hd) :
    s.CanMove cfg := by
  have haccounted := reachable_accounted h
  have hlinked := reachable_linked h
  obtain ⟨a, ha, rfl⟩ := Option.map_eq_some_iff.mp hc
  cases a with
  | entered => exact canMove_of_entered haccounted ha
  | locked => exact canMove_of_inPick ha rfl
  | picking p => exact canMove_of_inPick ha rfl
  | picked i =>
      have hlt : i < s.pools.length := by
        rw [length_pools h]
        exact haccounted.placed _ (List.mem_of_getElem? ha)
      refine .now (e := .poolBorrow c) rfl ?_
      simp [step, State.poolBorrow, State.poolStep, ha, List.getElem?_eq_getElem hlt,
        BackendPool.step]
  | borrowing i k =>
      obtain ⟨x, hx, hexp⟩ := hlinked.entries c _ i k ha rfl
      have hentry : ∀ now, State.entry { s with now := now } i k = some x := fun _ => hx
      cases hphase : x.phase with
      | borrowing => exact canMove_of_entry hx (.inl hphase)
      | held | failed =>
          refine .now (e := .poolReturn c) rfl ?_
          cases x <;> cases hphase
          simp [step, State.poolReturn, ha, hentry]
      | releasing | released =>
          rw [hphase] at hexp
          cases hexp
  | borrowed i k fd =>
      refine .now (e := .count c) rfl ?_
      simp [step, State.count, ha]
  | refused i =>
      refine .now (e := .compensate c) rfl ?_
      simp [step, State.compensate, ha]
  | releasing hd k =>
      obtain ⟨x, hx, hexp⟩ := hlinked.entries c _ hd.poolIndex k ha rfl
      have hentry : ∀ now, State.entry { s with now := now } hd.poolIndex k = some x :=
        fun _ => hx
      cases hphase : x.phase with
      | releasing => exact canMove_of_entry hx (.inr hphase)
      | released =>
          refine .now (e := .releaseReturn c) rfl ?_
          cases x <;> cases hphase
          simp [step, State.releaseReturn, ha, hentry]
      | borrowing | held | failed =>
          rw [hphase] at hexp
          cases hexp
  | released hd =>
      refine .now (e := .decrement c) rfl ?_
      simp [step, State.decrement, ha]
  | held | returned | failed => rcases hp with hp | ⟨hd, hp⟩ <;> cases hp

/-- `shutdown` is never stuck. -/
theorem canMove_of_shutdown (h : (machine cfg).Reachable s) (hidle : s.shutdown ≠ .idle)
    (hreturned : s.shutdown ≠ .returned) : s.CanMove cfg := by
  cases hpc : s.shutdown with
  | idle => exact absurd hpc hidle
  | returned => exact absurd hpc hreturned
  | calling i =>
      by_cases hlt : i < cfg.count
      · have hlen : i < s.pools.length := by rwa [length_pools h]
        have hp := List.getElem?_eq_getElem hlen
        cases hlock : (s.view i s.pools[i]).unlocked with
        | false => exact canMove_of_pool hp (BackendPool.canMove_of_locked hlock)
        | true =>
            obtain ⟨v, hv⟩ := BackendPool.exists_shutdown (o := cfg.shared.normalise)
              (s := State.view { s with now := s.now + (0 : Nat) } i s.pools[i]) hlock
            refine .now (e := .shutdownStep) rfl ?_
            simp only [step, State.shutdownStep, hpc, if_pos hlt, State.poolStep, hp,
              Option.isSome_map]
            rw [hpc] at hv
            rw [hv]
            rfl
      · refine .now (e := .shutdownStep) rfl ?_
        simp [step, State.shutdownStep, hpc, hlt]
  | inside i =>
      obtain ⟨p, hp, hshut⟩ := reachable_shutting h i hpc
      have hstarted : (s.view i p).shutdown ≠ .idle :=
        BackendPool.reachable_started (reachable_view h i p hp) hshut
      by_cases hdone : p.shutdown = .returned
      · refine .now (e := .shutdownStep) rfl ?_
        simp [step, State.shutdownStep, hpc, hp, hdone]
      · exact canMove_of_pool hp (BackendPool.canMove_of_shutdown hstarted hdone)

end InferenceRouter.BackendSet
