import InferenceRouter.BackendSet.Callers
import InferenceRouter.BackendSet.Capacity

/-!
# Borrows of the pools and handles of the set

`inc_pool_borrow` counts inside a pool, and `handled_[i]` is counted by the set after the
pool's `borrow` has returned.  Between the two a connection is on its way: the entry among
the callers of the pool has it, and the caller of the set has not noticed, or has not counted
yet.  An entry is *delivered* when it has got a connection and nobody waits for it any more.
The delivered entries of a pool are what `handled_[i]` has counted and is about to count
(`delivered_step`), so `handled_[i]` is never ahead of the pool (`handled_le`), and equal to
it when nobody is in a call (`handled_eq`).
-/

namespace InferenceRouter.BackendPool

open Interleaving

variable {o : Options} {s s' : State} {e : Event}

/-- Past its `borrow`, a caller neither gets a connection nor loses what it counts for. -/
theorem Phase.Leads.borrowed_eq {a b : Caller} (h : a.phase.Leads b.phase)
    (ha : a.phase ≠ .borrowing) : b.borrowed = a.borrowed := by
  cases a <;> cases b <;> simp_all [Caller.phase, Phase.Leads, Caller.borrowed]

/-- The caller has a connection, or had one. -/
def Caller.connected : Caller → Nat
  | .dialled _ | .created _ | .held _ | .releasing _ _ | .sampled _ _ | .closing _ | .released => 1
  | _ => 0

theorem Caller.connected_of_atLock {c : Caller} {d : Int} (h : c.atLock = some d) :
    c.connected = 0 := by
  cases c <;> simp_all [atLock, connected]

theorem Caller.connected_of_inWait {c : Caller} {d : Int} (h : c.inWait = some d) :
    c.connected = 0 := by
  cases c <;> simp_all [inWait, connected]

theorem borrowCv_connected_wake (c : Caller) (h : borrowCv.asleep c = true) :
    (borrowCv.wake c).connected = c.connected := by
  obtain ⟨d, rfl, hwake⟩ := borrowCv_wake h
  rw [hwake]
  rfl

/-- Every dial was for a caller of its own. -/
def Pool.Dialled (p : Pool) : Prop := p.dials ≤ total Caller.connected p.callers

theorem dialled_step (h : Step o s e s') (hs : s.toPool.Dialled) : s'.toPool.Dialled := by
  have hs : s.dials ≤ total Caller.connected s.callers := hs
  have hset : ∀ {n i : Nat} {a : Caller} (b : Caller), s.callers[i]? = some a →
      n + a.connected ≤ s.dials + b.connected →
      n ≤ total Caller.connected (s.callers.set i b) := by
    intro n i a b hi hn
    have heq := total_set Caller.connected b hi
    omega
  have hlock : ∀ {i : Nat} {a : Caller} (b : Caller) {d : Int}, s.callers[i]? = some a →
      a.atLock = some d → s.dials ≤ total Caller.connected (s.callers.set i b) := by
    intro i a b d hi hd
    refine hset b hi ?_
    rw [Caller.connected_of_atLock hd]
    omega
  have hnotify : ∀ {i : Nat} {a b : Caller} {callers : List Caller},
      borrowCv.NotifiesOne (s.callers.set i b) callers → s.callers[i]? = some a →
      a.connected = b.connected → s.dials ≤ total Caller.connected callers := by
    intro i a b callers hn hi hab
    rw [hn.total_eq borrowCv_connected_wake]
    exact hset b hi (by rw [hab])
  unfold Pool.Dialled
  cases h with
  | borrow => simpa [Caller.connected] using hs
  | borrowAbort hi hd | borrowIdle hi hd | borrowDial hi hd | borrowSleep hi hd =>
      exact hlock _ hi hd
  | borrowTimeout hi hd =>
      refine hset (.failed .etimedout) hi ?_
      rw [Caller.connected_of_inWait hd]
      exact le_rfl
  | @dialOk i fd hi =>
      refine hset (if o.metrics = true then .dialled fd else .held fd) hi ?_
      split <;> exact le_rfl
  | dialFailLock hi _ hcallers => exact hnotify hcallers hi rfl
  | releaseKeep hi _ hcallers => exact hnotify hcallers hi rfl
  | releaseDrop hi _ hcallers => exact hnotify hcallers hi rfl
  | borrowSpurious hi | dialFail hi | incPoolCreate hi | incPoolBorrow hi | release ok hi
  | sample hi | releaseClose hi => exact hset _ hi le_rfl
  | shutdownNotify =>
      exact hs.trans (CondVar.total_notifyAll borrowCv_connected_wake).ge
  | clock | foreignOpen | foreignClose | shutdownAgain | shutdown | shutdownClose | shutdownUnlock
  | shutdownReturn | reaperExit | reaperWait | sweep | pushBack | closeVictim | victimsClosed
  | startPings | pingsDone | closeDead | deadClosed | pingOk | pingFail => exact hs

theorem reachable_dialled (h : (machine o).Reachable s) : s.toPool.Dialled :=
  h.invariant (P := fun t => t.toPool.Dialled) le_rfl
    (fun _ _ _ hs hstep => dialled_step (step_cases hstep) hs)

end InferenceRouter.BackendPool

namespace InferenceRouter.BackendSet

open Interleaving

variable {cfg : Config} {s s' : State} {e : Event} {i k : Nat} {p : BackendPool.Pool}

/-! ## Deliveries -/

/-- Somebody waits for entry `k` of pool `i`. -/
def State.Awaited (s : State) (i k : Nat) : Prop :=
  ∃ c : Nat, s.callers[c]? = some (Caller.borrowing i k)

/-- Whether the entry has got a connection. -/
def State.lent (s : State) (i k : Nat) : Nat := (s.entry i k).elim 0 BackendPool.Caller.borrowed

open Classical in
/-- Whether it has, and nobody waits for it any more. -/
noncomputable def State.delivered (s : State) (i k : Nat) : Nat :=
  if s.Awaited i k then 0 else s.lent i k

/-- The number of entries of pool `i`. -/
def State.entries (s : State) (i : Nat) : Nat := (s.pools[i]?).elim 0 (fun p => p.callers.length)

/-- The caller is about to count on backend `i`. -/
def Caller.counts (i : Nat) : Caller → Nat
  | .borrowed j _ _ => if j = i then 1 else 0
  | _ => 0

/-- What is delivered is counted, or about to be. -/
def State.Delivered (s : State) : Prop :=
  ∀ i, ∑ k ∈ Finset.range (s.entries i), s.delivered i k =
    s.handled i + total (Caller.counts i) s.callers

theorem delivered_congr (haw : s'.Awaited i k ↔ s.Awaited i k)
    (hlent : ¬ s.Awaited i k → s'.lent i k = s.lent i k) : s'.delivered i k = s.delivered i k := by
  by_cases hw : s.Awaited i k
  · rw [State.delivered, State.delivered, if_pos hw, if_pos (haw.mpr hw)]
  · rw [State.delivered, State.delivered, if_neg hw, if_neg (fun h => hw (haw.mp h)), hlent hw]

/-- Nobody waits for an entry but its own caller, in `borrow`. -/
theorem Linked.awaited_of_borrowing (hl : Linked s) {a : BackendPool.Caller}
    (ha : s.entry i k = some a) (hphase : a.phase = .borrowing) : s.Awaited i k := by
  have hlive : ¬ Finished a.phase := by
    rw [hphase]
    rintro (h | h) <;> cases h
  obtain ⟨c, caller, hc, ht⟩ := hl.covered i k a ha hlive
  obtain ⟨x, hx, hexp⟩ := hl.entries c caller i k hc ht
  rw [ha, Option.some.injEq] at hx
  subst hx
  rw [hphase] at hexp
  cases caller with
  | borrowing j l =>
      cases ht
      exact ⟨c, hc⟩
  | borrowed | held | releasing => cases hexp
  | entered | locked | picking | picked | refused | released | returned | failed => cases ht

/-- Entries that move on while the callers of the set stay. -/
theorem Linked.delivered_forward (hl : Linked s) (hf : Forward s s')
    (hcallers : s'.callers = s.callers) (i k : Nat) : s'.delivered i k = s.delivered i k := by
  refine delivered_congr (by rw [State.Awaited, State.Awaited, hcallers]) (fun hnot => ?_)
  simp only [State.lent]
  cases ha : s.entry i k with
  | none =>
      cases ha' : s'.entry i k with
      | none => rfl
      | some a' =>
          obtain ⟨a, hsome, -⟩ := hf.2 i k a' ha'
          rw [ha] at hsome
          cases hsome
  | some a =>
      obtain ⟨a', ha', hleads⟩ := hf.1 i k a ha
      rw [ha']
      exact hleads.borrowed_eq (fun hphase => hnot (hl.awaited_of_borrowing ha hphase))

/-- Who waits after one caller has moved. -/
theorem awaited_set {c : Nat} {a b : Caller} (hc : s.callers[c]? = some a)
    (hcallers : s'.callers = s.callers.set c b) (ha : a ≠ .borrowing i k)
    (hb : b ≠ .borrowing i k) : s'.Awaited i k ↔ s.Awaited i k := by
  have hget : ∀ d, s'.callers[d]? = if d = c then some b else s.callers[d]? := by
    intro d
    rw [hcallers, getElem?_set_eq b hc]
  constructor
  · rintro ⟨d, hd⟩
    rw [hget] at hd
    split at hd
    next => exact absurd (Option.some.inj hd) hb
    next => exact ⟨d, hd⟩
  · rintro ⟨d, hd⟩
    have hne : d ≠ c := by
      rintro rfl
      rw [hc, Option.some.injEq] at hd
      exact ha hd
    exact ⟨d, by rw [hget, if_neg hne, hd]⟩

/-- When the caller of an entry stops waiting for it, nobody does any more. -/
theorem Linked.not_awaited (hl : Linked s) {c : Nat} {b : Caller}
    (hc : s.callers[c]? = some (.borrowing i k)) (hcallers : s'.callers = s.callers.set c b)
    (hb : b ≠ .borrowing i k) : ¬ s'.Awaited i k := by
  rintro ⟨d, hd⟩
  rw [hcallers, getElem?_set_eq b hc] at hd
  split at hd
  next => exact hb (Option.some.inj hd)
  next hne => exact hne (hl.unique d c _ _ (i, k) hd hc rfl rfl)

theorem State.Delivered.keep (h : s.Delivered) (hentries : ∀ i, s'.entries i = s.entries i)
    (hsame : ∀ i k, s'.delivered i k = s.delivered i k)
    (hcount : ∀ i, s'.handled i + total (Caller.counts i) s'.callers =
      s.handled i + total (Caller.counts i) s.callers) : s'.Delivered := by
  intro i
  rw [hentries, hcount, ← h i]
  exact Finset.sum_congr rfl (fun k _ => hsame i k)

/-- A caller that waits for no entry moves on, and the pools stay. -/
theorem State.Delivered.set (h : s.Delivered) {c : Nat} {a : Caller} (b : Caller)
    (hc : s.callers[c]? = some a) (ha : ∀ i k, a ≠ .borrowing i k) (hb : ∀ i k, b ≠ .borrowing i k)
    (hpools : s'.pools = s.pools) (hcallers : s'.callers = s.callers.set c b)
    (hcount : ∀ i, s'.handled i + b.counts i = s.handled i + a.counts i) : s'.Delivered := by
  refine h.keep (fun i => by rw [State.entries, State.entries, hpools]) ?_ ?_
  · intro i k
    refine delivered_congr (awaited_set hc hcallers (ha i k) (hb i k)) (fun _ => ?_)
    rw [State.lent, State.lent, State.entry, State.entry, hpools]
  · intro i
    have hset := total_set (Caller.counts i) b hc
    have hi := hcount i
    rw [hcallers]
    omega

/-- A new caller waits for nothing, and the pools stay. -/
theorem State.Delivered.append (h : s.Delivered) (b : Caller) (hb : ∀ i k, b ≠ .borrowing i k)
    (hcounts : ∀ i, b.counts i = 0) :
    State.Delivered { s with callers := s.callers ++ [b] } := by
  refine h.keep (fun _ => rfl) ?_ ?_
  · intro i k
    refine delivered_congr ?_ (fun _ => rfl)
    constructor
    · rintro ⟨d, hd⟩
      rcases getElem?_append_single hd with hold | ⟨-, hnew⟩
      · exact ⟨d, hold⟩
      · exact absurd hnew.symm (hb i k)
    · rintro ⟨d, hd⟩
      exact ⟨d, by rw [List.getElem?_append_left (lt_of_getElem? hd), hd]⟩
  · intro i
    rw [total_append, total_cons, total_nil, hcounts, add_zero, add_zero]

theorem entries_set {q : BackendPool.Pool} (hp : s.pools[i]? = some p)
    (hpools : s'.pools = s.pools.set i q) (j : Nat) :
    s'.entries j = if j = i then q.callers.length else s.entries j := by
  rw [State.entries, hpools, getElem?_set_eq q hp]
  split <;> rfl

/-- A pool whose callers advance. -/
theorem State.Delivered.forward (h : s.Delivered) (hl : Linked s) {v : BackendPool.State}
    (hp : s.pools[i]? = some p) (hadv : BackendPool.Advances p.callers v.callers)
    (hpools : s'.pools = s.pools.set i v.toPool) (hcallers : s'.callers = s.callers)
    (hhandled : s'.handled = s.handled) : s'.Delivered := by
  refine h.keep ?_ (hl.delivered_forward (.putPool hp hadv hpools) hcallers) ?_
  · intro j
    rw [entries_set hp hpools]
    split
    next heq =>
      subst heq
      rw [State.entries, hp]
      exact hadv.1
    next => rfl
  · intro j
    rw [hcallers, hhandled]

/-- A caller enters pool `i`, and waits for the entry that it gets there. -/
theorem State.Delivered.enter (h : s.Delivered) {c : Nat} {q : BackendPool.Pool}
    {a : BackendPool.Caller} (hc : s.callers[c]? = some (.picked i)) (hp : s.pools[i]? = some p)
    (hq : q.callers = p.callers ++ [a]) (hpools : s'.pools = s.pools.set i q)
    (hcallers : s'.callers = s.callers.set c (.borrowing i p.callers.length))
    (hhandled : s'.handled = s.handled) : s'.Delivered := by
  have hold : ∀ j l, ¬ (j = i ∧ l = p.callers.length) → s'.delivered j l = s.delivered j l := by
    intro j l hne
    refine delivered_congr (awaited_set hc hcallers (by simp) ?_) (fun _ => ?_)
    · rintro heq
      cases heq
      exact hne ⟨rfl, rfl⟩
    · rw [State.lent, State.lent, entry_set hp hpools (x := a) ?_, if_neg hne]
      intro l
      rw [hq]
      exact getElem?_append_eq p.callers a l
  have hnew : s'.delivered i p.callers.length = 0 := by
    refine if_pos ⟨c, ?_⟩
    rw [hcallers, getElem?_set_eq _ hc, if_pos rfl]
  intro j
  have hset := total_set_of_eq (Caller.counts j) hc
    (b := .borrowing i p.callers.length) rfl
  rw [hcallers, hset, hhandled, ← h j, entries_set hp hpools]
  split
  next heq =>
    subst heq
    rw [hq, List.length_append, List.length_singleton, Finset.sum_range_succ, hnew, add_zero,
      State.entries, hp]
    exact Finset.sum_congr rfl (fun l hl => hold j l (fun hjl =>
      absurd (Finset.mem_range.mp hl) (by rw [hjl.2]; exact Nat.lt_irrefl _)))
  next hne => exact Finset.sum_congr rfl (fun l _ => hold j l (fun hjl => hne hjl.1))

/-- The caller of an entry learns what its `borrow` has returned. -/
theorem State.Delivered.arrive (h : s.Delivered) (hl : Linked s) {c : Nat} {b : Caller}
    {a : BackendPool.Caller} (hc : s.callers[c]? = some (.borrowing i k))
    (hentry : s.entry i k = some a) (hb : ∀ j l, b ≠ .borrowing j l)
    (hcounts : ∀ j, b.counts j = if j = i then a.borrowed else 0) :
    State.Delivered { s with callers := s.callers.set c b } := by
  have hother : ∀ j l, ¬ (j = i ∧ l = k) →
      State.delivered { s with callers := s.callers.set c b } j l = s.delivered j l := by
    intro j l hne
    refine delivered_congr (awaited_set hc rfl ?_ (hb j l)) (fun _ => rfl)
    rintro heq
    cases heq
    exact hne ⟨rfl, rfl⟩
  have hbefore : s.delivered i k = 0 := if_pos ⟨c, hc⟩
  have hafter : State.delivered { s with callers := s.callers.set c b } i k = a.borrowed := by
    rw [State.delivered, if_neg (hl.not_awaited hc rfl (hb i k))]
    show (s.entry i k).elim 0 BackendPool.Caller.borrowed = _
    rw [hentry]
    rfl
  intro j
  have hset := total_set (Caller.counts j) b hc
  have hwaits : (Caller.borrowing i k).counts j = 0 := rfl
  have hold := h j
  have hj := hcounts j
  show ∑ l ∈ Finset.range (s.entries j), _ =
    s.handled j + total (Caller.counts j) (s.callers.set c b)
  by_cases hji : j = i
  · subst hji
    obtain ⟨p, hp, hk⟩ := entry_eq_some.mp hentry
    have hlt : k < s.entries j := by
      rw [State.entries, hp]
      exact lt_of_getElem? hk
    have hsum := sum_range_exchange
      (f := s.delivered j) (g := State.delivered { s with callers := s.callers.set c b } j) hlt
      (fun l hlk => hother j l (fun hjl => hlk hjl.2))
    rw [if_pos rfl] at hj
    omega
  · rw [if_neg hji] at hj
    refine (Finset.sum_congr rfl (fun l _ => hother j l (fun hjl => hji hjl.1))).trans ?_
    exact hold.trans (by omega)

theorem delivered_step (h : Step cfg s e s') (hl : Linked s) (hs : s.Delivered) :
    s'.Delivered := by
  cases h with
  | clock | foreignOpen | foreignClose | shutdown | shutdownNext | shutdownReturn => exact hs
  | pickLock hc | pickFirst hc | pickNext hc | bump hc | compensate hc | releaseNothing _ hc
  | releaseInvalid _ hc | releaseReturn hc | decrement hc =>
      exact hs.set _ hc (by simp) (by simp) rfl rfl (fun _ => rfl)
  | @count c j l fd hc =>
      refine hs.set _ hc (by simp) (by simp) rfl rfl (fun i => ?_)
      simp only [Caller.counts]
      split
      next heq =>
        subst heq
        rw [Function.update_self]
      next hne => rw [Function.update_of_ne (Ne.symm hne)]
  | pool hinner hp hv =>
      exact hs.forward hl hp (BackendPool.advances_step (BackendPool.step_cases hv) hinner) rfl rfl
        rfl
  | @shutdownCall j p v _ hp hv =>
      have hadv : BackendPool.Advances p.callers v.callers := by
        rw [poolShutdown_callers hv]
        exact .refl _
      exact hs.forward hl hp hadv rfl rfl rfl
  | borrowEmpty | borrow => exact hs.append _ (by simp) (fun _ => rfl)
  | poolBorrow hc hp hv => exact hs.enter hc hp (poolBorrow_callers hv) rfl rfl rfl
  | poolHeld hc hentry =>
      exact hs.arrive hl hc hentry (by simp) (fun j => by simp [Caller.counts,
        BackendPool.Caller.borrowed, eq_comm])
  | poolRefused hc hentry =>
      exact hs.arrive hl hc hentry (by simp) (fun j => by simp [Caller.counts,
        BackendPool.Caller.borrowed])
  | @release c l hd p ok hc _ hp =>
      -- the entry was borrowed before and is so after
      obtain ⟨x, hx, hexp⟩ := hl.entries c _ _ _ hc rfl
      obtain ⟨q, hq, hk⟩ := entry_eq_some.mp hx
      rw [hp, Option.some.injEq] at hq
      subst hq
      have hheld : x = .held hd.fd.toNat := by
        cases x <;> cases hexp
        rfl
      subst hheld
      refine hs.keep ?_ ?_ ?_
      · intro j
        rw [entries_set hp rfl]
        split
        next heq =>
          subst heq
          rw [State.entries, hp]
          exact List.length_set
        next => rfl
      · intro j m
        refine delivered_congr (awaited_set hc rfl (by simp) (by simp)) (fun _ => ?_)
        rw [State.lent, State.lent, entry_set hp rfl (fun m => getElem?_set_eq _ hk m)]
        split
        next heq =>
          obtain ⟨rfl, rfl⟩ := heq
          rw [hx]
          rfl
        next => rfl
      · intro j
        exact congrArg (s.handled j + ·) (total_set_of_eq (Caller.counts j) hc rfl)

theorem reachable_delivered (h : (machine cfg).Reachable s) : s.Delivered := by
  refine h.invariant_with (P := State.Delivered) (fun _ => reachable_linked) ?_
    (fun _ _ _ hl hs hstep => delivered_step (step_cases hstep) hl hs)
  intro i
  have hentries : (machine cfg).init.entries i = 0 := by
    show ((List.replicate cfg.count ({} : BackendPool.Pool))[i]?).elim 0 _ = 0
    rw [List.getElem?_replicate]
    split <;> rfl
  rw [hentries]
  rfl

/-! ## Counters -/

theorem State.delivered_le (s : State) (i k : Nat) : s.delivered i k ≤ s.lent i k := by
  rw [State.delivered]
  split
  · exact Nat.zero_le _
  · exact le_rfl

theorem sum_lent (hp : s.pools[i]? = some p) :
    ∑ k ∈ Finset.range (s.entries i), s.lent i k = total BackendPool.Caller.borrowed p.callers := by
  simp only [total_eq_sum_range, State.entries, State.lent, State.entry, hp, Option.elim_some,
    Option.bind_some]

/-- `handled_[i]` is at most the borrows that pool `i` has counted. -/
theorem handled_le (h : (machine cfg).Reachable s) (hmetrics : cfg.shared.metrics = true)
    (hp : s.pools[i]? = some p) : s.handled i ≤ p.borrows := by
  have hmetered := BackendPool.reachable_metered hmetrics (reachable_view h i p hp)
  have hborrows : p.borrows = total BackendPool.Caller.borrowed p.callers := hmetered.borrows_eq
  have hsum := Finset.sum_le_sum (fun k (_ : k ∈ Finset.range (s.entries i)) => s.delivered_le i k)
  rw [reachable_delivered h i, sum_lent hp] at hsum
  omega

/-- When nobody is in a call, they are equal, and every connection that was dialled is
counted. -/
theorem handled_eq (h : (machine cfg).Reachable s) (hmetrics : cfg.shared.metrics = true)
    (hover : ∀ c ∈ s.callers, c.stage.over = true) (hp : s.pools[i]? = some p) :
    p.borrows = s.handled i := by
  have hmetered := BackendPool.reachable_metered hmetrics (reachable_view h i p hp)
  have hborrows : p.borrows = total BackendPool.Caller.borrowed p.callers := hmetered.borrows_eq
  have hall : ∀ k, s.delivered i k = s.lent i k := by
    intro k
    refine if_neg ?_
    rintro ⟨c, hc⟩
    cases hover _ (List.mem_of_getElem? hc)
  have hcounts : total (Caller.counts i) s.callers = 0 := by
    refine total_eq_zero _ (fun c hc => ?_)
    have hstage := hover c hc
    cases c <;> simp_all [Caller.stage, Stage.over, Caller.counts]
  rw [hborrows, ← sum_lent hp, ← Finset.sum_congr rfl (fun k _ => hall k), reachable_delivered h i,
    hcounts, add_zero]

end InferenceRouter.BackendSet
