import InferenceRouter.BackendPool.Reaping

/-!
# How far the pool can grow

A health check leaves out of the size test what the reaper has in hand, so one `borrow` during
a check can exceed `max_size` by one.  What is pushed back afterwards stays idle, and the next
check has that much more in hand.  Repeating this, the pool grows without any bound, with
`max_size = 1` and with one borrower at a time: each `borrow` finds `idle_` empty and nothing
in use.

The checks need connections that the sweep spares.  A connection that was released at the
time of the sweep is spared unless one of the timeouts is negative.  So for the settings there
are two cases only: `max_size` is kept in every reachable state, or nothing is
(`grows_without_bound_iff`).
-/

namespace InferenceRouter.BackendPool

open Interleaving

variable {o : Options} {s s' : State} {e : Event}

/-- The health check is on, and a sweep spares a connection that was just released. -/
def Options.sparesIdle (o : Options) : Prop :=
  o.enableHealthCheck = true ∧ 0 ≤ o.idleTimeout ∧ 0 ≤ o.maxLifetime

/-! ## Settings that keep the bound -/

/-- No slot is dated in the future. -/
def State.Past (s : State) : Prop :=
  ∀ slot ∈ s.stored, slot.created ≤ s.now ∧ slot.lastUsed ≤ s.now

theorem past_step (h : Step o s e s') (hp : s.Past) : s'.Past := by
  have hnow := now_le_step h
  intro slot hslot
  rcases stored_step h hslot with hold | ⟨-, -, c, hc, rfl⟩ | ⟨i, fd, pick, -, -, rfl⟩
  · have := hp slot hold
    omega
  · have := hp c hc
    simp only
    omega
  · simp only
    omega

theorem reachable_past (h : (machine o).Reachable s) : s.Past :=
  h.invariant (P := State.Past) (by intro slot hslot; cases hslot)
    (fun _ _ _ hp hstep => past_step (step_cases hstep) hp)

/-- With a negative timeout every idle connection is a victim. -/
theorem State.Past.checking_sweep (hp : s.Past) (hneg : o.idleTimeout < 0 ∨ o.maxLifetime < 0) :
    (s.sweep o).reaper.checking = [] := by
  have hall : ∀ slot ∈ s.idle, slot.expired o s.now = true := by
    intro slot hslot
    have hpast := hp slot (List.mem_append_left _ hslot)
    simp only [Slot.expired, Bool.or_eq_true, decide_eq_true_eq]
    omega
  simp only [State.sweep, Reaper.checking]
  split
  · simpa using hall
  · rfl

theorem size_le_of_not_sparesIdle (ho : ¬ o.sparesIdle) (h : (machine o).Reachable s) :
    s.size ≤ o.normalise.maxSize := by
  cases hon : o.enableHealthCheck with
  | false => exact size_le_of_no_healthCheck hon h
  | true =>
      refine size_le_of_sweep (fun t ht => (reachable_past ht).checking_sweep ?_) h
      obtain ⟨hidle, hlife, -⟩ := o.normalise_timeouts
      by_contra hspared
      exact ho ⟨hon, by omega, by omega⟩

/-! ## One borrower at a time -/

/-- Nobody is in a call, nothing is in use, and the pool runs. -/
structure Quiet (s : State) : Prop where
  shutdown : s.shutdown = .idle
  running : s.shuttingDown = false
  inUse : s.inUse = 0
  callers : ∀ c ∈ s.callers, c = .released

theorem Quiet.not_asleep (h : Quiet s) : ∀ c ∈ s.callers, borrowCv.asleep c = false := by
  intro c hc
  rw [h.callers c hc]
  rfl

/-- The last caller gives its connection back. -/
theorem Quiet.releases (h : Quiet s) (fd : Nat) :
    (machine o).exec { s with inUse := 1, callers := s.callers ++ [.held fd] }
        [.release s.callers.length true, .sample s.callers.length,
          .releaseLock s.callers.length none] =
      some { s with
        idle := s.idle ++ [⟨fd, s.now, s.now⟩]
        callers := s.callers ++ [.released] } := by
  simp [Machine.exec, machine, step, State.setCaller, State.releaseLock, State.unlocked,
    CondVar.notifyOne, h.shutdown, h.running, h.inUse]
  exact ⟨h.not_asleep, rfl⟩

/-- A borrower takes the connection that is idle for longest and gives it back. -/
theorem Quiet.reuses (h : Quiet s) {slot : Slot} {rest : List Slot}
    (hidle : s.idle = slot :: rest) :
    ∃ es borrows, (machine o).exec s es = some { s with
      idle := rest ++ [⟨slot.fd, s.now, s.now⟩]
      borrows := borrows
      callers := s.callers ++ [.released] } := by
  have htakes : (machine o).exec s [.borrow, .borrowLock s.callers.length] = some { s with
      idle := rest
      inUse := 1
      borrows := if o.normalise.metrics = true then s.borrows + 1 else s.borrows
      callers := s.callers ++ [.held slot.fd] } := by
    simp [Machine.exec, machine, step, State.borrowLock, Caller.atLock, State.borrowBody,
      State.unlocked, h.shutdown, h.running, h.inUse, hidle]
  exact ⟨_, _, Machine.exec_append_iff.mpr ⟨_, htakes, Quiet.releases (s := { s with
    idle := rest
    borrows := _ }) ⟨h.shutdown, h.running, h.inUse, h.callers⟩ slot.fd⟩⟩

/-- A borrower finds `idle_` empty, dials, and gives the connection back. -/
theorem Quiet.dials (h : Quiet s) (hidle : s.idle = []) {fd : Nat} (hfree : s.table fd = none) :
    ∃ es creates borrows, (machine o).exec s es = some { s with
      table := Function.update s.table fd (some (.backend s.dials))
      dials := s.dials + 1
      creates := creates
      borrows := borrows
      idle := s.idle ++ [⟨fd, s.now, s.now⟩]
      callers := s.callers ++ [.released] } := by
  have hroom := o.normalise_maxSize_pos
  have hconnects : ∃ es creates borrows, (machine o).exec s es = some { s with
      table := Function.update s.table fd (some (.backend s.dials))
      dials := s.dials + 1
      creates := creates
      borrows := borrows
      inUse := 1
      callers := s.callers ++ [.held fd] } := by
    have hbegins : (machine o).exec s [.borrow, .borrowLock s.callers.length] =
        some { s with inUse := 1, callers := s.callers ++ [.dialing] } := by
      simp [Machine.exec, machine, step, State.borrowLock, Caller.atLock, State.borrowBody,
        State.unlocked, h.shutdown, h.running, h.inUse, hidle, hroom]
    cases hm : o.normalise.metrics with
    | false =>
        refine ⟨_, s.creates, s.borrows, Machine.exec_append_iff.mpr ⟨_, hbegins,
          (?_ : (machine o).exec _ [.dialOk s.callers.length fd] = _)⟩⟩
        simp [Machine.exec, machine, step, State.dialOk, hfree, hm]
    | true =>
        refine ⟨_, s.creates + 1, s.borrows + 1, Machine.exec_append_iff.mpr ⟨_, hbegins,
          (?_ : (machine o).exec _ [.dialOk s.callers.length fd, .incPoolCreate s.callers.length,
            .incPoolBorrow s.callers.length] = _)⟩⟩
        simp [Machine.exec, machine, step, State.dialOk, State.setCaller, hfree, hm]
  obtain ⟨es, creates, borrows, hexec⟩ := hconnects
  exact ⟨_, creates, borrows, Machine.exec_append_iff.mpr ⟨_, hexec, Quiet.releases (s := { s with
    table := Function.update s.table fd (some (.backend s.dials))
    dials := s.dials + 1
    creates := creates
    borrows := borrows }) ⟨h.shutdown, h.running, h.inUse, h.callers⟩ fd⟩⟩

/-- Used once each, all idle connections carry the time of now. -/
theorem Quiet.refreshes (old : List Slot) :
    ∀ (fresh : List Slot) {s : State}, Quiet s → s.idle = old ++ fresh →
      (∀ slot ∈ fresh, slot.created = s.now ∧ slot.lastUsed = s.now) →
      ∃ es idle borrows callers, (machine o).exec s es = some { s with
          idle := idle, borrows := borrows, callers := callers } ∧
        idle.length = s.idle.length ∧
        (∀ slot ∈ idle, slot.created = s.now ∧ slot.lastUsed = s.now) ∧
        ∀ c ∈ callers, c = .released := by
  induction old with
  | nil =>
      intro fresh s h hidle hfresh
      exact ⟨[], s.idle, s.borrows, s.callers, rfl, rfl, hidle ▸ hfresh, h.callers⟩
  | cons slot old ih =>
      intro fresh s h hidle hfresh
      obtain ⟨es, borrows, hexec⟩ := h.reuses (o := o) hidle
      obtain ⟨es', idle, borrows', callers, hexec', hlength, hdates, hcallers⟩ :=
        ih (fresh ++ [⟨slot.fd, s.now, s.now⟩]) (s := { s with
            idle := (old ++ fresh) ++ [⟨slot.fd, s.now, s.now⟩]
            borrows := borrows
            callers := s.callers ++ [.released] })
          ⟨h.shutdown, h.running, h.inUse, by simpa [or_imp, forall_and] using h.callers⟩
          (List.append_assoc _ _ _) (by simpa [or_imp, forall_and] using hfresh)
      refine ⟨_, idle, borrows', callers, Machine.exec_append_iff.mpr ⟨_, hexec, hexec'⟩, ?_,
        hdates, hcallers⟩
      rw [hlength, hidle]
      simp only [List.length_append, List.length_cons, List.length_nil]
      omega

/-! ## One health check -/

theorem pings_all (toCheck : List Slot) : ∀ {s : State} {survivors : List Slot},
    s.reaper = .pinging toCheck survivors [] →
    (machine o).exec s (toCheck.map (fun _ => .ping true)) = some { s with
      reaper := .pinging [] (survivors ++ toCheck.map (fun c => { c with lastUsed := s.now })) [] }
    := by
  induction toCheck with
  | nil =>
      intro s survivors hpc
      simp [← hpc]
  | cons c toCheck ih =>
      intro s survivors hpc
      refine Machine.exec_cons_iff.mpr ⟨{ s with
        reaper := .pinging toCheck (survivors ++ [{ c with lastUsed := s.now }]) [] }, ?_, ?_⟩
      · simp [machine, step, State.ping, hpc]
      · simpa using ih (s := { s with
          reaper := .pinging toCheck (survivors ++ [{ c with lastUsed := s.now }]) [] }) rfl

/-- A health check without victims and without failures puts everything back. -/
theorem checks_all {toCheck : List Slot} (hlock : s.unlocked = true)
    (hpc : s.reaper = .closingVictims [] toCheck) :
    ∃ es, (machine o).exec s es = some { s with
      idle := s.idle ++ toCheck.map (fun c => { c with lastUsed := s.now })
      reaper := .loopHead } := by
  cases toCheck with
  | nil =>
      refine ⟨[.reaperStep], Machine.exec_single_iff.mpr ?_⟩
      simp [machine, step, State.reaperStep, hpc]
  | cons c toCheck =>
      have hstart : (machine o).exec s [.reaperStep] =
          some { s with reaper := .pinging (c :: toCheck) [] [] } := by
        simp [Machine.exec, machine, step, State.reaperStep, hpc]
      have hpings := pings_all (o := o) (c :: toCheck)
        (s := { s with reaper := .pinging (c :: toCheck) [] [] }) rfl
      have hlock' : ∀ r, State.unlocked { s with reaper := r } = true := fun _ => hlock
      refine ⟨_, Machine.exec_append_iff.mpr ⟨_, hstart, Machine.exec_append_iff.mpr ⟨_, hpings,
        (?_ : (machine o).exec _ [.reaperStep, .reaperStep, .reaperLock] = _)⟩⟩⟩
      simp [Machine.exec, machine, step, State.reaperStep, State.reaperLock, hlock']

/-! ## Rounds -/

/-- The pool has dialled `n` connections, and all of them are idle. -/
structure Stocked (n : Nat) (s : State) : Prop extends Quiet s where
  reaper : s.reaper = .loopHead
  idle : s.idle.length = n
  dials : s.dials = n
  closed : s.closed = []
  free : ∀ fd, n ≤ fd → s.table fd = none

/-- When the next sweep is due, every idle connection is used once. -/
theorem Stocked.waits {n : Nat} (h : Stocked n s) :
    ∃ es now idle borrows callers, (machine o).exec s es = some { s with
        now := now
        idle := idle
        borrows := borrows
        callers := callers
        reaper := .waiting now } ∧
      idle.length = n ∧ (∀ slot ∈ idle, slot.created = now ∧ slot.lastUsed = now) ∧
      ∀ c ∈ callers, c = .released := by
  have hwait := o.normalise.le_reaperWait
  have hsleeps : (machine o).exec s [.reaperLock, .clock o.normalise.reaperWait.toNat] =
      some { s with
        now := s.now + o.normalise.reaperWait
        reaper := .waiting (s.now + o.normalise.reaperWait) } := by
    simp [Machine.exec, machine, step, State.reaperLock, State.unlocked, h.shutdown, h.running,
      h.reaper]
    omega
  obtain ⟨es, idle, borrows, callers, hexec, hlength, hdates, hcallers⟩ :=
    Quiet.refreshes (o := o) s.idle [] (s := { s with
        now := s.now + o.normalise.reaperWait
        reaper := .waiting (s.now + o.normalise.reaperWait) })
      ⟨h.shutdown, h.running, h.inUse, h.callers⟩ (List.append_nil _).symm
      (by intro slot hslot; cases hslot)
  exact ⟨_, _, idle, borrows, callers, Machine.exec_append_iff.mpr ⟨_, hsleeps, hexec⟩,
    hlength.trans h.idle, hdates, hcallers⟩

/-- The sweep spares all of them, one borrower dials while the reaper has them in hand, and
they are put back next to the new one. -/
theorem Stocked.grows {n : Nat} (ho : o.sparesIdle) (h : Stocked n s) :
    ∃ es s', (machine o).exec s es = some s' ∧ Stocked (n + 1) s' := by
  obtain ⟨hon, hidle, hlife⟩ := ho
  obtain ⟨hidle', hlife', -⟩ := o.normalise_timeouts
  have hon' := o.normalise_enableHealthCheck.trans hon
  obtain ⟨es, now, idle, borrows, callers, hwaits, hlength, hdates, hcallers⟩ :=
    h.waits (o := o)
  have hspared : ∀ slot ∈ idle, slot.expired o.normalise now = false := by
    intro slot hslot
    have hdate := hdates slot hslot
    simp only [Slot.expired, Bool.or_eq_false_iff, decide_eq_false_iff_not]
    omega
  have hsweep : (machine o).exec { s with
        now := now, idle := idle, borrows := borrows, callers := callers
        reaper := .waiting now } [.reaperLock] =
      some { s with
        now := now, idle := [], borrows := borrows, callers := callers
        reaper := .closingVictims [] idle } := by
    simp [Machine.exec, machine, step, State.reaperLock, State.unlocked, State.sweep, h.shutdown,
      h.running, hon']
    exact hspared
  have hquiet : Quiet { s with
      now := now, idle := [], borrows := borrows, callers := callers
      reaper := .closingVictims [] idle } := ⟨h.shutdown, h.running, h.inUse, hcallers⟩
  obtain ⟨es', creates, borrows', hdials⟩ := hquiet.dials (o := o) rfl (h.free n le_rfl)
  obtain ⟨es'', hchecks⟩ := checks_all (o := o) (s := { s with
      now := now, borrows := borrows', creates := creates
      table := Function.update s.table n (some (.backend s.dials)), dials := s.dials + 1
      idle := [⟨n, now, now⟩], callers := callers ++ [.released]
      reaper := .closingVictims [] idle }) (by simp [State.unlocked, h.shutdown]) rfl
  refine ⟨_, _, Machine.exec_append_iff.mpr ⟨_, hwaits, Machine.exec_append_iff.mpr ⟨_, hsweep,
    Machine.exec_append_iff.mpr ⟨_, hdials, hchecks⟩⟩⟩, ?_⟩
  refine ⟨⟨h.shutdown, h.running, h.inUse, ?_⟩, rfl, ?_, congrArg (· + 1) h.dials, h.closed, ?_⟩
  · simpa [or_imp, forall_and] using hcallers
  · simp [hlength]
  · intro fd hfd
    have hne : fd ≠ n := by omega
    exact (Function.update_of_ne hne _ _).trans (h.free fd (by omega))

theorem exists_stocked (ho : o.sparesIdle) (n : Nat) :
    ∃ s, (machine o).Reachable s ∧ Stocked n s := by
  induction n with
  | zero =>
      refine ⟨{}, .init, ⟨rfl, rfl, rfl, ?_⟩, rfl, rfl, rfl, rfl, fun _ _ => rfl⟩
      intro c hc
      cases hc
  | succ n ih =>
      obtain ⟨s, hs, hstocked⟩ := ih
      obtain ⟨es, s', hexec, hgrown⟩ := hstocked.grows ho
      exact ⟨s', hs.exec hexec, hgrown⟩

/-- If the health check is on and neither timeout is negative, for every `n` there is a run
after which `n` connections are open and idle at once, whatever `max_size` is.  With any other
setting, no run exceeds `max_size`. -/
theorem grows_without_bound_iff (o : Options) :
    ((∀ n, ∃ s, (machine o).Reachable s ∧ s.dials = n ∧ s.closed = [] ∧ s.idle.length = n ∧
        s.inUse = 0) ↔ o.sparesIdle) ∧
      ((∃ s, (machine o).Reachable s ∧ o.normalise.maxSize < s.size) ↔ o.sparesIdle) := by
  have hgrows : o.sparesIdle → ∀ n, ∃ s, (machine o).Reachable s ∧ s.dials = n ∧ s.closed = [] ∧
      s.idle.length = n ∧ s.inUse = 0 := by
    intro ho n
    obtain ⟨s, hs, h⟩ := exists_stocked ho n
    exact ⟨s, hs, h.dials, h.closed, h.idle, h.inUse⟩
  have hexceeds : (∀ n, ∃ s, (machine o).Reachable s ∧ s.dials = n ∧ s.closed = [] ∧
      s.idle.length = n ∧ s.inUse = 0) →
      ∃ s, (machine o).Reachable s ∧ o.normalise.maxSize < s.size := by
    intro hall
    obtain ⟨s, hs, -, -, hidle, -⟩ := hall (o.normalise.maxSize + 1)
    refine ⟨s, hs, ?_⟩
    simp only [State.size, hidle]
    omega
  have hbounded : (∃ s, (machine o).Reachable s ∧ o.normalise.maxSize < s.size) →
      o.sparesIdle := by
    rintro ⟨s, hs, hlt⟩
    by_contra ho
    have hle := size_le_of_not_sparesIdle ho hs
    omega
  exact ⟨⟨fun hall => hbounded (hexceeds hall), hgrows⟩,
    ⟨hbounded, fun ho => hexceeds (hgrows ho)⟩⟩

end InferenceRouter.BackendPool
