import InferenceRouter.BackendPool.Reaping
import InferenceRouter.BackendPool.Waiters

/-!
# Old connections

`max_lifetime` is meant for the age of a connection, however much it is used.  The pool does
not keep when a connection was dialled.  `borrow` hands out the descriptor alone, and
`release` puts it into a new slot whose `created` is the time of the release.  The sweep
compares `max_lifetime` with that, so a connection in use never looks old.

`ages` records beside the log of `Reaping` when each connection was dialled.
-/

namespace InferenceRouter.BackendPool

open Interleaving

variable {o : Options} {s s' : State} {e : Event} {l : Log} {d : Nat → Int}

/-! ## The age of a connection -/

/-- When each connection was dialled. -/
def recordDial (d : Nat → Int) (t : State × Log) : Event → Nat → Int
  | .dialOk _ _ => Function.update d t.1.dials t.1.now
  | _ => d

def ages (o : Options) : Machine ((State × Log) × (Nat → Int)) Event :=
  (logged o).withHistory (fun _ => 0) recordDial

/-- After an iteration, no connection that was idle at its sweep is idle still if it was
dialled more than `max_lifetime` before the sweep. -/
def Recycled (o : Options) (s : State) (l : Log) (d : Nat → Int) : Prop :=
  s.reaper.resting = true → ∀ slot ∈ s.idle, conn s.table slot.fd ∈ l.swept →
    l.sweptAt - d (conn s.table slot.fd) ≤ o.maxLifetime

/-- The sweep meets no connection that is old and looks young: one that was dialled more
than `max_lifetime` ago has also been released that long ago, or its `last_used` is too
old. -/
def State.rested (o : Options) (s : State) (l : Log) (d : Nat → Int) : Event → Bool
  | .reaperLock =>
      match s.reaper with
      | .waiting _ =>
          s.idle.all (fun slot =>
            decide (s.now - d (conn s.table slot.fd) ≤ o.maxLifetime) ||
              decide (o.maxLifetime < s.now - l.released (conn s.table slot.fd)) ||
              decide (o.idleTimeout < s.now - slot.lastUsed))
      | _ => true
  | _ => true

theorem dials_le_step (h : Step o s e s') : s.dials ≤ s'.dials := by
  cases h with
  | dialOk => exact Nat.le_succ _
  | _ => exact le_rfl

theorem State.Ledger.conn_lt (hl : s.Ledger) {fd : Nat} (hfd : fd ∈ s.owned) :
    conn s.table fd < s.dials := by
  have hmem : conn s.table fd ∈ (s.closed : Multiset Nat) + s.owned.map (conn s.table) :=
    Multiset.mem_add.mpr (.inr (Multiset.mem_map_of_mem _ hfd))
  rw [hl.1.conns] at hmem
  exact Multiset.mem_range.mp hmem

/-- A dial is recorded once. -/
theorem recordDial_eq (d : Nat → Int) (t : State × Log) (e : Event) {n : Nat} (hn : n < t.1.dials) :
    recordDial d t e n = d n := by
  cases e with
  | dialOk => exact Function.update_of_ne hn.ne _ _
  | _ => rfl

/-! ## Runs -/

/-- Every connection that was idle at the last sweep is closed, or condemned, or was dialled
in time. -/
def Aged (o : Options) (s : State) (l : Log) (d : Nat → Int) : Prop :=
  ∀ n ∈ l.swept, n < s.dials ∧ (Condemned s n ∨ l.sweptAt - d n ≤ o.maxLifetime)

/-- A connection that the sweep spares has been dialled in time. -/
theorem Dated.young (hd : Dated o s l) {w : Int} (hw : s.reaper = .waiting w)
    (hrested : s.rested o l d .reaperLock = true) {slot : Slot} (hslot : slot ∈ s.idle)
    (hspared : slot.expired o s.now = false) :
    s.now - d (conn s.table slot.fd) ≤ o.maxLifetime := by
  simp only [State.rested, hw, List.all_eq_true, Bool.or_eq_true, decide_eq_true_eq] at hrested
  simp only [Slot.expired, Bool.or_eq_false_iff, decide_eq_false_iff_not, Int.not_lt] at hspared
  have hcreated := hd.created slot (List.mem_append_left _ hslot)
  rcases hrested slot hslot with (hyoung | hrest) | hunused
  · exact hyoung
  · omega
  · omega

theorem aged_step (h : Step o s e s') (hl : s.Ledger) (hd : Dated o s l)
    (hrested : s.rested o l d e = true) (ha : Aged o s l d) :
    Aged o s' (l.record s e) (recordDial d (s, l) e) := by
  have hdials := dials_le_step h
  rcases record_swept h l with ⟨hswept, hat⟩ | ⟨w, rfl, hw, hlate, rfl, hrecord⟩
  · intro n hn
    rw [hswept] at hn
    obtain ⟨hlt, hn⟩ := ha n hn
    rw [hat, recordDial_eq d (s, l) e hlt]
    refine ⟨hlt.trans_le hdials, ?_⟩
    rcases hn with hcondemned | hyoung
    · exact .inl (condemned_step h hl hcondemned)
    · exact .inr hyoung
  · intro n hn
    rw [hrecord] at hn ⊢
    obtain ⟨slot, hslot, rfl⟩ := List.mem_map.mp hn
    have hlt := hl.conn_lt (stored_owned (List.mem_append_left _ hslot))
    rw [recordDial_eq d (s, l) .reaperLock hlt]
    refine ⟨hlt, ?_⟩
    cases hexpired : slot.expired o s.now with
    | true => exact .inl (condemned_sweep hslot hexpired)
    | false => exact .inr (hd.young hw hrested hslot hexpired)

theorem Aged.recycled (ha : Aged o s l d) (hl : s.Ledger) : Recycled o s l d := by
  intro hrest slot hslot hmem
  rcases (ha _ hmem).2 with hcondemned | hyoung
  · exact absurd hcondemned (hl.not_condemned hrest hslot)
  · exact hyoung

/-- What the proof carries along a run. -/
structure Tracked (o : Options) (t : (State × Log) × (Nat → Int)) : Prop where
  ledger : t.1.1.Ledger
  dated : Dated o t.1.1 t.1.2
  aged : Aged o t.1.1 t.1.2 t.2

theorem tracked_init (o : Options) : Tracked o.normalise (ages o).init where
  ledger := ledger_new {}
  dated := dated_init o.normalise
  aged _ hn := absurd hn List.not_mem_nil

theorem Tracked.step {t t' : (State × Log) × (Nat → Int)} (ht : Tracked o.normalise t)
    (hrested : t.1.1.rested o.normalise t.1.2 t.2 e = true) (h : (ages o).step t e = some t') :
    Tracked o.normalise t' := by
  obtain ⟨hlogged, hdial⟩ := Machine.withHistory_step_iff.mp h
  obtain ⟨hstep, hrecord⟩ := Machine.withHistory_step_iff.mp hlogged
  have hstep := step_cases hstep
  refine ⟨ledger_step hstep ht.ledger, ?_, ?_⟩
  · rw [hrecord]
    exact dated_step hstep ht.ledger ht.dated
  · rw [hrecord, hdial]
    exact aged_step hstep ht.ledger ht.dated hrested ht.aged

theorem Options.normalise_recycled (o : Options) :
    Recycled o.normalise s l d ↔ Recycled o s l d := by
  rw [Recycled, Recycled, o.normalise_timeouts.2.1]

/-- Along every run whose sweeps meet no connection that is old and looks young, no
connection outlives `max_lifetime` by a sweep. -/
theorem recycled_of_rested (o : Options) {es : List Event} {t : (State × Log) × (Nat → Int)}
    (h : (ages o).run es = some t)
    (hmeets : (ages o).Meets (fun u e => u.1.1.rested o.normalise u.1.2 u.2 e = true)
      (ages o).init es) :
    (ages o).Always (fun u => Recycled o u.1.1 u.1.2 u.2) (ages o).init es := by
  refine Machine.Meets.always (I := Tracked o.normalise) ?_ ?_ hmeets (tracked_init o) h
  · intro u hu
    exact o.normalise_recycled.mp (hu.aged.recycled hu.ledger)
  · intro u e u' hu hrested hstep
    exact hu.step hrested hstep

/-- A connection that is released once is closed at the sweep that finds it too old. -/
def releasedOnce : List Event :=
  dialled { maxLifetime := 5000 } ++ [.release 0 true, .sample 0, .releaseLock 0 none, .clock 10000,
    .reaperLock, .reaperStep, .reaperStep]

theorem recycled_releasedOnce : ∃ t,
    (ages { maxLifetime := 5000 }).run releasedOnce = some t ∧ t.1.2.swept = [0] ∧
      t.1.2.sweptAt = 10000 ∧ t.2 0 = 0 ∧ t.1.1.closed = [0] ∧
      (ages { maxLifetime := 5000 }).Always
        (fun u => Recycled { maxLifetime := 5000 } u.1.1 u.1.2 u.2)
        (ages { maxLifetime := 5000 }).init releasedOnce := by
  refine ⟨_, rfl, rfl, rfl, rfl, rfl, ?_⟩
  exact recycled_of_rested { maxLifetime := 5000 } rfl (by decide)

/-! ## Connections in use -/

/-- A holder releases its connection, and nobody waits for it. -/
theorem releases {i fd : Nat} (hi : s.callers[i]? = some (.held fd)) (hlock : s.unlocked = true)
    (hshut : s.shuttingDown = false) (hawake : s.callers.any borrowCv.asleep = false) :
    (logged o).exec (s, l) [.release i true, .sample i, .releaseLock i none] =
      some ({ s with
          inUse := if 0 < s.inUse then s.inUse - 1 else s.inUse
          idle := s.idle ++ [⟨fd, s.now, s.now⟩]
          callers := s.callers.set i .released },
        { l with released := Function.update l.released (conn s.table fd) s.now }) := by
  have hlt := lt_of_getElem? hi
  have hlock' : ∀ c, (s.setCaller i c).unlocked = true := fun _ => hlock
  have hawake' : (s.callers.set i .released).any borrowCv.asleep = false := by
    rw [← Bool.not_eq_true] at hawake ⊢
    exact fun h => hawake (any_asleep_set rfl h)
  have hnone : borrowCv.notifyOne (s.callers.set i .released) none =
      some (s.callers.set i .released) := if_neg (by rw [hawake']; decide)
  refine Machine.exec_cons_iff.mpr ⟨(s.setCaller i (.releasing fd true), l), ?_, ?_⟩
  · simp [logged, Machine.withHistory, machine, step, hi, Log.record]
  refine Machine.exec_cons_iff.mpr ⟨(s.setCaller i (.sampled fd false), l), ?_, ?_⟩
  · simp [logged, Machine.withHistory, machine, step, State.setCaller, hlt, hshut, Log.record]
  refine Machine.exec_single_iff.mpr ?_
  simp [logged, Machine.withHistory, machine, step, State.setCaller, State.releaseLock, hlt,
    Log.record, hnone]
  exact hlock

/-- A whole iteration, in which one connection is pinged if any is. -/
def sweeping (o : Options) : List Event :=
  if o.enableHealthCheck = true then iteration else [.reaperLock, .reaperStep]

/-- A holder releases its connection, and a sweep follows after `ms`. -/
def releasedThenSwept (o : Options) (i ms : Nat) : List Event :=
  [.release i true, .sample i, .releaseLock i none] ++ (.clock ms :: sweeping o)

/-- Somebody has the only connection. -/
structure Lent (s : State) (i fd : Nat) : Prop where
  unlocked : s.unlocked = true
  running : s.shuttingDown = false
  idle : s.idle = []
  caller : s.callers[i]? = some (.held fd)
  awake : s.callers.any borrowCv.asleep = false

theorem sweeping_spares {w : Int} (slot : Slot) (hlock : s.unlocked = true)
    (hshut : s.shuttingDown = false) (hw : s.reaper = .waiting w) (hlate : w ≤ s.now)
    (hidle : s.idle = [slot]) (hspared : slot.expired o.normalise s.now = false) :
    ∃ slot', slot'.fd = slot.fd ∧ (logged o).exec (s, l) (sweeping o) =
      some ({ s with idle := [slot'], reaper := .loopHead },
        { l with sweptAt := s.now, swept := [conn s.table slot.fd] }) := by
  have hhealth := o.normalise_enableHealthCheck
  cases hon : o.enableHealthCheck with
  | true =>
      rw [sweeping, if_pos hon]
      exact ⟨{ slot with lastUsed := s.now }, rfl,
        iteration_spares (hhealth.trans hon) hlock hshut hw hlate hidle hspared⟩
  | false =>
      rw [sweeping, if_neg (by rw [hon]; decide)]
      refine ⟨slot, rfl, Machine.exec_cons_iff.mpr ⟨({ s with
        idle := [slot]
        reaper := .closingVictims [] [] }, _), ?_, Machine.exec_single_iff.mpr rfl⟩⟩
      have hsweep : s.sweep o.normalise =
          { s with idle := [slot], reaper := .closingVictims [] [] } := by
        simp [State.sweep, hidle, hspared, hhealth.trans hon]
      simp [logged, Machine.withHistory, machine, step, State.reaperLock, Log.record, hlock, hw,
        hshut, hlate, hsweep, hidle]

/-- A connection that is released just before the sweep survives it. -/
theorem releasedThenSwept_spares {i fd : Nat} {w : Int} (ms : Nat) (h : Lent s i fd)
    (hw : s.reaper = .waiting w) (hlate : w ≤ s.now + ms) (hidle : ms ≤ o.idleTimeout)
    (hlife : ms ≤ o.maxLifetime) :
    ∃ slot inUse l', slot.fd = fd ∧ l'.sweptAt = s.now + ms ∧ l'.swept = [conn s.table fd] ∧
      (logged o).exec (s, l) (releasedThenSwept o i ms) = some ({ s with
        now := s.now + ms
        inUse := inUse
        idle := [slot]
        reaper := .loopHead
        callers := s.callers.set i .released }, l') := by
  obtain ⟨hidle', hlife', -⟩ := o.normalise_timeouts
  have hrelease := releases (o := o) (l := l) h.caller h.unlocked h.running h.awake
  rw [h.idle, List.nil_append] at hrelease
  obtain ⟨slot, hfd, hsweep⟩ := sweeping_spares (o := o) (s := { s with
      now := s.now + ms
      inUse := if 0 < s.inUse then s.inUse - 1 else s.inUse
      idle := [⟨fd, s.now, s.now⟩]
      callers := s.callers.set i .released })
    (l := { l with released := Function.update l.released (conn s.table fd) s.now })
    ⟨fd, s.now, s.now⟩ h.unlocked h.running hw hlate rfl (by
      simp only [Slot.expired, Bool.or_eq_false_iff, decide_eq_false_iff_not]
      omega)
  exact ⟨slot, _, _, hfd, rfl, rfl, Machine.exec_append_iff.mpr ⟨_, hrelease,
    Machine.exec_cons_iff.mpr ⟨_, rfl, hsweep⟩⟩⟩

theorem now_eq_step (h : Step o s e s') (he : ∀ ms, e ≠ .clock ms) : s'.now = s.now := by
  cases h with
  | clock ms => exact absurd rfl (he ms)
  | _ => rfl

/-- Nothing is dialled after the beginning. -/
theorem ages_run {es : List Event} (hdials : ∀ e ∈ es, ∀ i fd, e ≠ .dialOk i fd) {s : State}
    (h : (logged o).run (dialled o) = some (s, {})) {t : State × Log}
    (hes : (logged o).exec (s, {}) es = some t) :
    (ages o).run (dialled o ++ es) = some (t, fun _ => 0) := by
  refine Machine.exec_append_iff.mpr ⟨((s, {}), fun _ => 0), ?_, ?_⟩
  · refine Machine.withHistory_exec_unchanged (A := fun e => ∀ ms, e ≠ .clock ms)
      (P := fun u => u.1.now = 0) ?_ ?_ rfl h
    · intro u e u' hnow he hu
      have hstep := step_cases (Machine.withHistory_step_iff.mp hu).1
      refine ⟨(now_eq_step hstep he).trans hnow, ?_⟩
      cases e with
      | dialOk =>
          simp only [recordDial, hnow]
          exact Function.update_eq_self _ _
      | _ => rfl
    · intro e he ms
      rintro rfl
      cases hm : o.metrics <;> simp [dialled, hm] at he
  · refine Machine.withHistory_exec_unchanged (A := fun e => ∀ i fd, e ≠ .dialOk i fd)
      (P := fun _ => True) ?_ hdials trivial hes
    intro u e u' _ he _
    refine ⟨trivial, ?_⟩
    cases e with
    | dialOk i fd => exact absurd rfl (he i fd)
    | _ => rfl

theorem mem_releasedThenSwept {i ms : Nat} (he : e ∈ releasedThenSwept o i ms) (j fd : Nat) :
    e ≠ .dialOk j fd := by
  rintro rfl
  cases hon : o.enableHealthCheck <;>
    simp [releasedThenSwept, sweeping, iteration, hon] at he

/-- The borrower that has dialled keeps its connection for more than `max_lifetime`. -/
def releasedLate (o : Options) : List Event :=
  dialled o ++ (.clock (max o.reaperWait (o.maxLifetime + 1)).toNat :: releasedThenSwept o 0 0)

theorem releasedLate_run (o : Options) (hidle : 0 ≤ o.idleTimeout) (hlife : 0 ≤ o.maxLifetime) :
    ∃ t, (ages o).run (releasedLate o) = some t ∧ ¬ Recycled o t.1.1 t.1.2 t.2 := by
  obtain ⟨s, hrun, hnow, hshutdown, hshut, hreaper, hidle', hcallers, hconn⟩ := dialled_run o
  have hwait := o.le_reaperWait
  have hlent : Lent { s with now := s.now + (max o.reaperWait (o.maxLifetime + 1)).toNat } 0 3 :=
    ⟨by simp [State.unlocked, hshutdown], hshut, hidle', by simp [hcallers],
      by simp [hcallers, borrowCv]⟩
  obtain ⟨slot, inUse, l, hfd, hat, hswept, hexec⟩ :=
    releasedThenSwept_spares (o := o) (l := {}) 0 hlent hreaper
      (by simp only; omega) (by simpa using hidle) (by simpa using hlife)
  refine ⟨_, ages_run ?_ hrun (Machine.exec_cons_iff.mpr ⟨_, rfl, hexec⟩), ?_⟩
  · intro e he i fd
    rcases List.mem_cons.mp he with rfl | he
    · intro heq
      cases heq
    · exact mem_releasedThenSwept he i fd
  · intro hrecycled
    have hle := hrecycled rfl slot List.mem_cons_self (by simp [hfd, hswept])
    simp only [hat, hnow] at hle
    omega

/-- With a negative timeout every connection looks old at once. -/
theorem Dated.rested (hd : Dated o s l) (ho : o.idleTimeout < 0 ∨ o.maxLifetime < 0) (e : Event) :
    s.rested o l d e = true := by
  cases e with
  | reaperLock =>
      simp only [State.rested]
      split
      next w hw =>
        simp only [List.all_eq_true, Bool.or_eq_true, decide_eq_true_eq]
        intro slot hslot
        have hused := hd.used slot (List.mem_append_left _ hslot)
        have hpast := hd.past (conn s.table slot.fd)
        rcases ho with ho | ho
        · exact .inr (by omega)
        · exact .inl (.inr (by omega))
      next => rfl
  | _ => rfl

/-- With given options, no connection outlives `max_lifetime` in any run exactly if one of
the two timeouts is negative, and then no sweep spares any connection. -/
theorem recycled_iff (o : Options) :
    (∀ es t, (ages o).run es = some t → Recycled o t.1.1 t.1.2 t.2) ↔
      o.idleTimeout < 0 ∨ o.maxLifetime < 0 := by
  constructor
  · intro h
    by_contra hnot
    simp only [not_or, Int.not_lt] at hnot
    obtain ⟨t, hrun, hbad⟩ := releasedLate_run o hnot.1 hnot.2
    exact hbad (h _ t hrun)
  · intro ho es t hrun
    obtain ⟨hidle, hlife, -⟩ := o.normalise_timeouts
    rw [← hidle, ← hlife] at ho
    have htracked : Tracked o.normalise t := by
      refine Machine.Reachable.invariant (tracked_init o) ?_ ⟨es, hrun⟩
      intro u e u' hu hstep
      exact hu.step (hu.dated.rested ho e) hstep
    exact o.normalise_recycled.mp (htracked.aged.recycled htracked.ledger)

/-- A connection is lent from sweep to sweep: it is released one tick before the sweep, and
borrowed again after it. -/
def turn (n : Nat) : List Event := .clock 9999 :: releasedThenSwept {} n 1

def lentAgain (n : Nat) : List Event := [.reaperLock, .borrow, .borrowLock (n + 1)]

def regularUse (n : Nat) : List Event :=
  dialled {} ++ ((List.range n).flatMap (fun i => turn i ++ lentAgain i) ++ turn n)

/-- The connection has been in use for `n` turns, and somebody has it again. -/
structure Busy (n : Nat) (s : State) : Prop where
  now : s.now = 10000 * n
  shutdown : s.shutdown = .idle
  running : s.shuttingDown = false
  reaper : s.reaper = .waiting (10000 * (n + 1))
  idle : s.idle = []
  callers : s.callers = List.replicate n .released ++ [.held 3]
  conn : conn s.table 3 = 0

theorem Busy.turn {n : Nat} (h : Busy n s) (l : Log) :
    ∃ (slot : Slot) (inUse : Nat) (l' : Log), slot.fd = 3 ∧ l'.sweptAt = 10000 * (n + 1) ∧
      l'.swept = [0] ∧ (logged {}).exec (s, l) (turn n) = some ({ s with
        now := 10000 * (n + 1)
        inUse := inUse
        idle := [slot]
        reaper := .loopHead
        callers := List.replicate (n + 1) .released }, l') := by
  have hnow := h.now
  have hi : s.callers[n]? = some (.held 3) := by
    rw [h.callers, List.getElem?_append_right (by simp)]
    simp
  have hset : s.callers.set n .released = List.replicate (n + 1) .released := by
    rw [h.callers, List.replicate_succ', List.set_append_right _ _ (by simp)]
    simp
  have hlent : Lent { s with now := s.now + (9999 : Nat) } n 3 :=
    ⟨by simp [State.unlocked, h.shutdown], h.running, h.idle, hi,
      by simp [h.callers, borrowCv]⟩
  obtain ⟨slot, inUse, l', hfd, hat, hswept, hexec⟩ :=
    releasedThenSwept_spares (o := {}) (l := l) 1 hlent h.reaper
      (by simp only; omega) (by decide) (by decide)
  have hend : s.now + (9999 : Nat) + (1 : Nat) = 10000 * (n + 1) := by omega
  simp only [hset, hend] at hexec hat
  exact ⟨slot, inUse, l', hfd, hat, hswept.trans (by rw [h.conn]),
    Machine.exec_cons_iff.mpr ⟨_, rfl, hexec⟩⟩

theorem Busy.lentAgain {n : Nat} (h : Busy n s) (slot : Slot) (inUse : Nat) (l : Log)
    (hfd : slot.fd = 3) : ∃ t, (logged {}).exec ({ s with
        now := 10000 * (n + 1)
        inUse := inUse
        idle := [slot]
        reaper := .loopHead
        callers := List.replicate (n + 1) .released }, l) (lentAgain n) = some (t, l) ∧
      Busy (n + 1) t := by
  have hwait : (Options.normalise {}).reaperWait = 10000 := rfl
  refine ⟨{ s with
      now := 10000 * (n + 1)
      inUse := inUse + 1
      idle := []
      reaper := .waiting (10000 * (n + 1) + 10000)
      borrows := s.borrows + 1
      callers := List.replicate (n + 1) .released ++ [.held 3] }, ?_, ?_⟩
  · simp [BackendPool.lentAgain, Machine.exec, logged, Machine.withHistory, machine, step,
      State.reaperLock, State.unlocked, Log.record, h.shutdown, h.running, hwait, State.borrowLock,
      Caller.atLock, State.borrowBody, Options.normalise_metrics, hfd]
  · refine ⟨?_, h.shutdown, h.running, ?_, rfl, rfl, h.conn⟩
    · push_cast
      rfl
    · push_cast
      rw [mul_add]
      rfl

theorem busy_run (n : Nat) {s : State} {l : Log} (h : Busy 0 s) :
    ∃ t l', (logged {}).exec (s, l) ((List.range n).flatMap (fun i => turn i ++ lentAgain i)) =
      some (t, l') ∧ Busy n t := by
  induction n with
  | zero => exact ⟨s, l, rfl, h⟩
  | succ n ih =>
      obtain ⟨t, l', hexec, hbusy⟩ := ih
      obtain ⟨slot, inUse, l'', hfd, -, -, hturn⟩ := hbusy.turn l'
      obtain ⟨u, hagain, hbusy'⟩ := hbusy.lentAgain slot inUse l'' hfd
      rw [List.range_succ, List.flatMap_append, List.flatMap_singleton]
      exact ⟨u, l'', Machine.exec_append_iff.mpr ⟨_, hexec,
        Machine.exec_append_iff.mpr ⟨_, hturn, hagain⟩⟩, hbusy'⟩

/-- After `n + 1` turns with a sweep every ten seconds, the connection that was dialled at
the beginning is idle still. -/
theorem regularUse_run (n : Nat) : ∃ t, (ages {}).run (regularUse n) = some t ∧
    t.1.1.reaper.resting = true ∧ t.1.2.sweptAt = 10000 * (n + 1) ∧ t.1.2.swept = [0] ∧ t.2 0 = 0 ∧
      t.1.1.idle.map (fun slot => conn t.1.1.table slot.fd) = [0] := by
  obtain ⟨s, hrun, hnow, hshutdown, hshut, hreaper, hidle, hcallers, hconn⟩ := dialled_run {}
  have hbusy : Busy 0 s := ⟨hnow, hshutdown, hshut, hreaper, hidle, hcallers, hconn⟩
  obtain ⟨u, l, hexec, hbusy⟩ := busy_run n (l := {}) hbusy
  obtain ⟨slot, inUse, l', hfd, hat, hswept, hturn⟩ := hbusy.turn l
  refine ⟨_, ages_run ?_ hrun (Machine.exec_append_iff.mpr ⟨_, hexec, hturn⟩), rfl, hat, hswept,
    rfl, ?_⟩
  · have hmem : ∀ {j e}, e ∈ turn j → ∀ i fd, e ≠ .dialOk i fd := by
      intro j e he i fd
      rcases List.mem_cons.mp he with rfl | he
      · exact nofun
      · exact mem_releasedThenSwept he i fd
    intro e he i fd
    rcases List.mem_append.mp he with he | he
    · obtain ⟨j, -, he⟩ := List.mem_flatMap.mp he
      rcases List.mem_append.mp he with he | he
      · exact hmem he i fd
      · rintro rfl
        simp [lentAgain] at he
    · exact hmem he i fd
  · simp [hfd, hbusy.conn]

/-- With the default options, a connection that was dialled at the beginning is idle after
the sweep at 310 s. -/
theorem unrecycled_regularUse : ∃ t, (ages {}).run (regularUse 30) = some t ∧
    t.1.1.reaper.resting = true ∧ t.1.2.sweptAt = 310000 ∧ t.1.2.swept = [0] ∧ t.2 0 = 0 ∧
      t.1.1.idle.map (fun slot => conn t.1.1.table slot.fd) = [0] ∧
      ¬ Recycled {} t.1.1 t.1.2 t.2 := by
  obtain ⟨t, hrun, hrest, hat, hswept, hdial, hidle⟩ := regularUse_run 30
  refine ⟨t, hrun, hrest, hat, hswept, hdial, hidle, ?_⟩
  intro h
  have hmem : 0 ∈ t.1.1.idle.map (fun slot => conn t.1.1.table slot.fd) := by simp [hidle]
  obtain ⟨slot, hslot, hconn⟩ := List.mem_map.mp hmem
  have hle := h hrest slot hslot (by simp [hconn, hswept])
  rw [hconn, hat, hdial] at hle
  revert hle
  decide

end InferenceRouter.BackendPool
