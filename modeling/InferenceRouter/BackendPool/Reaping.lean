import InferenceRouter.BackendPool.Bound

/-!
# Idle connections

`idle_timeout` is meant for connections that no borrower has used for a while.  The pool
does not keep when that was.  `last_used` is set by `release`, and the reaper sets it again
after a ping, so a connection that is pinged in time never looks idle.  `created` is set by
`release` too, and nothing else touches it: it is the time of the last release
(`Dated.created`), and `max_lifetime` is compared with it.

`Log` records beside the state what the pool does not keep.
-/

namespace InferenceRouter.BackendPool

open Interleaving

variable {o : Options} {s s' : State} {e : Event} {l : Log}

/-! ## The history of a connection -/

/-- When a borrower last released each connection, the time of the last sweep, and the
connections that were idle at it. -/
structure Log where
  released : Nat → Int := fun _ => 0
  sweptAt : Int := 0
  swept : List Nat := []

def Log.record (l : Log) (s : State) : Event → Log
  | .releaseLock i _ =>
      match s.callers[i]? with
      | some (.sampled fd _) =>
          { l with released := Function.update l.released (conn s.table fd) s.now }
      | _ => l
  | .reaperLock =>
      match s.reaper with
      | .waiting _ =>
          if s.shuttingDown = true then l
          else { l with sweptAt := s.now, swept := s.idle.map (fun slot => conn s.table slot.fd) }
      | _ => l
  | _ => l

def logged (o : Options) : Machine (State × Log) Event := (machine o).withHistory {} Log.record

/-- The reaper is not in the middle of an iteration. -/
def Reaper.resting : Reaper → Bool
  | .loopHead | .waiting _ | .exited => true
  | _ => false

/-- After an iteration, no connection that was idle at its sweep is idle still if its last
release was more than `idle_timeout` before the sweep. -/
def Reaped (o : Options) (s : State) (l : Log) : Prop :=
  s.reaper.resting = true → ∀ slot ∈ s.idle, conn s.table slot.fd ∈ l.swept →
    l.sweptAt - l.released (conn s.table slot.fd) ≤ o.idleTimeout

/-! ## Slots -/

/-- The slots of `idle_` and of the reaper's deques. -/
def State.stored (s : State) : List Slot := s.idle ++ s.reaper.slots

/-- Where a slot comes from: it was there before, or a ping has rewritten its `last_used`,
or a borrower has released its connection. -/
theorem stored_step (h : Step o s e s') {slot : Slot} (hslot : slot ∈ s'.stored) :
    slot ∈ s.stored ∨
    (e = .ping true ∧ s.reaper.checking ≠ [] ∧
      ∃ c ∈ s.stored, slot = { c with lastUsed := s.now }) ∨
    ∃ i fd pick, e = .releaseLock i pick ∧ s.callers[i]? = some (.sampled fd false) ∧
      slot = ⟨fd, s.now, s.now⟩ := by
  cases h with
  | borrowIdle _ _ _ _ hidle =>
      left
      simp only [State.stored, hidle, List.mem_append, List.mem_cons] at hslot ⊢
      tauto
  | releaseKeep hi =>
      simp only [State.stored, List.mem_append, List.mem_singleton] at hslot
      rcases hslot with (hslot | rfl) | hslot
      · exact .inl (List.mem_append_left _ hslot)
      · exact .inr (.inr ⟨_, _, _, rfl, hi, rfl⟩)
      · exact .inl (List.mem_append_right _ hslot)
  | shutdownClose _ hidle =>
      left
      simp only [State.stored, State.closeFd, hidle, List.mem_append, List.mem_cons] at hslot ⊢
      tauto
  | sweep _ _ hpc =>
      left
      simp only [State.stored, State.sweep, Reaper.slots, hpc] at hslot ⊢
      split at hslot <;> simp at hslot ⊢ <;> tauto
  | pushBack _ hpc =>
      left
      simp only [State.stored, Reaper.slots, hpc, List.mem_append] at hslot ⊢
      tauto
  | @pingOk c toCheck survivors dead hpc =>
      simp only [State.stored, Reaper.slots, hpc, Reaper.checking, List.mem_append, List.mem_cons,
        List.not_mem_nil, or_false] at hslot ⊢
      rcases hslot with hslot | hslot | (hslot | rfl) | hslot
      · exact .inl (.inl hslot)
      · exact .inl (.inr (.inl (.inr hslot)))
      · exact .inl (.inr (.inr (.inl hslot)))
      · exact .inr (.inl ⟨trivial, by simp, c, by simp, rfl⟩)
      · exact .inl (.inr (.inr (.inr hslot)))
  | reaperExit _ _ hpc =>
      left
      rcases hpc with hpc | ⟨d, hpc⟩ <;> simpa [State.stored, Reaper.slots, hpc] using hslot
  | reaperWait _ _ hpc | victimsClosed hpc | startPings hpc | deadClosed hpc =>
      left
      simpa [State.stored, Reaper.slots, hpc] using hslot
  | closeVictim hpc | closeDead hpc =>
      left
      simp only [State.stored, State.closeFd, Reaper.slots, hpc, List.cons_append, List.mem_append,
        List.mem_cons] at hslot ⊢
      tauto
  | pingsDone hpc | pingFail hpc =>
      left
      simp only [State.stored, Reaper.slots, hpc, List.nil_append, List.cons_append,
        List.mem_append, List.mem_cons, List.not_mem_nil, or_false] at hslot ⊢
      tauto
  | clock | foreignOpen | foreignClose | borrow | borrowAbort | borrowDial | borrowSleep
  | borrowTimeout | borrowSpurious | dialOk | dialFail | dialFailLock | incPoolCreate
  | incPoolBorrow | release | sample | releaseDrop | releaseClose | shutdownAgain | shutdown
  | shutdownUnlock | shutdownNotify | shutdownReturn => exact .inl hslot

/-! ## Frames -/

theorem now_le_step (h : Step o s e s') : s.now ≤ s'.now := by
  cases h with
  | clock ms =>
      simp only
      omega
  | _ => exact le_rfl

/-- A descriptor that the pool owns before and after a step names the same connection. -/
theorem conn_step (h : Step o s e s') (hl : s.Ledger) {fd : Nat} (hfd : fd ∈ s.owned)
    (hfd' : fd ∈ s'.owned) : conn s'.table fd = conn s.table fd := by
  obtain ⟨n, hn⟩ := hl.1.isOpen fd hfd
  obtain ⟨n', hn'⟩ := (ledger_step h hl).1.isOpen fd hfd'
  rcases table_step h hn' with hsame | ⟨hnone, -⟩
  · simp only [conn, hn', hsame]
  · rw [hn] at hnone
    cases hnone

theorem closed_step (h : Step o s e s') {n : Nat} (hn : n ∈ s.closed) : n ∈ s'.closed := by
  have hclose : ∀ fd, n ∈ (s.closeFd fd).closed := by
    intro fd
    simp only [State.closeFd]
    split
    next => exact List.mem_append_left _ hn
    next => exact hn
  cases h with
  | releaseClose | shutdownClose | closeVictim | closeDead => exact hclose _
  | _ => exact hn

theorem mem_fdsOf {fd : Nat} {slots : List Slot} :
    fd ∈ fdsOf slots ↔ ∃ slot ∈ slots, slot.fd = fd := by
  simp [fdsOf]

theorem stored_owned {slot : Slot} (h : slot ∈ s.stored) : slot.fd ∈ s.owned := by
  rcases List.mem_append.mp h with h | h
  · exact Multiset.mem_add.mpr (.inl (Multiset.mem_add.mpr (.inl (mem_fdsOf.mpr ⟨slot, h, rfl⟩))))
  · exact Multiset.mem_add.mpr (.inl (Multiset.mem_add.mpr (.inr (mem_fdsOf.mpr ⟨slot, h, rfl⟩))))

/-- Different descriptors of the pool name different connections. -/
theorem State.Ledger.conn_inj (hl : s.Ledger) {fd fd' : Nat} (hfd : fd ∈ s.owned)
    (hfd' : fd' ∈ s.owned) (h : conn s.table fd = conn s.table fd') : fd = fd' := by
  have hnodup : ((s.closed : Multiset Nat) + s.owned.map (conn s.table)).Nodup := by
    rw [hl.1.conns]
    exact Multiset.nodup_range _
  have hmap := (Multiset.nodup_add.mp hnodup).2.1
  exact Multiset.inj_on_of_nodup_map hmap fd hfd fd' hfd' h

/-- What the pool owns is not closed. -/
theorem State.Ledger.not_closed (hl : s.Ledger) {fd : Nat} (hfd : fd ∈ s.owned) :
    conn s.table fd ∉ s.closed := by
  have hnodup : ((s.closed : Multiset Nat) + s.owned.map (conn s.table)).Nodup := by
    rw [hl.1.conns]
    exact Multiset.nodup_range _
  have hdisjoint := (Multiset.nodup_add.mp hnodup).2.2
  intro hclosed
  exact Multiset.disjoint_left.mp hdisjoint (by simpa using hclosed) (Multiset.mem_map_of_mem _ hfd)

/-- A connection in a caller's hands is neither idle nor with the reaper. -/
theorem State.Ledger.caller_stored (hl : s.Ledger) {i fd : Nat} {c : Caller}
    (hi : s.callers[i]? = some c) (hc : c.fds = {fd}) {slot : Slot} (hslot : slot ∈ s.stored) :
    conn s.table slot.fd ≠ conn s.table fd := by
  have hcallers : fd ∈ total Caller.fds s.callers := by
    rw [← total_fds_lose .released hi hc rfl]
    simp
  have hplace : slot.fd ∈ fdsOf s.idle + fdsOf s.reaper.slots := by
    rcases List.mem_append.mp hslot with h | h
    · exact Multiset.mem_add.mpr (.inl (mem_fdsOf.mpr ⟨slot, h, rfl⟩))
    · exact Multiset.mem_add.mpr (.inr (mem_fdsOf.mpr ⟨slot, h, rfl⟩))
  have hdisjoint := (Multiset.nodup_add.mp hl.1.nodup).2.2
  intro heq
  have hfd := hl.conn_inj (stored_owned hslot) (Multiset.mem_add.mpr (.inr hcallers)) heq
  rw [hfd] at hplace
  exact Multiset.disjoint_left.mp hdisjoint hplace hcallers

/-! ## Dates -/

/-- What the dates in the slots say. -/
structure Dated (o : Options) (s : State) (l : Log) : Prop where
  past : ∀ n, l.released n ≤ s.now
  /-- `created` is the time of the last release. -/
  created : ∀ slot ∈ s.stored, slot.created = l.released (conn s.table slot.fd)
  used : ∀ slot ∈ s.stored, slot.lastUsed ≤ s.now
  /-- Without the health check `last_used` is the time of the last release too. -/
  unpinged : o.enableHealthCheck = false →
    s.reaper.checking = [] ∧ ∀ slot ∈ s.stored, slot.lastUsed = slot.created
  /-- With it, the ping is as long ago as the reaper waits. -/
  waited : ∀ d, s.reaper = .waiting d → ∀ slot ∈ s.idle,
    slot.lastUsed = slot.created ∨ slot.lastUsed + o.reaperWait ≤ d

theorem record_released (l : Log) (s : State) (e : Event) :
    (l.record s e).released = l.released ∨
    ∃ i pick fd closeIt, e = .releaseLock i pick ∧ s.callers[i]? = some (.sampled fd closeIt) ∧
      (l.record s e).released = Function.update l.released (conn s.table fd) s.now := by
  cases e with
  | releaseLock i pick =>
      simp only [Log.record]
      split
      next fd closeIt hi => exact .inr ⟨i, pick, fd, closeIt, rfl, hi, rfl⟩
      next => exact .inl rfl
  | reaperLock =>
      left
      simp only [Log.record]
      repeat' split
      all_goals rfl
  | _ => exact .inl rfl

/-- The time of the last release only grows. -/
theorem Dated.released_le (hd : Dated o s l) (e : Event) (n : Nat) :
    l.released n ≤ (l.record s e).released n ∧ (l.record s e).released n ≤ s.now := by
  rcases record_released l s e with hsame | ⟨i, pick, fd, closeIt, -, -, hupdate⟩
  · rw [hsame]
    exact ⟨le_rfl, hd.past n⟩
  · rw [hupdate, Function.update_apply]
    split
    next => exact ⟨hd.past n, le_rfl⟩
    next => exact ⟨le_rfl, hd.past n⟩

/-- A step records nothing about the connections that are stored already. -/
theorem record_stored (hl : s.Ledger) (e : Event) {slot : Slot} (hslot : slot ∈ s.stored) :
    (l.record s e).released (conn s.table slot.fd) = l.released (conn s.table slot.fd) := by
  rcases record_released l s e with hsame | ⟨i, pick, fd, closeIt, -, hi, hupdate⟩
  · rw [hsame]
  · rw [hupdate, Function.update_of_ne (hl.caller_stored hi rfl hslot)]

theorem created_step (h : Step o s e s') (hl : s.Ledger) (hd : Dated o s l) {slot : Slot}
    (hslot : slot ∈ s'.stored) :
    slot.created = (l.record s e).released (conn s'.table slot.fd) := by
  have hkept : ∀ c ∈ s.stored, c.fd = slot.fd → c.created = slot.created →
      slot.created = (l.record s e).released (conn s'.table slot.fd) := by
    intro c hc hfd hcreated
    have howned := stored_owned hc
    rw [hfd] at howned
    rw [conn_step h hl howned (stored_owned hslot), ← hfd, record_stored hl e hc, ← hcreated]
    exact hd.created c hc
  rcases stored_step h hslot with hsame | ⟨-, -, c, hc, rfl⟩ | ⟨i, fd, pick, rfl, hi, rfl⟩
  · exact hkept slot hsame rfl rfl
  · exact hkept c hc rfl rfl
  · have howned : fd ∈ s.owned := by
      refine Multiset.mem_add.mpr (.inr ?_)
      rw [← total_fds_lose .released hi rfl rfl]
      simp
    rw [conn_step h hl howned (stored_owned hslot)]
    simp only [Log.record, hi, Function.update_self]

/-- The reaper has been waiting, or it begins to. -/
theorem waiting_step (h : Step o s e s') {d : Int} (hw : s'.reaper = .waiting d) :
    (s.reaper = .waiting d ∧ ∀ slot ∈ s'.idle, slot ∈ s.idle ∨ slot.lastUsed = slot.created) ∨
      (d = s.now + o.reaperWait ∧ s'.idle = s.idle) := by
  cases h with
  | reaperWait =>
      cases hw
      exact .inr ⟨rfl, rfl⟩
  | borrowIdle _ _ _ _ hidle =>
      refine .inl ⟨hw, fun slot hslot => .inl ?_⟩
      rw [hidle]
      exact List.mem_cons_of_mem _ hslot
  | releaseKeep =>
      refine .inl ⟨hw, fun slot hslot => ?_⟩
      rcases List.mem_append.mp hslot with hslot | hslot
      · exact .inl hslot
      · rw [List.mem_singleton.mp hslot]
        exact .inr rfl
  | shutdownClose _ hidle =>
      refine .inl ⟨hw, fun slot hslot => .inl ?_⟩
      rw [hidle]
      exact List.mem_cons_of_mem _ hslot
  | reaperExit | sweep | pushBack | closeVictim | victimsClosed | startPings | pingsDone | closeDead
  | deadClosed | pingOk | pingFail => cases hw
  | clock | foreignOpen | foreignClose | borrow | borrowAbort | borrowDial | borrowSleep
  | borrowTimeout | borrowSpurious | dialOk | dialFail | dialFailLock | incPoolCreate
  | incPoolBorrow | release | sample | releaseDrop | releaseClose | shutdownAgain | shutdown
  | shutdownUnlock | shutdownNotify | shutdownReturn => exact .inl ⟨hw, fun _ hslot => .inl hslot⟩

theorem dated_step (h : Step o s e s') (hl : s.Ledger) (hd : Dated o s l) :
    Dated o s' (l.record s e) where
  past n := ((hd.released_le e n).2).trans (now_le_step h)
  created _ hslot := created_step h hl hd hslot
  used slot hslot := by
    have hnow := now_le_step h
    rcases stored_step h hslot with hsame | ⟨-, -, c, -, rfl⟩ | ⟨i, fd, pick, -, -, rfl⟩
    · exact (hd.used slot hsame).trans hnow
    · exact hnow
    · exact hnow
  unpinged hoff := by
    obtain ⟨hnone, hsame⟩ := hd.unpinged hoff
    refine ⟨checking_step hoff h hnone, fun slot hslot => ?_⟩
    rcases stored_step h hslot with hslot | ⟨-, hsome, -⟩ | ⟨i, fd, pick, -, -, rfl⟩
    · exact hsame slot hslot
    · exact absurd hnone hsome
    · rfl
  waited d hw slot hslot := by
    rcases waiting_step h hw with ⟨hwas, hidle⟩ | ⟨rfl, hidle⟩
    · rcases hidle slot hslot with hslot | hnew
      · exact hd.waited d hwas slot hslot
      · exact .inl hnew
    · rw [hidle] at hslot
      have hused := hd.used slot (List.mem_append_left _ hslot)
      exact .inr (by omega)

theorem dated_init (o : Options) : Dated o {} {} where
  past _ := le_rfl
  created _ hslot := absurd hslot List.not_mem_nil
  used _ hslot := absurd hslot List.not_mem_nil
  unpinged _ := ⟨rfl, fun _ hslot => absurd hslot List.not_mem_nil⟩
  waited _ hw := by cases hw

/-! ## Sweeps -/

/-- The connections that the last sweep has condemned. -/
def Reaper.victims : Reaper → List Slot
  | .closingVictims victims _ => victims
  | _ => []

/-- The settings with which the sweep finds every unused connection. -/
def Options.findsUnused (o : Options) : Prop :=
  o.enableHealthCheck = false ∨ o.idleTimeout < 100 ∨ o.maxLifetime ≤ o.idleTimeout

theorem Options.le_reaperWait (o : Options) : 100 ≤ o.reaperWait := by
  simp only [reaperWait]
  split <;> omega

/-- A connection that the sweep spares has been released in time. -/
theorem Dated.spared (hd : Dated o s l) (ho : o.findsUnused) {d : Int}
    (hw : s.reaper = .waiting d) (hlate : d ≤ s.now) {slot : Slot} (hslot : slot ∈ s.idle)
    (hspared : slot.expired o s.now = false) :
    s.now - l.released (conn s.table slot.fd) ≤ o.idleTimeout := by
  have hstored : slot ∈ s.stored := List.mem_append_left _ hslot
  rw [← hd.created slot hstored]
  simp only [Slot.expired, Bool.or_eq_false_iff, decide_eq_false_iff_not, Int.not_lt] at hspared
  obtain ⟨hidle, hlife⟩ := hspared
  rcases ho with hoff | hshort | hlifetime
  · rw [(hd.unpinged hoff).2 slot hstored] at hidle
    exact hidle
  · rcases hd.waited d hw slot hslot with hsame | hping
    · rw [hsame] at hidle
      exact hidle
    · -- the reaper waits 100 ms at least, so the ping is too old as well
      have hwait := o.le_reaperWait
      omega
  · omega

/-- Every connection that was idle at the last sweep is closed, or condemned, or was
released in time. -/
def Swept (o : Options) (s : State) (l : Log) : Prop :=
  ∀ n ∈ l.swept, n ∈ s.closed ∨ (∃ v ∈ s.reaper.victims, conn s.table v.fd = n) ∨
    l.sweptAt - l.released n ≤ o.idleTimeout

theorem victims_stored {v : Slot} (hv : v ∈ s.reaper.victims) : v ∈ s.stored := by
  refine List.mem_append_right _ ?_
  cases hpc : s.reaper with
  | closingVictims victims toCheck =>
      rw [hpc] at hv
      exact List.mem_append_left _ hv
  | _ =>
      rw [hpc] at hv
      cases hv

theorem victims_step (h : Step o s e s') (hl : s.Ledger) {v : Slot} (hv : v ∈ s.reaper.victims) :
    v ∈ s'.reaper.victims ∨ conn s.table v.fd ∈ s'.closed := by
  cases h with
  | @closeVictim w victims toCheck hpc =>
      rw [hpc] at hv
      rcases List.mem_cons.mp hv with rfl | hv
      · right
        have hstored : v ∈ s.stored := by simp [State.stored, hpc, Reaper.slots]
        obtain ⟨n, hn⟩ := hl.1.isOpen v.fd (stored_owned hstored)
        simp [State.closeFd, conn, hn]
      · exact .inl hv
  | reaperExit _ _ hpc =>
      rcases hpc with hpc | ⟨d, hpc⟩ <;> rw [hpc] at hv <;> cases hv
  | reaperWait _ _ hpc | sweep _ _ hpc | pushBack _ hpc | victimsClosed hpc | startPings hpc
  | pingsDone hpc | closeDead hpc | deadClosed hpc | pingOk hpc | pingFail hpc =>
      rw [hpc] at hv
      cases hv
  | clock | foreignOpen | foreignClose | borrow | borrowAbort | borrowIdle | borrowDial
  | borrowSleep | borrowTimeout | borrowSpurious | dialOk | dialFail | dialFailLock | incPoolCreate
  | incPoolBorrow | release | sample | releaseKeep | releaseDrop | releaseClose | shutdownAgain
  | shutdown | shutdownClose | shutdownUnlock | shutdownNotify | shutdownReturn => exact .inl hv

theorem record_swept (h : Step o s e s') (l : Log) :
    ((l.record s e).swept = l.swept ∧ (l.record s e).sweptAt = l.sweptAt) ∨
    ∃ d, e = .reaperLock ∧ s.reaper = .waiting d ∧ d ≤ s.now ∧ s' = s.sweep o ∧ l.record s e =
      { l with sweptAt := s.now, swept := s.idle.map (fun slot => conn s.table slot.fd) } := by
  cases h with
  | sweep _ hshut hpc hlate =>
      exact .inr ⟨_, rfl, hpc, hlate, rfl, by simp [Log.record, hpc, hshut]⟩
  | releaseKeep hi | releaseDrop hi => exact .inl (by simp [Log.record, hi])
  | reaperExit _ hshut hpc =>
      left
      rcases hpc with hpc | ⟨d, hpc⟩ <;> simp [Log.record, hpc, hshut]
  | reaperWait _ _ hpc | pushBack _ hpc => exact .inl (by simp [Log.record, hpc])
  | _ => exact .inl ⟨rfl, rfl⟩

/-- The connection is closed, or the last sweep has condemned it. -/
def Condemned (s : State) (n : Nat) : Prop :=
  n ∈ s.closed ∨ ∃ v ∈ s.reaper.victims, conn s.table v.fd = n

/-- Nothing saves a condemned connection. -/
theorem condemned_step (h : Step o s e s') (hl : s.Ledger) {n : Nat} (hn : Condemned s n) :
    Condemned s' n := by
  rcases hn with hclosed | ⟨v, hv, hconn⟩
  · exact .inl (closed_step h hclosed)
  · rcases victims_step h hl hv with hv' | hclosed
    · have howned : v.fd ∈ s.owned := stored_owned (victims_stored hv)
      have howned' : v.fd ∈ s'.owned := stored_owned (victims_stored hv')
      exact .inr ⟨v, hv', by rw [conn_step h hl howned howned', hconn]⟩
    · exact .inl (hconn ▸ hclosed)

theorem condemned_sweep {slot : Slot} (hslot : slot ∈ s.idle)
    (hexpired : slot.expired o s.now = true) : Condemned (s.sweep o) (conn s.table slot.fd) :=
  .inr ⟨slot, List.mem_filter.mpr ⟨hslot, hexpired⟩, rfl⟩

/-- After the iteration nothing that is idle is condemned. -/
theorem State.Ledger.not_condemned (hl : s.Ledger) (hrest : s.reaper.resting = true) {slot : Slot}
    (hslot : slot ∈ s.idle) : ¬ Condemned s (conn s.table slot.fd) := by
  have hstored : slot ∈ s.stored := List.mem_append_left _ hslot
  rintro (hclosed | ⟨v, hv, -⟩)
  · exact hl.not_closed (stored_owned hstored) hclosed
  · cases hpc : s.reaper with
    | closingVictims =>
        rw [hpc] at hrest
        cases hrest
    | _ =>
        rw [hpc] at hv
        cases hv

theorem swept_step (h : Step o s e s') (hl : s.Ledger) (hd : Dated o s l) (ho : o.findsUnused)
    (hs : Swept o s l) : Swept o s' (l.record s e) := by
  rcases record_swept h l with ⟨hswept, hat⟩ | ⟨d, -, hw, hlate, rfl, hrecord⟩
  · intro n hn
    rw [hswept] at hn
    rw [hat, ← or_assoc]
    rcases or_assoc.mpr (hs n hn) with hcondemned | hyoung
    · exact .inl (condemned_step h hl hcondemned)
    · have hle := (hd.released_le e n).1
      exact .inr (by omega)
  · intro n hn
    rw [hrecord] at hn ⊢
    obtain ⟨slot, hslot, rfl⟩ := List.mem_map.mp hn
    cases hexpired : slot.expired o s.now with
    | true => exact or_assoc.mp (.inl (condemned_sweep hslot hexpired))
    | false => exact .inr (.inr (hd.spared ho hw hlate hslot hexpired))

theorem Swept.reaped (hs : Swept o s l) (hl : s.Ledger) : Reaped o s l := by
  intro hrest slot hslot hmem
  rcases or_assoc.mpr (hs _ hmem) with hcondemned | hyoung
  · exact absurd hcondemned (hl.not_condemned hrest hslot)
  · exact hyoung

/-! ## Pings in time -/

/-- An iteration in which one connection is pinged. -/
def iteration : List Event :=
  [.reaperLock, .reaperStep, .ping true, .reaperStep, .reaperStep, .reaperLock]

/-- A connection that is not expired is back in `idle_` after an iteration. -/
theorem iteration_spares {d : Int} {slot : Slot} (hon : o.normalise.enableHealthCheck = true)
    (hlock : s.unlocked = true) (hshut : s.shuttingDown = false) (hw : s.reaper = .waiting d)
    (hlate : d ≤ s.now) (hidle : s.idle = [slot])
    (hspared : slot.expired o.normalise s.now = false) :
    (logged o).exec (s, l) iteration =
      some ({ s with idle := [{ slot with lastUsed := s.now }], reaper := .loopHead },
        { l with sweptAt := s.now, swept := [conn s.table slot.fd] }) := by
  have hsweep : s.sweep o.normalise =
      { s with idle := [], reaper := .closingVictims [] [slot] } := by
    simp [State.sweep, hidle, hspared, hon]
  have hfirst : (logged o).step (s, l) .reaperLock =
      some ({ s with idle := [], reaper := .closingVictims [] [slot] },
        { l with sweptAt := s.now, swept := [conn s.table slot.fd] }) := by
    simp [logged, Machine.withHistory, machine, step, State.reaperLock, Log.record, hlock, hw,
      hshut, hlate, hsweep, hidle]
  have hlast : ∀ t : State, t.unlocked = true → ∀ l survivors, t.reaper = .pushBack survivors →
      (logged o).step (t, l) .reaperLock =
        some ({ t with idle := t.idle ++ survivors, reaper := .loopHead }, l) := by
    intro t ht l survivors hpc
    simp [logged, Machine.withHistory, machine, step, State.reaperLock, Log.record, ht, hpc]
  have hback := hlast { s with idle := [], reaper := .pushBack [{ slot with lastUsed := s.now }] }
    hlock { l with sweptAt := s.now, swept := [conn s.table slot.fd] } _ rfl
  refine Machine.exec_cons_iff.mpr ⟨_, hfirst, ?_⟩
  refine Machine.exec_cons_iff.mpr ⟨_, rfl, Machine.exec_cons_iff.mpr ⟨_, rfl, ?_⟩⟩
  refine Machine.exec_cons_iff.mpr ⟨_, rfl, Machine.exec_cons_iff.mpr ⟨_, rfl, ?_⟩⟩
  exact Machine.exec_single_iff.mpr hback

theorem Options.normalise_maxSize_pos (o : Options) : 0 < o.normalise.maxSize := by
  simp only [normalise]
  repeat' split
  all_goals simp_all
  all_goals omega

theorem Options.normalise_timeouts (o : Options) :
    o.normalise.idleTimeout = o.idleTimeout ∧ o.normalise.maxLifetime = o.maxLifetime ∧
      o.normalise.reaperWait = o.reaperWait := by
  simp only [normalise, reaperWait]
  split <;> split <;> exact ⟨rfl, rfl, rfl⟩

/-- A borrower dials. -/
def dialled (o : Options) : List Event :=
  [.reaperLock, .borrow, .borrowLock 0] ++
    (.dialOk 0 3 :: if o.metrics = true then [.incPoolCreate 0, .incPoolBorrow 0] else [])

theorem dialled_run (o : Options) :
    ∃ s, (logged o).run (dialled o) = some (s, {}) ∧ s.now = 0 ∧ s.shutdown = .idle ∧
      s.shuttingDown = false ∧ s.reaper = .waiting o.reaperWait ∧ s.idle = [] ∧
      s.callers = [.held 3] ∧ conn s.table 3 = 0 := by
  have hsize := o.normalise_maxSize_pos
  have htimeouts := o.normalise_timeouts
  have hmetrics := o.normalise_metrics
  have hfirst : (logged o).run [.reaperLock, .borrow, .borrowLock 0] = some ({
      reaper := .waiting o.reaperWait, inUse := 1, callers := [.dialing] }, {}) := by
    simp [logged, Machine.withHistory, Machine.run, Machine.exec, machine, step, State.reaperLock,
      State.unlocked, State.borrowLock, Caller.atLock, State.borrowBody, hsize, Log.record,
      htimeouts]
  have hrest : ∃ s, (logged o).exec ({
      reaper := .waiting o.reaperWait, inUse := 1, callers := [.dialing] }, {})
      (.dialOk 0 3 :: if o.metrics = true then [.incPoolCreate 0, .incPoolBorrow 0] else []) =
        some (s, {}) ∧ s.now = 0 ∧ s.shutdown = .idle ∧ s.shuttingDown = false ∧
      s.reaper = .waiting o.reaperWait ∧ s.idle = [] ∧ s.callers = [.held 3] ∧
      conn s.table 3 = 0 := by
    cases hm : o.metrics <;>
      simp [logged, Machine.withHistory, Machine.exec, machine, step, State.dialOk,
        State.setCaller, Log.record, conn, hmetrics, hm]
  obtain ⟨s, hexec, hresult⟩ := hrest
  exact ⟨s, Machine.exec_append_iff.mpr ⟨_, hfirst, hexec⟩, hresult⟩

/-- The borrower releases its connection one tick before a sweep. -/
def releasedBefore (o : Options) : List Event :=
  dialled o ++
    [.clock (o.reaperWait - 1).toNat, .release 0 true, .sample 0, .releaseLock 0 none, .clock 1]

theorem releasedBefore_run (o : Options) :
    ∃ s l, (logged o).run (releasedBefore o) = some (s, l) ∧ s.unlocked = true ∧
      s.shuttingDown = false ∧ s.reaper = .waiting o.reaperWait ∧ s.now = o.reaperWait ∧
      s.idle = [⟨3, o.reaperWait - 1, o.reaperWait - 1⟩] ∧ conn s.table 3 = 0 ∧
      l.released 0 = o.reaperWait - 1 := by
  have hwait := o.le_reaperWait
  have htick : ((o.reaperWait.toNat - 1 : Nat) : Int) = o.reaperWait - 1 := by omega
  obtain ⟨s, hrun, hnow, hshutdown, hshut, hreaper, hidle, hcallers, hconn⟩ := dialled_run o
  have hrest : ∃ t l, (logged o).exec (s, {}) [.clock (o.reaperWait - 1).toNat, .release 0 true,
      .sample 0, .releaseLock 0 none, .clock 1] = some (t, l) ∧ t.unlocked = true ∧
      t.shuttingDown = false ∧ t.reaper = .waiting o.reaperWait ∧ t.now = o.reaperWait ∧
      t.idle = [⟨3, o.reaperWait - 1, o.reaperWait - 1⟩] ∧ conn t.table 3 = 0 ∧
      l.released 0 = o.reaperWait - 1 := by
    simp [logged, Machine.withHistory, Machine.exec, machine, step, State.setCaller, State.unlocked,
      State.releaseLock, CondVar.notifyOne, borrowCv, Log.record, hnow, hshutdown, hshut, hreaper,
      hidle, hcallers, hconn, htick]
  obtain ⟨t, l, hexec, hresult⟩ := hrest
  exact ⟨t, l, Machine.exec_append_iff.mpr ⟨_, hrun, hexec⟩, hresult⟩

/-- The connection is pinged again when it is one tick too old. -/
def pingedInTime (o : Options) : List Event :=
  releasedBefore o ++ (iteration ++ ([.reaperLock, .clock o.idleTimeout.toNat] ++ iteration))

theorem waits (ms : Nat) (hlock : s.unlocked = true) (hshut : s.shuttingDown = false)
    (hhead : s.reaper = .loopHead) :
    (logged o).exec (s, l) [.reaperLock, .clock ms] =
      some ({ s with
        now := s.now + ms
        reaper := .waiting (s.now + o.normalise.reaperWait) }, l) := by
  simp [Machine.exec, logged, Machine.withHistory, machine, step, State.reaperLock, Log.record,
    hlock, hshut, hhead]

theorem pingedInTime_run (o : Options) (hon : o.enableHealthCheck = true)
    (hidle : 100 ≤ o.idleTimeout) (hlife : o.idleTimeout < o.maxLifetime) :
    ∃ s l, (logged o).run (pingedInTime o) = some (s, l) ∧ ¬ Reaped o s l := by
  obtain ⟨hidle', hlife', hwait'⟩ := o.normalise_timeouts
  have hon' := o.normalise_enableHealthCheck.trans hon
  have hwait : o.reaperWait ≤ o.idleTimeout := by
    simp only [Options.reaperWait]
    split <;> omega
  obtain ⟨s, l, hrun, hlock, hshut, hw, hnow, hslots, hconn, hreleased⟩ := releasedBefore_run o
  -- the first sweep comes one tick after the release
  have hfirst := iteration_spares (l := l) hon' hlock hshut hw (by omega) hslots (by
    simp only [Slot.expired, Bool.or_eq_false_iff, decide_eq_false_iff_not]
    omega)
  have hwaits := waits (o := o) (l := { l with sweptAt := s.now, swept := [conn s.table 3] })
    (s := { s with idle := [⟨3, o.reaperWait - 1, s.now⟩], reaper := .loopHead })
    o.idleTimeout.toNat hlock hshut rfl
  -- the second one when the ping is `idle_timeout` old, and the release one tick more
  have hsecond := iteration_spares (l := { l with sweptAt := s.now, swept := [conn s.table 3] })
    (s := { s with
      now := s.now + o.idleTimeout.toNat
      idle := [⟨3, o.reaperWait - 1, s.now⟩]
      reaper := .waiting (s.now + o.normalise.reaperWait) }) hon' hlock hshut rfl
    (by simp only; omega) rfl (by
      simp only [Slot.expired, Bool.or_eq_false_iff, decide_eq_false_iff_not]
      omega)
  refine ⟨_, _, Machine.exec_append_iff.mpr ⟨_, hrun, Machine.exec_append_iff.mpr ⟨_, hfirst,
    Machine.exec_append_iff.mpr ⟨_, hwaits, hsecond⟩⟩⟩, ?_⟩
  intro hreaped
  have hle := hreaped rfl _ List.mem_cons_self List.mem_cons_self
  simp only [hconn, hreleased, hnow] at hle
  omega

/-! ## Every setting -/

theorem Options.normalise_findsUnused (o : Options) :
    o.normalise.findsUnused ↔ o.findsUnused := by
  obtain ⟨hidle, hlife, -⟩ := o.normalise_timeouts
  rw [findsUnused, findsUnused, o.normalise_enableHealthCheck, hidle, hlife]

theorem reachable_reaped (ho : o.findsUnused) {t : State × Log} (h : (logged o).Reachable t) :
    Reaped o t.1 t.2 := by
  have hboth : Dated o.normalise t.1 t.2 ∧ Swept o.normalise t.1 t.2 := by
    refine Machine.Reachable.invariant_with
      (P := fun u => Dated o.normalise u.1 u.2 ∧ Swept o.normalise u.1 u.2)
      (Q := fun u => u.1.Ledger) ?_ ?_ ?_ h
    · intro u hu
      exact reachable_ledger ((Machine.withHistory_projection _ _ _).reachable hu)
    · exact ⟨dated_init o.normalise, fun _ hn => absurd hn List.not_mem_nil⟩
    · intro u e u' hl hu hstep
      obtain ⟨hstep, hrecord⟩ := Machine.withHistory_step_iff.mp hstep
      rw [hrecord]
      exact ⟨dated_step (step_cases hstep) hl hu.1,
        swept_step (step_cases hstep) hl hu.1 (o.normalise_findsUnused.mpr ho) hu.2⟩
  have hledger : t.1.Ledger :=
    reachable_ledger ((Machine.withHistory_projection _ _ _).reachable h)
  have hreaped := hboth.2.reaped hledger
  rw [Reaped, o.normalise_timeouts.1] at hreaped
  exact hreaped

/-- With given options, unused connections are reaped in every run exactly if the health
check is off, or `idle_timeout` is below the shortest wait of the reaper, or `max_lifetime`
is no longer than `idle_timeout`. -/
theorem reaped_iff (o : Options) :
    (∀ es s l, (logged o).run es = some (s, l) → Reaped o s l) ↔
      o.enableHealthCheck = false ∨ o.idleTimeout < 100 ∨ o.maxLifetime ≤ o.idleTimeout := by
  constructor
  · intro h
    by_contra hnot
    simp only [not_or, Bool.not_eq_false, Int.not_lt, Int.not_le] at hnot
    obtain ⟨hon, hidle, hlife⟩ := hnot
    obtain ⟨s, l, hrun, hbad⟩ := pingedInTime_run o hon hidle hlife
    exact hbad (h _ s l hrun)
  · intro ho es s l hrun
    exact reachable_reaped ho ⟨es, hrun⟩

/-- A connection that no sweep has pinged is closed when it is too old. -/
def sweptInTime : List Event :=
  releasedBefore {} ++ [.reaperLock, .reaperStep, .reaperLock, .clock 60000, .reaperLock,
    .reaperStep, .reaperStep]

theorem reaped_sweptInTime : ∃ s l,
    (logged { enableHealthCheck := false }).run sweptInTime = some (s, l) ∧ l.swept = [0] ∧
      l.sweptAt = 70000 ∧ l.released 0 = 9999 ∧ s.idle = [] ∧ s.closed = [0] ∧
      Reaped { enableHealthCheck := false } s l := by
  refine ⟨_, _, rfl, rfl, rfl, rfl, rfl, rfl, ?_⟩
  exact (reaped_iff { enableHealthCheck := false }).mpr (.inl rfl) sweptInTime _ _ rfl

/-- With the default options, a connection released at 9.999 s is idle after the sweep at
70 s. -/
theorem unreaped_pingedInTime : ∃ s l, (logged {}).run (pingedInTime {}) = some (s, l) ∧
    s.reaper.resting = true ∧ l.sweptAt = 70000 ∧ l.swept = [0] ∧ l.released 0 = 9999 ∧
      s.idle.map (fun slot => conn s.table slot.fd) = [0] ∧ ¬ Reaped {} s l := by
  refine ⟨_, _, rfl, rfl, rfl, rfl, rfl, rfl, ?_⟩
  intro h
  have hle := h rfl _ List.mem_cons_self List.mem_cons_self
  revert hle
  decide

end InferenceRouter.BackendPool
