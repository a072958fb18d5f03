import InferenceRouter.Router.Invariant

/-!
# The drain

What the shutdown sequence of `main` achieves, in every interleaving.

When `pool.stop()` has returned, no accepted request is lost: every client has
had one run of `handle_one`, which has returned, and the counters say so
(`no_request_lost`).

Two things the documents say of the way there do not hold.  A grace loop that
ends with `in_flight() == 0` need not have drained anything: a request counts
itself in flight only when its handler starts.  `graceLoop_drained_iff` says
exactly when it has.  And a request counted as dropped at the deadline is
counted again when `pool.stop()` lets it finish: `final_counters_iff` says that
the final counters add up exactly in the runs where none was dropped.
-/

namespace InferenceRouter.Router

open Interleaving Handler

variable {cfg : Config} {s s' : State} {e : Event}

/-! ## After the acceptor has exited -/

theorem Routed.clients_length (hr : Routed cfg s) (hex : s.acceptor = .exited) :
    s.pool.submitters.length = s.clients.length := by
  have hlen := hr.handover.length_of_inHand
  rw [hex] at hlen
  exact hlen.symm

theorem Routed.accepted_eq (hr : Routed cfg s) (hex : s.acceptor = .exited) :
    s.metrics.accepted = s.clients.length := by
  have hcount := hr.handover.counted
  rw [hex] at hcount
  exact hcount

/-- Every client's `submit` call has returned `true`. -/
theorem Routed.submitted (hr : Routed cfg s) (hex : s.acceptor = .exited) {i : Nat}
    (hi : i < s.clients.length) : s.pool.submitters[i]? = some (.returned true) := by
  rw [← hr.clients_length hex] at hi
  obtain ⟨p, hp⟩ : ∃ p, s.pool.submitters[i]? = some p := ⟨_, List.getElem?_eq_getElem hi⟩
  rcases (hr.ordered.calls i p hp).2 with rfl | hcall
  · exact hp
  · rw [hex] at hcall
    cases hcall

/-- The tasks pushed are those of the clients, each once. -/
theorem Routed.pushed_perm (hr : Routed cfg s)
    (ha : ThreadPool.Accounted cfg.poolOptions.normalise s.pool) (hex : s.acceptor = .exited) :
    s.pool.pushed.Perm (List.range s.clients.length) := by
  rw [List.perm_ext_iff_of_nodup ha.numbered.nodup List.nodup_range]
  intro i
  rw [ha.numbered.pushed_iff, List.mem_range]
  constructor
  · intro hi
    rw [← hr.clients_length hex]
    exact lt_of_getElem? hi
  · exact hr.submitted hex

/-! ## Runs that have returned -/

theorem Jobs.settled_returned (hj : Jobs cfg s) :
    total (fun t => t.body.tally.completed) s.returned +
      total (fun t => t.body.tally.errored) s.returned = s.returned.length := by
  rw [← total_add]
  exact total_eq_length (fun t ht => (hj.returned t ht).2.2.2)

theorem Jobs.entered_returned (hj : Jobs cfg s) :
    total (fun t => t.body.tally.entered) s.returned = s.returned.length :=
  total_eq_length (fun t ht => (hj.returned t ht).2.1)

theorem Jobs.present_returned (hj : Jobs cfg s) :
    total (fun t => t.body.tally.present) s.returned = 0 := by
  apply total_eq_zero
  intro t ht
  obtain ⟨-, hentered, hleft, -⟩ := hj.returned t ht
  simp [Tally.present, hentered, hleft]

/-- No worker runs a task. -/
def State.Quiescent (s : State) : Prop := ∀ w ∈ s.pool.workers, ∀ t, w ≠ .running t

theorem State.Quiescent.spent {M : Type} [AddCancelCommMonoid M] (h : s.Quiescent)
    (f : Tally → M) : s.spent f = total (fun t => f t.body.tally) s.returned := by
  have hzero : total (ThreadPool.Worker.weight (fun j : Job => f j.tally)) s.pool.workers = 0 := by
    apply total_eq_zero
    intro w hw
    cases w with
    | running t => exact absurd rfl (h _ hw t)
    | ready | asleep | notified | spurious | exited => rfl
  rw [State.spent, Router.spent, hzero, zero_add]

theorem quiescent_of_exited (h : ∀ w ∈ s.pool.workers, w.hasExited = true) : s.Quiescent := by
  intro w hw t heq
  have hex := h w hw
  rw [heq] at hex
  cases hex

/-- With no run going on, the counters settle the runs that have returned. -/
theorem Routed.settled (hr : Routed cfg s) (hq : s.Quiescent) :
    s.metrics.completed + s.metrics.errored = s.returned.length := by
  rw [hr.counters.completed, hr.counters.errored, hq.spent, hq.spent]
  exact hr.jobs.settled_returned

theorem Routed.inFlight_eq_zero (hr : Routed cfg s) (hq : s.Quiescent) :
    s.metrics.inFlight = 0 := by
  rw [hr.counters.inFlight, hq.spent]
  exact hr.jobs.present_returned

/-! ## No request is lost -/

/-- What main finds when `pool.stop()` has returned. -/
structure Settled (s : State) : Prop where
  popped : s.pool.popped.Perm (List.range s.clients.length)
  returned : (s.returned.map ThreadPool.Task.id).Perm (List.range s.clients.length)
  queue : s.pool.queue = []
  exited : ∀ w ∈ s.pool.workers, w.hasExited = true
  accepted : s.metrics.accepted = s.clients.length
  settled : s.metrics.completed + s.metrics.errored = s.metrics.accepted

theorem settled_of_poolStopped (h : (machine cfg).Reachable s)
    (hstopped : s.main.poolStopped = true) : Settled s := by
  have hr := reachable_routed h
  have ha := reachable_pool h
  have hret := hr.ordered.returned hstopped
  have hex : s.acceptor = .exited :=
    hr.ordered.joined (Main.beforeJoin_of_stopCalled (Main.stopCalled_of_poolStopped hstopped))
  have hexited := ha.stopping.returned _ hret
  obtain ⟨hempty, hpopped⟩ := ha.drained_queue (reachable_pool_workers h) hret
  have hpushed := hr.pushed_perm ha hex
  have hfinished : (s.returned.map ThreadPool.Task.id).Perm s.pool.pushed := by
    rw [← hr.jobs.finished]
    exact Multiset.coe_eq_coe.mp (ha.drained (reachable_pool_workers h) hret)
  have hlength : s.returned.length = s.metrics.accepted := by
    have hlen := (hfinished.trans hpushed).length_eq
    rw [List.length_map, List.length_range] at hlen
    rw [hr.accepted_eq hex, hlen]
  exact {
    popped := hpopped ▸ hpushed
    returned := hfinished.trans hpushed
    queue := hempty
    exited := hexited
    accepted := hr.accepted_eq hex
    settled := (hr.settled (quiescent_of_exited hexited)).trans hlength }

/-- In every reachable state in which `pool.stop()` has returned, each client that
`accept4` returned has had exactly one run of `handle_one`, on its own
descriptor, and the run has returned; the counters are settled, the branch for a
refused task was never taken, and no run called the backend set after its
shutdown had begun. -/
theorem no_request_lost (cfg : Config) {s : State} (h : (machine cfg).Reachable s)
    (hstopped : s.main.poolStopped = true) :
    s.pool.popped.Perm (List.range s.clients.length) ∧
      (s.returned.map ThreadPool.Task.id).Perm (List.range s.clients.length) ∧
      (∀ t ∈ s.returned, s.clients[t.id]? = some t.body.fd) ∧
      s.pool.queue = [] ∧ (∀ w ∈ s.pool.workers, w.hasExited = true) ∧
      s.metrics.accepted = s.clients.length ∧
      s.metrics.completed + s.metrics.errored = s.metrics.accepted ∧
      s.metrics.inFlight = 0 ∧ s.refusals = 0 ∧ s.lateCalls = 0 := by
  have hr := reachable_routed h
  have hs := settled_of_poolStopped h hstopped
  have hq := quiescent_of_exited hs.exited
  exact ⟨hs.popped, hs.returned, fun t ht => (hr.jobs.returned t ht).1, hs.queue, hs.exited,
    hs.accepted, hs.settled, hr.inFlight_eq_zero hq, hr.ordered.refusals_eq, hr.lateCalls⟩

/-- One client, whose request cannot be read, and an orderly shutdown. -/
def oneClient : List Event :=
  [.acceptor, .epollWait (.ok [.listen]), .acceptor, .accept4 (.ok 7), .acceptor, .acceptor,
    .pool (.submitLock 0 none), .acceptor, .accept4 (.error .eagain), .acceptor,
    .pool (.workerLock 0 none), .handlerCall 0 .incInFlight (), .main, .main, .main, .acceptor,
    .main, .main,
    .handlerCall 0 (.readMessage .client (16 * 1024 * 1024) 5000) (.kPeerClosed, []),
    .handlerCall 0 .incErrored (), .handlerCall 0 .safeClose (), .handlerCall 0 .decInFlight (),
    .main, .main, .main, .handlerReturn 0, .pool (.workerLock 0 none), .pool .notifyNotEmpty,
    .pool .notifyNotFull, .pool .join, .main, .main, .main]

theorem no_request_lost_oneClient : ∃ s,
    (machine { threads := 1 }).run oneClient = some s ∧ s.main = .logFinal ∧ s.clients = [7] ∧
      s.metrics.completed + s.metrics.errored = s.metrics.accepted := by
  refine ⟨_, rfl, rfl, rfl, ?_⟩
  have h := no_request_lost { threads := 1 } ⟨oneClient, rfl⟩ rfl
  exact h.2.2.2.2.2.2.1

/-! ## The grace loop -/

/-- Nothing is left to do for an accepted request. -/
def State.Drained (s : State) : Prop :=
  s.pool.queue = [] ∧ s.Quiescent ∧
    s.metrics.completed + s.metrics.errored = s.metrics.accepted

/-- `in_flight` counts the runs that have entered and not left. -/
theorem Routed.inFlight_eq (hr : Routed cfg s) :
    s.metrics.inFlight = ((total (ThreadPool.Worker.weight
      (fun j : Job => j.tally.entered - j.tally.left)) s.pool.workers : Nat) : Int) := by
  rw [hr.counters.inFlight, State.spent, spent, hr.jobs.present_returned, add_zero]
  symm
  apply natCast_total
  intro w hw
  cases w with
  | running t =>
      obtain ⟨-, -, hsound⟩ := hr.jobs.running _ hw t rfl
      have hle := hsound.left_le.trans hsound.settled_le
      simp only [ThreadPool.Worker.weight, Tally.present]
      omega
  | ready | asleep | notified | spurious | exited => rfl

/-- A run that is not counted in flight has left or has not entered. -/
theorem Routed.entered_le_left (hr : Routed cfg s) (hzero : s.metrics.inFlight ≤ 0) :
    ThreadPool.Running (fun t => t.body.tally.entered ≤ t.body.tally.left) s.pool := by
  intro w hw t ht
  have hnat := hr.inFlight_eq
  have htotal := eq_zero_of_total (f := ThreadPool.Worker.weight
    (fun j : Job => j.tally.entered - j.tally.left)) (by omega) hw
  rw [ht] at htotal
  simp only [ThreadPool.Worker.weight] at htotal
  omega

theorem quiescent_of_card (h : s.pool.runningIds.card = 0) : s.Quiescent := by
  intro w hw t ht
  rw [s.pool.card_runningIds] at h
  have hzero := eq_zero_of_total h hw
  rw [ht] at hzero
  cases hzero

/-- If every accepted client has entered and none is between leaving and
returning, an idle `in_flight` means that every run has returned. -/
theorem Routed.drained_of_entered (hr : Routed cfg s)
    (ha : ThreadPool.Accounted cfg.poolOptions.normalise s.pool) (hex : s.acceptor = .exited)
    (hzero : s.metrics.inFlight ≤ 0) (hentered : s.spent Tally.entered = s.metrics.accepted)
    (hleft : ThreadPool.Running (fun t => t.body.tally.left = 0) s.pool) : s.Drained := by
  have hidle : total (ThreadPool.Worker.weight (fun j : Job => j.tally.entered))
      s.pool.workers = 0 := by
    apply total_eq_zero
    intro w hw
    cases w with
    | running t =>
        have hle := hr.entered_le_left hzero _ hw t rfl
        have hleft := hleft _ hw t rfl
        simp only [ThreadPool.Worker.weight]
        omega
    | ready | asleep | notified | spurious | exited => rfl
  have hreturned : s.returned.length = s.clients.length := by
    rw [State.spent, spent, hidle, zero_add, hr.jobs.entered_returned] at hentered
    rw [hentered, hr.accepted_eq hex]
  have hfinished : s.pool.finished.length = s.clients.length := by
    rw [hr.jobs.finished, List.length_map, hreturned]
  have hpushed : s.pool.pushed.length = s.clients.length := by
    rw [(hr.pushed_perm ha hex).length_eq, List.length_range]
  have hparts := ha.length_pushed
  have hq : s.Quiescent := quiescent_of_card (by omega)
  refine ⟨List.eq_nil_of_length_eq_zero (by omega), hq, ?_⟩
  rw [hr.settled hq, hreturned, hr.accepted_eq hex]

theorem Routed.entered_of_drained (hr : Routed cfg s) (hd : s.Drained) :
    s.spent Tally.entered = s.metrics.accepted ∧
      ThreadPool.Running (fun t => t.body.tally.left = 0) s.pool := by
  obtain ⟨-, hq, hcount⟩ := hd
  refine ⟨?_, fun w hw t ht => absurd ht (hq w hw t)⟩
  rw [hq.spent, hr.jobs.entered_returned, ← hr.settled hq, hcount]

/-- When main leaves the grace loop because it read `in_flight() == 0`, the router
is drained exactly if every accepted client's run had already executed
`inc_in_flight`, and none is between its `dec_in_flight` and its return. -/
theorem graceLoop_drained_iff (cfg : Config) {s s' : State} {graceEnd : Int}
    (h : (machine cfg).Reachable s) (hmain : s.main = .graceInFlight graceEnd)
    (hread : (machine cfg).step s .main = some s') (hleave : s'.main = .checkDropped) :
    s'.Drained ↔ s.spent Tally.entered = s.metrics.accepted ∧
      ThreadPool.Running (fun t => t.body.tally.left = 0) s.pool := by
  have hr := reachable_routed h
  have hex : s.acceptor = .exited := hr.ordered.joined (by rw [hmain]; rfl)
  simp only [machine, step, State.mainStep, hmain] at hread
  split at hread
  next =>
    cases hread
    cases hleave
  next hzero =>
    cases hread
    constructor
    · intro hd
      exact hr.entered_of_drained hd
    · rintro ⟨hentered, hleft⟩
      exact hr.drained_of_entered (reachable_pool h) hex (by omega) hentered hleft

/-- One client is handled, then the shutdown begins. -/
def handledClient : List Event :=
  [.acceptor, .epollWait (.ok [.listen]), .acceptor, .accept4 (.ok 7), .acceptor, .acceptor,
    .pool (.submitLock 0 none), .acceptor, .accept4 (.error .eagain), .acceptor,
    .pool (.workerLock 0 none), .handlerCall 0 .incInFlight (),
    .handlerCall 0 (.readMessage .client (16 * 1024 * 1024) 5000) (.kPeerClosed, []),
    .handlerCall 0 .incErrored (), .handlerCall 0 .safeClose (), .handlerCall 0 .decInFlight (),
    .handlerReturn 0, .main, .main, .main, .acceptor, .main, .main]

theorem graceLoop_drained_handledClient : ∃ s s',
    (machine { threads := 1 }).run handledClient = some s ∧ s.main = .graceInFlight 30000 ∧
      (machine { threads := 1 }).step s .main = some s' ∧ s'.main = .checkDropped ∧
      s'.metrics.accepted = 1 ∧ s'.Drained := by
  refine ⟨_, _, rfl, rfl, rfl, rfl, rfl, ?_⟩
  refine (graceLoop_drained_iff { threads := 1 } ⟨handledClient, rfl⟩ rfl rfl rfl).mpr ⟨rfl, ?_⟩
  intro w hw t ht
  rw [List.mem_singleton.mp hw] at ht
  cases ht

/-- One client is accepted and queued, and the shutdown begins before a worker
pops it. -/
def queuedClient : List Event :=
  [.acceptor, .epollWait (.ok [.listen]), .acceptor, .accept4 (.ok 7), .acceptor, .acceptor,
    .pool (.submitLock 0 none), .acceptor, .accept4 (.error .eagain), .acceptor, .main, .main,
    .main, .acceptor, .main, .main]

theorem graceLoop_not_drained : ∃ s s',
    (machine { threads := 1 }).run queuedClient = some s ∧ s.main = .graceInFlight 30000 ∧
      (machine { threads := 1 }).step s .main = some s' ∧ s'.main = .checkDropped ∧
      s'.pool.queue.length = 1 ∧ s'.metrics.accepted = 1 ∧
      s'.metrics.completed + s'.metrics.errored = 0 ∧ ¬ s'.Drained := by
  refine ⟨_, _, rfl, rfl, rfl, rfl, rfl, rfl, rfl, ?_⟩
  rintro ⟨hempty, -⟩
  cases hempty

/-! ## The deadline -/

/-- The drops that main has still to count. -/
def Main.remaining : Main → Nat
  | .dropping n => n
  | _ => 0

/-- The drops counted and still to be counted. -/
def State.drops (s : State) : Nat := s.metrics.dropped + s.main.remaining

theorem Main.remaining_of_beforeJoin {m : Main} (h : m.beforeJoin = true) : m.remaining = 0 := by
  cases m <;> simp_all [beforeJoin, remaining]

theorem Main.remaining_of_draining {m : Main} (h : m.draining = true) : m.remaining = 0 := by
  cases m <;> simp_all [draining, remaining]

theorem Main.remaining_of_poolStopped {m : Main} (h : m.poolStopped = true) :
    m.remaining = 0 := by
  cases m <;> simp_all [poolStopped, remaining]

theorem record_dropped (m : Metrics) (o : Op) : (m.record o).dropped = m.dropped := by
  cases o <;> rfl

/-- Only the load of `remaining` adds drops. -/
theorem drops_step (h : Step cfg s e s') :
    (e = .main ∧ s.main = .readRemaining ∧ s'.drops = s.drops + s.metrics.inFlight.toNat) ∨
      ((e = .main → s.main ≠ .readRemaining) ∧ s'.drops = s.drops) := by
  have hmove : ∀ {m : Main}, s.main ≠ .readRemaining → s.main.remaining = 0 → m.remaining = 0 →
      (Event.main = .main → s.main ≠ .readRemaining) ∧
        s.metrics.dropped + m.remaining = s.metrics.dropped + s.main.remaining := by
    intro m hne hzero hzero'
    exact ⟨fun _ => hne, by rw [hzero, hzero']⟩
  cases h with
  | wander hacceptor =>
      refine .inr ⟨?_, rfl⟩
      intro heq
      rw [heq] at hacceptor
      cases hacceptor
  | clock | accept | incAccepted | submit | submitted | refused | closeRefused | countRefused | pool
  | handlerReturn => exact .inr ⟨by simp, rfl⟩
  | @handlerCall _ _ o =>
      refine .inr ⟨by simp, ?_⟩
      show (s.metrics.record o).dropped + s.main.remaining = s.drops
      rw [record_dropped]
      rfl
  | leave _ hm hm' =>
      refine .inr (hmove ?_ (Main.remaining_of_beforeJoin hm) (Main.remaining_of_beforeJoin hm'))
      intro hpc
      rw [hpc] at hm
      cases hm
  | grace hm hne hm' =>
      exact .inr (hmove hne (Main.remaining_of_draining hm) (Main.remaining_of_draining hm'))
  | readRemaining hpc =>
      refine .inl ⟨rfl, hpc, ?_⟩
      simp [State.drops, hpc, Main.remaining]
  | @drop n hpc =>
      refine .inr ⟨fun _ => by simp [hpc], ?_⟩
      simp only [State.drops, hpc, Main.remaining]
      omega
  | join hpc | dropped hpc | stopPool hpc | poolStopped hpc =>
      exact .inr (hmove (by simp [hpc]) (by rw [hpc]; rfl) rfl)
  | finale hm hm' =>
      refine .inr (hmove ?_ (Main.remaining_of_poolStopped hm) (Main.remaining_of_poolStopped hm'))
      intro hpc
      rw [hpc] at hm
      cases hm

/-- A step keeps the drops at zero exactly if it does not load a positive
`remaining`. -/
theorem drops_eq_zero_iff (hr : Routed cfg s) (h : Step cfg s e s') (hzero : s.drops = 0) :
    s'.drops = 0 ↔ (e = .main → s.main = .readRemaining → s.metrics.inFlight = 0) := by
  have hnat := hr.inFlight_eq
  rcases drops_step h with ⟨he, hpc, hdrops⟩ | ⟨hne, hdrops⟩
  · rw [hdrops, hzero, zero_add]
    constructor
    · intro hread _ _
      omega
    · intro hread
      have := hread he hpc
      omega
  · rw [hdrops]
    constructor
    · intro _ he hpc
      exact absurd hpc (hne he)
    · intro _
      exact hzero

/-- When main logs the final counters, the accepted requests are the completed,
the errored and the dropped ones together exactly if `in_flight()` was zero at
every load of `remaining`. -/
theorem final_counters_iff (cfg : Config) {es : List Event} {s : State}
    (h : (machine cfg).run es = some s) (hfinal : s.main = .logFinal) :
    s.metrics.accepted = s.metrics.completed + s.metrics.errored + s.metrics.dropped ↔
      (machine cfg).Meets
        (fun t e => e = .main → t.main = .readRemaining → t.metrics.inFlight = 0)
        (machine cfg).init es := by
  have hsettled := (settled_of_poolStopped ⟨es, h⟩ (by rw [hfinal]; rfl)).settled
  have hdrops : s.drops = s.metrics.dropped := by simp [State.drops, hfinal, Main.remaining]
  have hmeets := Machine.always_iff_meets (m := machine cfg) (I := (machine cfg).Reachable)
    (P := fun t => t.drops = 0) (fun _ _ _ ht hstep => ht.step hstep)
    (fun _ _ _ ht hzero hstep => drops_eq_zero_iff (reachable_routed ht) (step_cases hstep) hzero)
    .init rfl h
  have hlast := Machine.always_iff_last (m := machine cfg) (P := fun t => t.drops = 0) ?_ h
  · rw [← hmeets, hlast, hdrops]
    omega
  · intro t e t' hstep hzero
    rcases drops_step (step_cases hstep) with ⟨-, -, hdrops⟩ | ⟨-, hdrops⟩ <;> omega

theorem final_counters_oneClient : ∃ s,
    (machine { threads := 1 }).run oneClient = some s ∧ s.main = .logFinal ∧
      s.metrics.accepted = s.metrics.completed + s.metrics.errored + s.metrics.dropped ∧
      (machine { threads := 1 }).Meets
        (fun t e => e = .main → t.main = .readRemaining → t.metrics.inFlight = 0)
        (machine { threads := 1 }).init oneClient := by
  refine ⟨_, rfl, rfl, rfl, ?_⟩
  exact (final_counters_iff { threads := 1 } rfl rfl).mp rfl

/-- The deadline passes while one request is in flight. -/
def lateClient : List Event :=
  [.acceptor, .epollWait (.ok [.listen]), .acceptor, .accept4 (.ok 7), .acceptor, .acceptor,
    .pool (.submitLock 0 none), .acceptor, .accept4 (.error .eagain), .acceptor,
    .pool (.workerLock 0 none), .handlerCall 0 .incInFlight (), .main, .main, .main, .acceptor,
    .main, .main, .main, .clock 30000, .main, .main, .main, .main, .main, .main, .main,
    .handlerCall 0 (.readMessage .client (16 * 1024 * 1024) 5000) (.kPeerClosed, []),
    .handlerCall 0 .incErrored (), .handlerCall 0 .safeClose (), .handlerCall 0 .decInFlight (),
    .handlerReturn 0, .pool (.workerLock 0 none), .pool .notifyNotEmpty, .pool .notifyNotFull,
    .pool .join, .main, .main, .main]

theorem final_counters_lateClient : ∃ s,
    (machine { threads := 1 }).run lateClient = some s ∧ s.main = .logFinal ∧
      s.metrics.accepted = 1 ∧ s.metrics.completed = 0 ∧ s.metrics.errored = 1 ∧
      s.metrics.dropped = 1 := by
  exact ⟨_, rfl, rfl, rfl, rfl, rfl, rfl⟩

end InferenceRouter.Router
