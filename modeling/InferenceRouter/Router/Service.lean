import InferenceRouter.Router.Admission

/-!
# Serving

Until main calls `pool.stop()` the threads of the router come to rest only with
nothing left to do: the acceptor in `epoll_wait`, every worker in its wait
(`State.Resting`).  In every other state one of them can move
(`canServe_of_not_resting`), and at rest every client is settled
(`State.Resting.settled`).

`State.effort` counts down to the end of the shutdown.  While `stop_` is not set
the acceptor's loop goes round, so `State.backlog` counts to `epoll_wait` and no
further, and the rounds that begin there are priced (`Event.load`).
-/

namespace InferenceRouter.Router

open Interleaving

variable {cfg : Config} {s s' : State} {e : Event}

/-! ## At rest -/

/-- The acceptor waits for events, or its loop has ended, and every worker waits. -/
structure State.Resting (s : State) : Prop where
  acceptor : s.acceptor = .polling ∨ s.acceptor = .exited
  workers : ∀ w ∈ s.pool.workers, w = .asleep

/-- Short of rest, some thread can serve. -/
theorem canServe_of_not_resting (h : (machine cfg).Reachable s) (hopen : s.pool.stop = false)
    (hnot : ¬ s.Resting) : s.CanTake cfg Event.serves := by
  by_cases hacceptor : s.acceptor = .polling ∨ s.acceptor = .exited
  · obtain ⟨worker, hmem, hawake⟩ : ∃ w ∈ s.pool.workers, w ≠ .asleep := by
      by_contra hall
      refine hnot ⟨hacceptor, fun w hw => ?_⟩
      by_contra hne
      exact hall ⟨w, hw, hne⟩
    obtain ⟨w, hw⟩ := List.mem_iff_getElem?.mp hmem
    have hexited : worker.hasExited = false := by
      by_contra hex
      have hstop := ((reachable_pool h).stopping.exited ⟨worker, hmem, by simpa using hex⟩).1
      rw [hopen] at hstop
      cases hstop
    refine (canTake_of_worker hw ⟨?_, hexited⟩).canServe
    cases worker with
    | asleep => exact absurd rfl hawake
    | ready | notified | spurious | running | exited => rfl
  · exact canServe_of_acceptor h (fun hex => hacceptor (.inr hex))
      (fun hpolling => hacceptor (.inl hpolling))

/-- Only main stops the pool. -/
theorem poolStop_step (h : (machine cfg).step s e = some s') (he : e ≠ .main) :
    s'.pool.stop = s.pool.stop := by
  have hcases : Step cfg s e s' := step_cases h
  cases hcases with
  | pool hquiet hp => exact (ThreadPool.quiet_step (ThreadPool.step_cases hp) hquiet).1
  | leave | join | grace | readRemaining | drop | dropped | stopPool | poolStopped | finale =>
      exact absurd rfl he
  | clock | wander | accept | incAccepted | submit | submitted | refused | closeRefused
  | countRefused | handlerCall | handlerReturn => rfl

theorem State.Resting.quiescent (hrest : s.Resting) : s.Quiescent := by
  intro w hw t heq
  have hasleep := hrest.workers w hw
  rw [heq] at hasleep
  cases hasleep

/-- At rest every client is settled. -/
theorem State.Resting.settled (h : (machine cfg).Reachable s) (hrest : s.Resting) :
    s.metrics.completed + s.metrics.errored = s.clients.length := by
  have hr := reachable_routed h
  have ha := reachable_pool h
  have hidle : s.acceptor.idle = true := by
    rcases hrest.acceptor with hpc | hpc <;> rw [hpc] <;> rfl
  have hempty : s.pool.queue = [] := by
    by_contra hne
    obtain ⟨w, hw, hactive, -⟩ :=
      (ThreadPool.reachable_wakeful ((poolView cfg).reachable h)).served hne
    rw [hrest.workers w hw] at hactive
    cases hactive
  have hrunning : s.pool.runningIds.card = 0 := by
    rw [s.pool.card_runningIds]
    refine total_eq_zero _ (fun w hw => ?_)
    rw [hrest.workers w hw]
    rfl
  have hclients := hr.handover.length_of_inHand
  rw [Acceptor.inHand_of_idle hidle, List.length_nil] at hclients
  have hpushed := (pushed_perm_of_idle h (fun i hi => by
    rw [Acceptor.submitCall_of_idle hidle] at hi
    cases hi)).length_eq
  rw [List.length_range] at hpushed
  have hfinished : s.pool.finished.length = s.returned.length := by
    rw [hr.jobs.finished, List.length_map]
  have hlen := ha.length_pushed
  rw [hempty, discarded_nil h, List.length_nil, List.length_nil] at hlen
  have hsettled := hr.settled hrest.quiescent
  omega

/-! ## The work until rest -/

/-- The steps of the acceptor until it is back in `epoll_wait`. -/
def Acceptor.backlog : Acceptor → Nat
  | .polling => 0
  | a => a.effort

noncomputable def State.backlog (cfg : Config) (s : State) : Nat :=
  s.acceptor.backlog + s.pool.effort (fun j => j.rest.depth) requestCost +
    s.main.effort cfg.poolOptions.normalise.workerCount cfg.shutdownGraceMs s.now

/-- How many steps of the threads an event of the environment can cause: a round of the
acceptor's loop begins when `epoll_wait` returns. -/
def Event.load : Event → Nat
  | .epollWait _ => 2 * kMaxEvents + 3
  | e => e.price

theorem Event.load_of_serves (h : e.serves = true) : e.load = 0 := by
  cases e with
  | epollWait => cases h
  | clock | acceptor | accept4 | pool | handlerCall | handlerReturn | main =>
      exact price_of_serves h

theorem Event.price_le_load (e : Event) : e.price ≤ e.load := by
  cases e with
  | epollWait => exact Nat.zero_le _
  | clock | acceptor | accept4 | pool | handlerCall | handlerReturn | main => exact le_rfl

theorem Acceptor.backlog_le (a : Acceptor) : a.backlog ≤ a.effort := by
  cases a <;> simp [backlog, effort]

theorem Acceptor.backlog_eq {a : Acceptor} (h : a ≠ .polling) : a.backlog = a.effort := by
  cases a <;> first | rfl | exact absurd rfl h

theorem State.backlog_le (cfg : Config) (s : State) : s.backlog cfg ≤ s.effort cfg :=
  Nat.add_le_add_right (Nat.add_le_add_right s.acceptor.backlog_le _) _

theorem State.backlog_eq (cfg : Config) (h : s.acceptor ≠ .polling) :
    s.backlog cfg = s.effort cfg := by
  rw [backlog, effort, Acceptor.backlog_eq h]

theorem State.effort_of_polling (cfg : Config) (h : s.acceptor = .polling) :
    s.effort cfg = s.backlog cfg + (2 * kMaxEvents + 3) := by
  rw [backlog, effort, h, Acceptor.backlog, Acceptor.effort]
  omega

/-- The acceptor begins a round. -/
theorem backlog_loopHead (hpc : s.acceptor = .loopHead) (hstep : s.acceptorStep cfg = some s') :
    1 + s'.backlog cfg ≤ s.backlog cfg := by
  simp only [State.acceptorStep, hpc] at hstep
  cases hstep
  have hzero : (if s.stopAccepting then Acceptor.exited else .polling).backlog = 0 := by
    split <;> rfl
  have hone : s.acceptor.backlog = 1 := by
    rw [hpc]
    rfl
  simp only [State.backlog, hzero, hone]
  omega

/-- In `epoll_wait` the acceptor stays until that returns. -/
theorem polling_step (h : (machine cfg).step s e = some s') (hpc : s.acceptor = .polling) :
    (∃ r, e = .epollWait r) ∨ s'.acceptor = .polling := by
  have hcases : Step cfg s e s' := step_cases h
  cases hcases with
  | wander hof =>
      cases e with
      | epollWait r => exact .inl ⟨r, rfl⟩
      | acceptor => simp [machine, step, State.acceptorStep, hpc] at h
      | accept4 r => simp [machine, step, State.accept4, hpc] at h
      | clock | pool | handlerCall | handlerReturn | main => cases hof
  | accept hother | incAccepted hother | submit hother | submitted hother | refused hother
  | closeRefused hother | countRefused hother =>
      rw [hpc] at hother
      cases hother
  | clock | pool | handlerCall | handlerReturn | leave | join | grace | readRemaining | drop
  | dropped | stopPool | poolStopped | finale => exact .inr hpc

/-- A step of a thread lowers the work until rest, up to the load of its event. -/
theorem backlog_step (h : (machine cfg).Reachable s) (hstep : (machine cfg).step s e = some s') :
    e.productive.toNat + s'.backlog cfg ≤ s.backlog cfg + e.load := by
  by_cases hround : e = .acceptor ∧ s.acceptor = .loopHead
  · obtain ⟨rfl, hpc⟩ := hround
    exact backlog_loopHead hpc hstep
  have heffort := effort_step h (fun he hpc => absurd ⟨he, hpc⟩ hround) hstep
  have hle := s'.backlog_le cfg
  by_cases hpc : s.acceptor = .polling
  · have hpolling := State.effort_of_polling cfg hpc
    rcases polling_step hstep hpc with ⟨r, rfl⟩ | hpc'
    · simp only [Event.price] at heffort
      simp only [Event.load]
      omega
    · have hpolling' := State.effort_of_polling cfg hpc'
      have hload := e.price_le_load
      omega
  · have heq := State.backlog_eq cfg hpc
    have hload := e.price_le_load
    omega

/-! ## Up to a queued request -/

/-- The steps of the workers until client `k` is popped: each run that goes on ends, and
each request up to `k` is popped and run. -/
noncomputable def State.ahead (k : Nat) (s : State) : Nat :=
  s.pool.weight (fun j => j.rest.depth + 1) + 13 * (k + 1 - s.pool.popped.length)

/-- Client `k` has been pushed. -/
def Queued (cfg : Config) (k : Nat) (s : State) : Prop :=
  (machine cfg).Reachable s ∧ k < s.pool.pushed.length

theorem queued_of_mem (h : (machine cfg).Reachable s) {t : ThreadPool.Task Job}
    (ht : t ∈ s.pool.queue) : Queued cfg t.id s := by
  refine ⟨h, ?_⟩
  have hmem : t.id ∈ s.pool.pushed := by
    rw [(reachable_pool h).ledger.pushed_eq]
    exact List.mem_append_right _ (List.mem_append_left _ (List.mem_map_of_mem ht))
  have hin : s.pool.pushed = List.range s.pool.pushed.length := reachable_inOrder h
  rw [hin] at hmem
  exact List.mem_range.mp hmem

/-- What is queued has not been popped. -/
theorem not_mem_popped (h : (machine cfg).Reachable s) {t : ThreadPool.Task Job}
    (ht : t ∈ s.pool.queue) : t.id ∉ s.pool.popped := by
  have hnodup := (reachable_pool h).numbered.nodup
  rw [(reachable_pool h).ledger.pushed_eq] at hnodup
  intro hpopped
  exact (List.nodup_append.mp hnodup).2.2 _ hpopped _
    (List.mem_append_left _ (List.mem_map_of_mem ht)) rfl

/-- The clients that have been popped are the first ones. -/
theorem mem_popped_iff (h : (machine cfg).Reachable s) (k : Nat) :
    k ∈ s.pool.popped ↔ k < s.pool.popped.length := by
  have hin : s.pool.pushed = List.range s.pool.pushed.length := reachable_inOrder h
  have hpushed := (reachable_pool h).ledger.pushed_eq
  have htake : s.pool.popped = (List.range s.pool.pushed.length).take s.pool.popped.length := by
    rw [← hin, hpushed, List.take_left]
  have hle : s.pool.popped.length ≤ s.pool.pushed.length := by
    rw [hpushed, List.length_append]
    exact Nat.le_add_right _ _
  rw [List.take_range, Nat.min_eq_left hle] at htake
  conv_lhs => rw [htake]
  exact List.mem_range

/-- Nothing is taken back from what was pushed or popped. -/
theorem pushed_step (h : (machine cfg).step s e = some s') :
    s.pool.pushed.length ≤ s'.pool.pushed.length ∧
      s.pool.popped.length ≤ s'.pool.popped.length := by
  have hcases : Step cfg s e s' := step_cases h
  cases hcases with
  | pool hquiet hp =>
      cases ThreadPool.step_cases hp with
      | submit | work | finish | stopAgain | stopDrain | stopNoDrain => cases hquiet
      | push | pop => exact ⟨by simp, by simp⟩
      | refuse | sleepSubmitter | spuriousSubmitter | sleepWorker | exit | spuriousWorker
      | notifyNotEmpty | notifyNotFull | join => exact ⟨le_rfl, le_rfl⟩
  | stopPool =>
      show _ ≤ (s.pool.stopCall .drain).pushed.length ∧ _ ≤ (s.pool.stopCall .drain).popped.length
      unfold ThreadPool.State.stopCall
      split <;> exact ⟨le_rfl, le_rfl⟩
  | clock | wander | accept | incAccepted | submit | submitted | refused | closeRefused
  | countRefused | handlerCall | handlerReturn | leave | join | grace | readRemaining | drop
  | dropped | poolStopped | finale => exact ⟨le_rfl, le_rfl⟩

theorem Queued.step {k : Nat} (h : Queued cfg k s) (hstep : (machine cfg).step s e = some s') :
    Queued cfg k s' :=
  ⟨h.1.step hstep, h.2.trans_le (pushed_step hstep).1⟩

/-- A client that has been pushed and not popped is in the queue. -/
theorem Queued.queue_ne_nil {k : Nat} (h : Queued cfg k s) (hwait : s.pool.popped.length ≤ k) :
    s.pool.queue ≠ [] := by
  intro hempty
  have hpushed := (reachable_pool h.1).ledger.pushed_eq
  rw [discarded_nil h.1, hempty, List.map_nil, List.append_nil, List.append_nil] at hpushed
  have hlt := h.2
  rw [hpushed] at hlt
  omega

/-- While client `k` waits, every step of a worker brings its turn nearer, and no other step
puts it off. -/
theorem ahead_step {k : Nat} (h : Queued cfg k s) (hwait : s'.pool.popped.length ≤ k)
    (hstep : (machine cfg).step s e = some s') :
    e.ofWorker.toNat + s'.ahead k ≤ s.ahead k := by
  have hpopped := (pushed_step hstep).2
  have hne := h.queue_ne_nil (hpopped.trans hwait)
  have hjobs := (reachable_routed h.1).jobs
  have hcases : Step cfg s e s' := step_cases hstep
  cases hcases with
  | @pool e p hquiet hp =>
      have hcost : ∀ t ∈ s.pool.queue, t.body.rest.depth + 1 + 1 ≤ 13 := by
        intro t ht
        have hdepth := Prog.depth_le (handleOneSet_within cfg.handler)
        rw [(hjobs.waiting.queue t ht).2]
        exact Nat.add_le_add_right hdepth 2
      have hpays := ThreadPool.weight_pop (f := fun j : Job => j.rest.depth + 1)
        (ThreadPool.step_cases hp) hquiet hne hcost
      have hwait : p.popped.length ≤ k := hwait
      have hpopped : s.pool.popped.length ≤ p.popped.length := hpopped
      simp only [State.ahead, Event.ofWorker]
      omega
  | @handlerCall w t o k r hw hrest =>
      obtain ⟨n, hwithin⟩ := (reachable_brief h.1).of_getElem? hw
      rw [hrest] at hwithin
      have hfewer := Prog.depth_lt hwithin r
      have hset := total_set (ThreadPool.Worker.weight (fun j : Job => j.rest.depth + 1))
        (.running { t with body := { t.body with rest := k r, tally := t.body.tally.count o } }) hw
      simp only [ThreadPool.Worker.weight, hrest] at hset
      simp only [State.ahead, ThreadPool.State.weight, Event.ofWorker, Bool.toNat_true]
      omega
  | @handlerReturn w t hw hrest =>
      have hset := total_set (ThreadPool.Worker.weight (fun j : Job => j.rest.depth + 1)) .ready hw
      simp only [ThreadPool.Worker.weight] at hset
      simp only [State.ahead, ThreadPool.State.weight, Event.ofWorker, Bool.toNat_true]
      omega
  | stopPool =>
      simp only [State.ahead, ThreadPool.State.weight, Event.ofWorker, Bool.toNat_false,
        ThreadPool.stopCall_workers]
      have hsame : (s.pool.stopCall .drain).popped = s.pool.popped := by
        unfold ThreadPool.State.stopCall
        split <;> rfl
      rw [hsame]
      omega
  | wander hof =>
      have hother : e.ofWorker = false := by
        cases e <;> first | rfl | cases hof
      rw [hother]
      exact (Nat.zero_add _).le
  | clock | accept | incAccepted | submit | submitted | refused | closeRefused | countRefused
  | leave | join | grace | readRemaining | drop | dropped | poolStopped | finale =>
      exact (Nat.zero_add _).le

/-- And some worker can take a step. -/
theorem Queued.canTake {k : Nat} (h : Queued cfg k s) (hwait : s.pool.popped.length ≤ k) :
    s.CanTake cfg Event.ofWorker := by
  obtain ⟨worker, hmem, hactive⟩ :=
    (ThreadPool.reachable_wakeful ((poolView cfg).reachable h.1)).served (h.queue_ne_nil hwait)
  obtain ⟨w, hw⟩ := List.mem_iff_getElem?.mp hmem
  exact canTake_of_worker hw hactive

end InferenceRouter.Router
