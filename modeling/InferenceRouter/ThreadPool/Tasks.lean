import InferenceRouter.ThreadPool.Accounting

/-!
# The bodies of the tasks

Whoever uses the pool decides four things: when `submit` and `stop` are called,
what a running task does, and when it ends.  Every other event is *quiet*: it
moves tasks from the submitters to the queue and from the queue to the workers,
and looks at no body.  So what holds of a task when it is submitted holds of it
when it is popped.

* `Waiting P` says that `P` holds of every task that no worker has popped.
* `Running Q` says that `Q` holds of every task that a worker runs.
* `State.weight f` sums a weight of bodies over the running tasks.

A quiet step keeps each of them, given that a waiting task already satisfies `Q`
and weighs nothing.
-/

namespace InferenceRouter.ThreadPool

open Interleaving

variable {ρ : Type} {o : Options} {s s' : State ρ} {e : Event ρ}

/-- The events that the user of the pool does not cause. -/
def Event.quiet : Event ρ → Bool
  | .submit _ | .work _ _ | .finish _ _ | .stop _ => false
  | _ => true

/-- A quiet step sets no flag and finishes nothing. -/
theorem quiet_step (h : Step o s e s') (hquiet : e.quiet = true) :
    s'.stop = s.stop ∧ s'.stopper.mode = s.stopper.mode ∧ s'.finished = s.finished ∧
      s'.submitters.length = s.submitters.length := by
  cases h with
  | submit | work | finish | stopAgain | stopDrain | stopNoDrain => cases hquiet
  | refuse | push | sleepSubmitter | spuriousSubmitter => simp [State.refuse]
  | pop _ _ _ hsub => exact ⟨rfl, rfl, rfl, hsub.length_eq⟩
  | notifyNotEmpty hmode | join hmode => simp [hmode, Stopper.mode]
  | notifyNotFull hmode => simp [hmode, Stopper.mode]
  | sleepWorker | exit | spuriousWorker => exact ⟨rfl, rfl, rfl, rfl⟩

/-- A stopping call that has returned stays so. -/
theorem quiet_returned (h : Step o s e s') (hquiet : e.quiet = true) {mode : StopMode}
    (hret : s.stopper = .returned mode) : s'.stopper = .returned mode := by
  cases h with
  | submit | work | finish | stopAgain | stopDrain | stopNoDrain => cases hquiet
  | notifyNotEmpty hmode => simp [hret] at hmode
  | notifyNotFull hmode => simp [hret] at hmode
  | join hmode => simp [hret] at hmode
  | refuse | push | sleepSubmitter | spuriousSubmitter | sleepWorker | exit | pop
  | spuriousWorker => exact hret

/-- A quiet step leaves a `submit` call as it is, or moves one that has not
returned; it makes one return `false` only in a stopped or a rejecting pool. -/
theorem submitter_step (h : Step o s e s') (hquiet : e.quiet = true) {i : Nat} {q : Submitter ρ}
    (hq : s'.submitters[i]? = some q) :
    ∃ p, s.submitters[i]? = some p ∧ (q = p ∨ (∃ t, p.task = some t) ∧
      (q = .returned false → s.stop = true ∨ o.rejectOnFull = true)) := by
  have hset : ∀ {j : Nat} {p r : Submitter ρ} {t : Task ρ}, s.submitters[j]? = some p →
      p.task = some t → (r = .returned false → s.stop = true ∨ o.rejectOnFull = true) →
      (s.submitters.set j r)[i]? = some q →
      ∃ p, s.submitters[i]? = some p ∧ (q = p ∨ (∃ t, p.task = some t) ∧
        (q = .returned false → s.stop = true ∨ o.rejectOnFull = true)) := by
    intro j p r t hj hp hr hi
    rw [getElem?_set_eq r hj] at hi
    split at hi
    next heq =>
      subst heq
      cases hi
      exact ⟨p, hj, .inr ⟨⟨t, hp⟩, hr⟩⟩
    next => exact ⟨q, hi, .inl rfl⟩
  have hwake : ∀ {p : Submitter ρ}, s.submitters[i]? = some p → notFull.asleep p = true →
      q = notFull.wake p → ∃ p, s.submitters[i]? = some p ∧ (q = p ∨ (∃ t, p.task = some t) ∧
        (q = .returned false → s.stop = true ∨ o.rejectOnFull = true)) := by
    intro p hp hasleep hwoken
    obtain ⟨t, rfl, hnotified⟩ := notFull_wake hasleep
    refine ⟨_, hp, .inr ⟨⟨t, rfl⟩, ?_⟩⟩
    intro hfalse
    rw [hwoken, hnotified] at hfalse
    cases hfalse
  cases h with
  | submit | work | finish | stopAgain | stopDrain | stopNoDrain => cases hquiet
  | refuse hj hp hreason =>
      exact hset hj (Submitter.task_of_atLock hp) (fun _ => hreason.imp id And.right) hq
  | push hj hp => exact hset hj (Submitter.task_of_atLock hp) (fun hr => by cases hr) hq
  | sleepSubmitter hj hp => exact hset hj (Submitter.task_of_atLock hp) (fun hr => by cases hr) hq
  | spuriousSubmitter hj => exact hset hj rfl (fun hr => by cases hr) hq
  | pop _ _ _ hsub =>
      rcases hsub.getElem?_inv hq with hsame | ⟨p, hp, hasleep, hwoken⟩
      · exact ⟨q, hsame, .inl rfl⟩
      · exact hwake hp hasleep hwoken
  | notifyNotFull =>
      rw [CondVar.getElem?_notifyAll, Option.map_eq_some_iff] at hq
      obtain ⟨p, hp, hwoken⟩ := hq
      split at hwoken
      next hasleep => exact hwake hp hasleep hwoken.symm
      next => exact ⟨p, hp, .inl hwoken.symm⟩
  | sleepWorker | exit | spuriousWorker | notifyNotEmpty | join => exact ⟨q, hq, .inl rfl⟩

/-! ## Tasks not yet popped -/

/-- `P` holds of every task that is queued or in the hands of a submitter. -/
structure Waiting (P : Task ρ → Prop) (s : State ρ) : Prop where
  submitters : ∀ p ∈ s.submitters, ∀ t, p.task = some t → P t
  queue : ∀ t ∈ s.queue, P t

variable {P Q : Task ρ → Prop}

theorem Waiting.mono (h : Waiting P s) (hPQ : ∀ t, P t → Q t) : Waiting Q s :=
  ⟨fun p hp t ht => hPQ t (h.submitters p hp t ht), fun t ht => hPQ t (h.queue t ht)⟩

theorem Waiting.submit (h : Waiting P s) {body : ρ} (hbody : P ⟨s.submitters.length, body⟩) :
    Waiting P { s with submitters := s.submitters ++ [.entered ⟨s.submitters.length, body⟩] } := by
  refine ⟨?_, h.queue⟩
  intro p hp t ht
  rcases List.mem_append.mp hp with hmem | hnew
  · exact h.submitters p hmem t ht
  · rw [List.mem_singleton.mp hnew] at ht
    cases ht
    exact hbody

/-- Tasks enter only through `submit`. -/
theorem waiting_step (h : Step o s e s') (hnew : ∀ body, e ≠ .submit body) (hw : Waiting P s) :
    Waiting P s' := by
  have hset : ∀ {i : Nat} {p q : Submitter ρ}, s.submitters[i]? = some p →
      (∀ t, q.task = some t → p.task = some t) →
      ∀ r ∈ s.submitters.set i q, ∀ t, r.task = some t → P t := by
    intro i p q hi hq
    apply forall_mem_set hw.submitters
    intro t ht
    exact hw.submitters p (List.mem_of_getElem? hi) t (hq t ht)
  cases h with
  | submit body => exact absurd rfl (hnew body)
  | refuse hi => exact ⟨hset hi (fun t ht => by cases ht), hw.queue⟩
  | push hi hp =>
      refine ⟨hset hi (fun t ht => by cases ht), ?_⟩
      intro t ht
      rcases List.mem_append.mp ht with hmem | hlast
      · exact hw.queue t hmem
      · rw [List.mem_singleton.mp hlast]
        exact hw.submitters _ (List.mem_of_getElem? hi) _ (Submitter.task_of_atLock hp)
  | sleepSubmitter hi hp =>
      refine ⟨hset hi ?_, hw.queue⟩
      intro t ht
      rw [Submitter.task_of_atLock hp]
      exact ht
  | spuriousSubmitter hi => exact ⟨hset hi (fun t ht => ht), hw.queue⟩
  | pop _ _ hqueue hsub =>
      have hall : ∀ t ∈ _, P t := hqueue ▸ hw.queue
      refine ⟨?_, fun t ht => hall t (List.mem_cons_of_mem _ ht)⟩
      refine hsub.forall_mem hw.submitters (fun p hasleep hp t ht => ?_)
      rw [notFull_task_wake hasleep] at ht
      exact hp t ht
  | notifyNotFull =>
      refine ⟨?_, hw.queue⟩
      refine CondVar.forall_mem_notifyAll hw.submitters (fun p hasleep hp t ht => ?_)
      rw [notFull_task_wake hasleep] at ht
      exact hp t ht
  | stopNoDrain => exact ⟨hw.submitters, fun t ht => by cases ht⟩
  | sleepWorker | exit | spuriousWorker | work | finish | stopAgain | stopDrain | notifyNotEmpty
  | join => exact ⟨hw.submitters, hw.queue⟩

/-! ## Running tasks -/

/-- `Q` holds of every task that a worker runs. -/
def Running (Q : Task ρ → Prop) (s : State ρ) : Prop :=
  ∀ w ∈ s.workers, ∀ t, w = .running t → Q t

theorem Running.of_getElem? (h : Running Q s) {w : Nat} {t : Task ρ}
    (hw : s.workers[w]? = some (.running t)) : Q t :=
  h _ (List.mem_of_getElem? hw) t rfl

theorem notEmpty_wake {w : Worker ρ} (h : notEmpty.asleep w = true) :
    w = .asleep ∧ notEmpty.wake w = .notified := by
  cases w with
  | asleep => exact ⟨rfl, rfl⟩
  | ready => cases h
  | notified => cases h
  | spurious => cases h
  | running t => cases h
  | exited => cases h

/-- A quiet step starts a task only by popping it. -/
theorem running_step (h : Step o s e s') (hquiet : e.quiet = true) (hw : Waiting Q s)
    (hr : Running Q s) : Running Q s' := by
  have hwake : ∀ w : Worker ρ, notEmpty.asleep w = true → (∀ t, w = .running t → Q t) →
      ∀ t, notEmpty.wake w = .running t → Q t := by
    intro w hasleep _ t ht
    rw [(notEmpty_wake hasleep).2] at ht
    cases ht
  cases h with
  | submit | work | finish | stopAgain | stopDrain | stopNoDrain => cases hquiet
  | push _ _ _ _ hworkers => exact hworkers.forall_mem hr hwake
  | pop _ _ hqueue =>
      refine forall_mem_set hr (fun t ht => ?_)
      cases ht
      exact hw.queue _ (by rw [hqueue]; exact List.mem_cons_self)
  | sleepWorker | exit | spuriousWorker => exact forall_mem_set hr (fun t ht => by cases ht)
  | notifyNotEmpty => exact CondVar.forall_mem_notifyAll hr hwake
  | refuse | sleepSubmitter | spuriousSubmitter | notifyNotFull | join => exact hr

/-- A quiet step leaves a worker as it is, or moves one that runs nothing. -/
theorem worker_step (h : Step o s e s') (hquiet : e.quiet = true) (w : Nat) :
    s'.workers[w]? = s.workers[w]? ∨ (∀ t, s.workers[w]? ≠ some (.running t)) ∧
      ∀ t, s'.workers[w]? = some (.running t) → t ∈ s.queue := by
  have hset : ∀ {v : Nat} {x : Worker ρ} (y : Worker ρ), s.workers[v]? = some x →
      (∀ t, x ≠ .running t) → (∀ t, y = .running t → t ∈ s.queue) →
      (s.workers.set v y)[w]? = s.workers[w]? ∨ (∀ t, s.workers[w]? ≠ some (.running t)) ∧
        ∀ t, (s.workers.set v y)[w]? = some (.running t) → t ∈ s.queue := by
    intro v x y hv hx hy
    rw [getElem?_set_eq y hv]
    by_cases hwv : w = v
    · subst hwv
      rw [if_pos rfl, hv]
      exact .inr ⟨fun t ht => hx t (Option.some.inj ht), fun t ht => hy t (Option.some.inj ht)⟩
    · exact .inl (if_neg hwv)
  have hlock : ∀ {x : Worker ρ}, x.atLock = true → ∀ t, x ≠ .running t := by
    rintro x hx t rfl
    cases hx
  cases h with
  | submit | work | finish | stopAgain | stopDrain | stopNoDrain => cases hquiet
  | push _ _ _ _ hworkers =>
      cases hworkers with
      | nobody => exact .inl rfl
      | one hv hasleep =>
          obtain ⟨rfl, hwake⟩ := notEmpty_wake hasleep
          refine hset _ hv (fun t ht => by cases ht) (fun t ht => ?_)
          rw [hwake] at ht
          cases ht
  | pop hv hatLock hqueue =>
      refine hset _ hv (hlock hatLock) (fun t ht => ?_)
      cases ht
      rw [hqueue]
      exact List.mem_cons_self
  | sleepWorker hv hatLock | exit hv hatLock =>
      exact hset _ hv (hlock hatLock) (fun t ht => by cases ht)
  | spuriousWorker hv => exact hset _ hv (fun t ht => by cases ht) (fun t ht => by cases ht)
  | notifyNotEmpty =>
      show (notEmpty.notifyAll s.workers)[w]? = _ ∨ _ ∧
        ∀ t, (notEmpty.notifyAll s.workers)[w]? = some (.running t) → t ∈ s.queue
      rw [CondVar.getElem?_notifyAll]
      cases hw : s.workers[w]? with
      | none => exact .inl rfl
      | some x =>
          by_cases hasleep : notEmpty.asleep x = true
          · obtain ⟨rfl, hwake⟩ := notEmpty_wake hasleep
            refine .inr ⟨fun t ht => (by cases ht), fun t ht => ?_⟩
            rw [Option.map_some, if_pos hasleep, hwake] at ht
            cases ht
          · exact .inl (by rw [Option.map_some, if_neg hasleep])
  | refuse | sleepSubmitter | spuriousSubmitter | notifyNotFull | join => exact .inl rfl

/-! ## Weights of running tasks -/

section Weight

variable {M : Type} [AddCancelCommMonoid M] {f : ρ → M}

/-- The weight of what a worker runs. -/
def Worker.weight (f : ρ → M) : Worker ρ → M
  | .running t => f t.body
  | _ => 0

/-- The weight of the running tasks. -/
def State.weight (f : ρ → M) (s : State ρ) : M := total (Worker.weight f) s.workers

theorem Worker.weight_of_atLock {w : Worker ρ} (h : w.atLock = true) : w.weight f = 0 := by
  cases w <;> simp_all [atLock, weight]

theorem notEmpty_weight_wake {w : Worker ρ} (h : notEmpty.asleep w = true) :
    (notEmpty.wake w).weight f = w.weight f := by
  obtain ⟨rfl, hwake⟩ := notEmpty_wake h
  rw [hwake]
  rfl

/-- A quiet step changes no weight when waiting tasks weigh nothing. -/
theorem weight_step (h : Step o s e s') (hquiet : e.quiet = true)
    (hw : Waiting (fun t => f t.body = 0) s) : s'.weight f = s.weight f := by
  cases h with
  | submit | work | finish | stopAgain | stopDrain | stopNoDrain => cases hquiet
  | push _ _ _ _ hworkers => exact hworkers.total_eq (fun _ hasleep => notEmpty_weight_wake hasleep)
  | @pop w worker t _ _ _ hworker hlock hqueue =>
      apply total_set_of_eq _ hworker
      have hzero : f t.body = 0 := hw.queue t (by rw [hqueue]; exact List.mem_cons_self)
      rw [Worker.weight_of_atLock hlock]
      exact hzero.symm
  | sleepWorker hworker hlock => exact total_set_of_eq _ hworker (Worker.weight_of_atLock hlock)
  | exit hworker hlock => exact total_set_of_eq _ hworker (Worker.weight_of_atLock hlock)
  | spuriousWorker hworker => exact total_set_of_eq _ hworker rfl
  | notifyNotEmpty => exact CondVar.total_notifyAll (fun _ hasleep => notEmpty_weight_wake hasleep)
  | refuse | sleepSubmitter | spuriousSubmitter | notifyNotFull | join => rfl

end Weight

end InferenceRouter.ThreadPool
