import InferenceRouter.ThreadPool.Accounting

/-!
# The thread pool loses no wakeup

Both variables are signalled with `notify_one` by a thread that has just changed
the queue, so a lost wakeup would leave a task or a free slot beside a sleeper.
Three invariants rule it out.

* `Served`: a queued task has a worker that will come to look at it.
* `HandedOn`: while somebody sleeps on `not_full_`, every free slot has a
  notified submitter that has not looked at the queue yet.  A barging submitter
  takes a slot and no notification with it, and a submitter goes to sleep only
  in front of a full queue.
* `Roused`: after the two `notify_all` calls of the stopping thread nobody
  sleeps, because both predicates hold once `stop_` is set.
-/

namespace InferenceRouter.ThreadPool

open Interleaving

variable {ρ : Type} {o : Options} {s s' : State ρ} {e : Event ρ}

/-! ## Queued tasks -/

/-- A worker that is neither asleep un-notified nor gone. -/
def Worker.Attentive (w : Worker ρ) : Prop := notEmpty.asleep w = false ∧ w.hasExited = false

/-- A queued task has an attentive worker. -/
def Served (s : State ρ) : Prop := s.queue ≠ [] → ∃ w ∈ s.workers, w.Attentive

theorem Worker.Attentive.running (t : Task ρ) : (Worker.running t).Attentive := ⟨rfl, rfl⟩

/-- A push finds a worker that is awake already, or wakes one. -/
theorem attentive_of_push {l l' : List (Worker ρ)} (hn : notEmpty.NotifiesOne l l')
    (hpos : 0 < l.length) (hexited : ¬ ∃ w ∈ l, w.hasExited = true) :
    ∃ w ∈ l', w.Attentive := by
  have hlive : ∀ w ∈ l, w.hasExited = false := by
    intro w hw
    by_contra hne
    exact hexited ⟨w, hw, by simpa using hne⟩
  cases hn with
  | nobody hawake =>
      obtain ⟨w, hw⟩ := List.exists_mem_of_length_pos hpos
      exact ⟨w, hw, hawake w hw, hlive w hw⟩
  | @one j w hj hasleep =>
      refine ⟨notEmpty.wake w, List.mem_set (lt_of_getElem? hj) _, ?_⟩
      cases w with
      | asleep => exact ⟨rfl, rfl⟩
      | ready => cases hasleep
      | notified => cases hasleep
      | spurious => cases hasleep
      | running t => cases hasleep
      | exited => cases hasleep

theorem served_step (h : Step o s e s') (hs : Stopping s) (hpos : 0 < s.workers.length)
    (hv : Served s) : Served s' := by
  intro hne
  cases h with
  | push _ _ hstop _ hworkers =>
      apply attentive_of_push hworkers hpos
      intro hex
      have hset := (hs.exited hex).1
      rw [hstop] at hset
      cases hset
  | sleepWorker _ _ hempty => exact absurd hempty hne
  | exit _ _ hempty => exact absurd hempty hne
  | pop hw _ _ _ => exact ⟨_, List.mem_set (lt_of_getElem? hw) _, .running _⟩
  | spuriousWorker hw => exact ⟨_, List.mem_set (lt_of_getElem? hw) _, rfl, rfl⟩
  | work body hw => exact ⟨_, List.mem_set (lt_of_getElem? hw) _, .running _⟩
  | finish hw => exact ⟨_, List.mem_set (lt_of_getElem? hw) _, rfl, rfl⟩
  | stopNoDrain => exact absurd rfl hne
  | notifyNotEmpty =>
      obtain ⟨w, hw, hattentive⟩ := hv hne
      refine ⟨w, ?_, hattentive⟩
      apply List.mem_map.mpr
      exact ⟨w, hw, by simp [hattentive.1]⟩
  | submit | refuse | sleepSubmitter | spuriousSubmitter | stopAgain | stopDrain
  | notifyNotFull | join => exact hv hne

/-! ## Free slots -/

/-- One for a submitter that has been notified and has not looked again. -/
def Submitter.notifiedCount : Submitter ρ → Nat
  | .notified _ => 1
  | _ => 0

/-- The submitters that have been notified and have not looked again. -/
def State.notifiedCount (s : State ρ) : Nat := total Submitter.notifiedCount s.submitters

/-- Some submitter sleeps un-notified. -/
def State.HasSleeper (s : State ρ) : Prop := ∃ p ∈ s.submitters, notFull.asleep p = true

/-- While somebody sleeps on `not_full_`, the free slots are at most as many as
the notified submitters. -/
def HandedOn (o : Options) (s : State ρ) : Prop :=
  s.stop = false → s.HasSleeper → o.maxQueueDepth ≤ s.queue.length + s.notifiedCount

/-- A step that puts no submitter to sleep found the sleepers it leaves. -/
theorem hasSleeper_of_set {i : Nat} {q : Submitter ρ} (hq : notFull.asleep q = false)
    (h : ∃ r ∈ s.submitters.set i q, notFull.asleep r = true) : s.HasSleeper := by
  obtain ⟨r, hr, hasleep⟩ := h
  rcases List.mem_or_eq_of_mem_set hr with hmem | rfl
  · exact ⟨r, hmem, hasleep⟩
  · rw [hq] at hasleep
    cases hasleep

theorem Submitter.notifiedCount_le_one (p : Submitter ρ) : p.notifiedCount ≤ 1 := by
  cases p <;> simp [notifiedCount]

theorem handedOn_step (h : Step o s e s') (hs : Stopping s) (hh : HandedOn o s) :
    HandedOn o s' := by
  intro hopen hsleeper
  cases h with
  | submit body =>
      have hold : s.HasSleeper := by
        obtain ⟨p, hp, hasleep⟩ := hsleeper
        rcases List.mem_append.mp hp with hmem | hnew
        · exact ⟨p, hmem, hasleep⟩
        · rw [List.mem_singleton] at hnew
          subst hnew
          cases hasleep
      have hle := hh hopen hold
      simpa [State.notifiedCount, Submitter.notifiedCount] using hle
  | refuse hi hp hwhy =>
      -- with `stop_` clear the call is an entered one of the rejecting mode
      rcases hwhy with hstop | ⟨rfl, -⟩
      · change s.stop = false at hopen
        rw [hopen] at hstop
        cases hstop
      · have hle := hh hopen (hasSleeper_of_set rfl hsleeper)
        have hsame := total_set_of_eq Submitter.notifiedCount (b := .returned false) hi rfl
        change _ ≤ s.queue.length + total _ (s.submitters.set _ _)
        rw [hsame]
        exact hle
  | @push i p t _ workers hi hp =>
      have hle := hh hopen (hasSleeper_of_set rfl hsleeper)
      have hset := total_set Submitter.notifiedCount (.returned true) hi
      have hone := p.notifiedCount_le_one
      change _ ≤ (s.queue ++ [t]).length + total _ (s.submitters.set i _)
      rw [List.length_append, List.length_singleton]
      simp only [State.notifiedCount] at hle
      simp only [Submitter.notifiedCount] at hset hone
      omega
  | sleepSubmitter _ _ _ hfull =>
      change _ ≤ s.queue.length + _
      omega
  | @spuriousSubmitter i t hi =>
      have hle := hh hopen (hasSleeper_of_set rfl hsleeper)
      have hsame := total_set_of_eq Submitter.notifiedCount (b := .spurious t) hi rfl
      change _ ≤ s.queue.length + total _ (s.submitters.set _ _)
      rw [hsame]
      exact hle
  | @pop w worker t rest _ submitters hw hlock hqueue hsub =>
      cases hsub with
      | nobody hawake =>
          obtain ⟨p, hp, hasleep⟩ := hsleeper
          rw [hawake p hp] at hasleep
          cases hasleep
      | @one j p hj hasleep =>
          have hle := hh hopen ⟨p, List.mem_of_getElem? hj, hasleep⟩
          obtain ⟨u, rfl, hwake⟩ := notFull_wake hasleep
          have hset := total_set Submitter.notifiedCount (.notified u) hj
          simp only [State.notifiedCount, hqueue, List.length_cons] at hle
          simp only [Submitter.notifiedCount] at hset
          change _ ≤ rest.length + total _ (s.submitters.set j _)
          rw [hwake]
          omega
  | stopAgain hstop =>
      rw [hopen] at hstop
      cases hstop
  | stopDrain | stopNoDrain => cases hopen
  | notifyNotFull hmode =>
      have hidle := hs.idle_iff.mp hopen
      rw [hmode] at hidle
      cases hidle
  | sleepWorker | exit | spuriousWorker | work | finish | notifyNotEmpty | join =>
      exact hh hopen hsleeper

/-! ## Stopping -/

/-- `not_empty_.notify_all()` has been executed. -/
def Stopper.workersNotified : Stopper → Bool
  | .notifiedWorkers _ | .joining _ | .returned _ => true
  | .idle | .set _ => false

/-- Both `notify_all` calls have been executed. -/
def Stopper.allNotified : Stopper → Bool
  | .joining _ | .returned _ => true
  | .idle | .set _ | .notifiedWorkers _ => false

theorem Stopper.mode_of_workersNotified {m : Stopper} (h : m.workersNotified = true) :
    m.mode ≠ none := by
  cases m <;> simp_all [workersNotified, mode]

theorem Stopper.workersNotified_of_allNotified {m : Stopper} (h : m.allNotified = true) :
    m.workersNotified = true := by
  cases m <;> simp_all [allNotified, workersNotified]

/-- Nobody sleeps on a variable whose `notify_all` has been executed. -/
structure Roused (s : State ρ) : Prop where
  workers : s.stopper.workersNotified = true → ∀ w ∈ s.workers, notEmpty.asleep w = false
  submitters : s.stopper.allNotified = true → ∀ p ∈ s.submitters, notFull.asleep p = false

theorem notEmpty_awake (w : Worker ρ) : notEmpty.asleep (notEmpty.wake w) = false := by
  cases w <;> rfl

theorem notFull_awake (p : Submitter ρ) : notFull.asleep (notFull.wake p) = false := by
  cases p <;> rfl

/-- A thread goes to sleep only before `stop_` is set. -/
theorem Stopping.not_notified (hs : Stopping s) (hstop : s.stop = false) :
    s.stopper.workersNotified = false := by
  by_contra hne
  exact Stopper.mode_of_workersNotified (by simpa using hne) (hs.idle_iff.mp hstop)

theorem Stopping.not_allNotified (hs : Stopping s) (hstop : s.stop = false) :
    s.stopper.allNotified = false := by
  by_contra hne
  have hall := Stopper.workersNotified_of_allNotified (by simpa using hne)
  rw [hs.not_notified hstop] at hall
  cases hall

theorem roused_step (h : Step o s e s') (hs : Stopping s) (hr : Roused s) : Roused s' := by
  cases h with
  | submit body =>
      refine ⟨hr.workers, ?_⟩
      intro hall p hp
      rcases List.mem_append.mp hp with hmem | hnew
      · exact hr.submitters hall p hmem
      · rw [List.mem_singleton] at hnew
        subst hnew
        rfl
  | refuse => exact ⟨hr.workers, fun hall => forall_mem_set (hr.submitters hall) rfl⟩
  | push _ _ hstop =>
      constructor
      · intro hnot
        rw [hs.not_notified hstop] at hnot
        cases hnot
      · intro hall
        rw [hs.not_allNotified hstop] at hall
        cases hall
  | sleepSubmitter _ _ hstop =>
      refine ⟨hr.workers, ?_⟩
      intro hall
      rw [hs.not_allNotified hstop] at hall
      cases hall
  | spuriousSubmitter =>
      exact ⟨hr.workers, fun hall => forall_mem_set (hr.submitters hall) rfl⟩
  | sleepWorker _ _ _ hstop =>
      refine ⟨?_, hr.submitters⟩
      intro hnot
      rw [hs.not_notified hstop] at hnot
      cases hnot
  | pop _ _ _ hsub =>
      refine ⟨fun hnot => forall_mem_set (hr.workers hnot) rfl, ?_⟩
      intro hall
      exact hsub.forall_mem (hr.submitters hall) (fun p _ _ => notFull_awake p)
  | exit | spuriousWorker | work | finish =>
      exact ⟨fun hnot => forall_mem_set (hr.workers hnot) rfl, hr.submitters⟩
  | stopAgain => exact hr
  | stopDrain | stopNoDrain =>
      constructor
      · intro hnot
        cases hnot
      · intro hall
        cases hall
  | notifyNotEmpty =>
      refine ⟨fun _ => CondVar.notifyAll_awake notEmpty_awake _, ?_⟩
      intro hall
      cases hall
  | notifyNotFull hmode =>
      refine ⟨?_, fun _ => CondVar.notifyAll_awake notFull_awake _⟩
      intro _
      exact hr.workers (by rw [hmode]; rfl)
  | join hmode =>
      constructor
      · intro _
        exact hr.workers (by rw [hmode]; rfl)
      · intro _
        exact hr.submitters (by rw [hmode]; rfl)

/-! ## Whole runs -/

/-- The wakeup invariants together. -/
structure Wakeful (o : Options) (s : State ρ) : Prop where
  served : Served s
  handedOn : HandedOn o s
  roused : Roused s

theorem reachable_wakeful {o : Options} {s : State ρ} (h : (machine o).Reachable s) :
    Wakeful o.normalise s := by
  refine h.invariant_with (P := Wakeful o.normalise)
    (Q := fun t => Stopping t ∧ 0 < t.workers.length) ?_ ⟨?_, ?_, ⟨?_, ?_⟩⟩ ?_
  · intro t ht
    refine ⟨(reachable_accounted ht).stopping, ?_⟩
    rw [reachable_workers ht]
    exact o.normalise_workerCount_pos
  · intro hne
    exact absurd rfl hne
  · intro _ hsleeper
    obtain ⟨p, hp, -⟩ := hsleeper
    cases hp
  · intro hnot
    cases hnot
  · intro hall
    cases hall
  · intro t e t' hq hw hstep
    have hcases := step_cases hstep
    exact ⟨served_step hcases hq.1 hq.2 hw.served, handedOn_step hcases hq.1 hw.handedOn,
      roused_step hcases hq.1 hw.roused⟩

/-- In every reachable state of the pool: a queued task has a worker that is
neither asleep un-notified nor gone; while `stop_` is clear and a submitter
sleeps un-notified, the free slots are at most as many as the submitters that
were notified and have not looked again; and once the stopping thread has made
both `notify_all` calls, nobody sleeps un-notified. -/
theorem never_stuck (o : Options) {s : State ρ} (h : (machine o).Reachable s) :
    (s.queue ≠ [] → ∃ w ∈ s.workers, notEmpty.asleep w = false ∧ w.hasExited = false) ∧
      (s.stop = false → (∃ p ∈ s.submitters, notFull.asleep p = true) →
        o.normalise.maxQueueDepth - s.queue.length ≤ s.notifiedCount) ∧
      (s.stopper.allNotified = true →
        (∀ w ∈ s.workers, notEmpty.asleep w = false) ∧
          ∀ p ∈ s.submitters, notFull.asleep p = false) := by
  have hw := reachable_wakeful h
  refine ⟨hw.served, ?_, ?_⟩
  · intro hopen hsleeper
    have hle := hw.handedOn hopen hsleeper
    omega
  · intro hall
    exact ⟨hw.roused.workers (Stopper.workersNotified_of_allNotified hall),
      hw.roused.submitters hall⟩

/-- One slot, three calls: the second and the third sleep in front of the full
queue, and the pop wakes one of them. -/
def fullQueue : List (Event Unit) :=
  [.submit (), .submit (), .submit (), .submitLock 0 none, .submitLock 1 none,
    .submitLock 2 none, .workerLock 0 (some 1)]

theorem never_stuck_fullQueue : ∃ s,
    (machine { workerCount := 1, maxQueueDepth := 1 }).run fullQueue = some s ∧
      s.queue = [] ∧ s.submitters[2]? = some (.asleep ⟨2, ()⟩) ∧ 1 - 0 ≤ s.notifiedCount := by
  refine ⟨_, rfl, rfl, rfl, ?_⟩
  have h := never_stuck { workerCount := 1, maxQueueDepth := 1 } ⟨fullQueue, rfl⟩
  exact h.2.1 rfl ⟨.asleep ⟨2, ()⟩, List.mem_of_getElem? (i := 2) rfl, rfl⟩

end InferenceRouter.ThreadPool
