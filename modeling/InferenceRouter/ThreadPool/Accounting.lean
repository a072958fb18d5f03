import InferenceRouter.ThreadPool.Model
import Mathlib.Algebra.Order.Group.Multiset

/-!
# The thread pool neither loses, duplicates nor reorders tasks

Three invariants carry the result, each proved by cases on `Step`.

* `Numbered` ties the recorded numbers to the `submit` calls: a call that has
  not returned still has its own task, and the numbers pushed are exactly those
  of the calls that returned `true`.
* `Ledger` splits the pushed numbers into those popped, those queued and those
  discarded, in this order, and the popped ones into running and finished.
* `Stopping` says what `stop_` and the stopping thread imply: no worker exits
  before `stop_` is set, nor with a task in the queue.

`accounts` assembles them into the statement about every reachable state.
-/

namespace InferenceRouter.ThreadPool

open Interleaving

variable {ρ : Type} {o : Options} {s s' : State ρ} {e : Event ρ}

/-! ## Numbers of calls -/

/-- The task a `submit` call still has in its hands. -/
def Submitter.task : Submitter ρ → Option (Task ρ)
  | .entered t | .asleep t | .notified t | .spurious t => some t
  | .returned _ => none

theorem Submitter.task_of_atLock {p : Submitter ρ} {t : Task ρ} (h : p.atLock = some t) :
    p.task = some t := by
  cases p <;> simp_all [atLock, task]

theorem Submitter.returned_ne_of_task {p : Submitter ρ} {t : Task ρ} {ok : Bool}
    (h : p.task = some t) : p ≠ .returned ok := by
  intro heq
  subst heq
  cases h

/-- A notification on `not_full_` wakes a call and ends none. -/
theorem notFull_wake {p : Submitter ρ} (h : notFull.asleep p = true) :
    ∃ t, p = .asleep t ∧ notFull.wake p = .notified t := by
  cases p with
  | asleep t => exact ⟨t, rfl, rfl⟩
  | entered t => cases h
  | notified t => cases h
  | spurious t => cases h
  | returned ok => cases h

theorem notFull_task_wake {p : Submitter ρ} (h : notFull.asleep p = true) :
    (notFull.wake p).task = p.task := by
  obtain ⟨t, rfl, hwake⟩ := notFull_wake h
  rw [hwake]
  rfl

/-- Each call has its own number, and the numbers pushed are those of the calls
that returned `true`. -/
structure Numbered (submitters : List (Submitter ρ)) (pushed : List Nat) : Prop where
  own : ∀ (i : Nat) (p : Submitter ρ) (t : Task ρ), submitters[i]? = some p → p.task = some t →
    t.id = i
  pushed_iff : ∀ i, i ∈ pushed ↔ submitters[i]? = some (.returned true)
  nodup : pushed.Nodup

theorem Numbered.submit {submitters : List (Submitter ρ)} {pushed : List Nat}
    (h : Numbered submitters pushed) (body : ρ) :
    Numbered (submitters ++ [.entered ⟨submitters.length, body⟩]) pushed := by
  refine ⟨?_, ?_, h.nodup⟩
  · intro i p t hi ht
    rcases getElem?_append_single hi with hold | ⟨rfl, rfl⟩
    · exact h.own i p t hold ht
    · cases ht
      rfl
  · intro i
    rw [h.pushed_iff]
    constructor
    · intro hi
      have hlt := lt_of_getElem? hi
      rw [List.getElem?_append_left hlt]
      exact hi
    · intro hi
      rcases getElem?_append_single hi with hold | ⟨-, hnew⟩
      · exact hold
      · cases hnew

/-- A step of a call that has its task replaces its entry by one that either
still has it or has returned `false`. -/
theorem Numbered.set {submitters : List (Submitter ρ)} {pushed : List Nat}
    (h : Numbered submitters pushed) {i : Nat} {p q : Submitter ρ} {t : Task ρ}
    (hi : submitters[i]? = some p) (hp : p.task = some t) (hq : q ≠ .returned true)
    (htask : ∀ t', q.task = some t' → t' = t) : Numbered (submitters.set i q) pushed := by
  refine ⟨?_, ?_, h.nodup⟩
  · intro j r t' hj ht'
    rw [getElem?_set_eq q hi] at hj
    split at hj
    next hji =>
      cases hj
      rw [hji, htask t' ht']
      exact h.own i p t hi hp
    next => exact h.own j r t' hj ht'
  · intro j
    rw [h.pushed_iff, getElem?_set_eq q hi]
    split
    next hji =>
      subst hji
      rw [hi, Option.some.injEq, Option.some.injEq]
      constructor
      · intro hret
        exact absurd hret (Submitter.returned_ne_of_task hp)
      · intro hret
        exact absurd hret hq
    next => exact Iff.rfl

/-- The call that pushes returns `true`. -/
theorem Numbered.push {submitters : List (Submitter ρ)} {pushed : List Nat}
    (h : Numbered submitters pushed) {i : Nat} {p : Submitter ρ} {t : Task ρ}
    (hi : submitters[i]? = some p) (hp : p.task = some t) :
    Numbered (submitters.set i (.returned true)) (pushed ++ [t.id]) := by
  have hid : t.id = i := h.own i p t hi hp
  have hnew : i ∉ pushed := by
    rw [h.pushed_iff, hi, Option.some.injEq]
    exact Submitter.returned_ne_of_task hp
  refine ⟨?_, ?_, ?_⟩
  · intro j r t' hj ht'
    rw [getElem?_set_eq _ hi] at hj
    split at hj
    next =>
      cases hj
      cases ht'
    next => exact h.own j r t' hj ht'
  · intro j
    rw [List.mem_append, h.pushed_iff, List.mem_singleton, hid, getElem?_set_eq _ hi]
    by_cases hji : j = i
    · simp [hji]
    · simp [hji]
  · rw [List.nodup_append]
    refine ⟨h.nodup, List.nodup_singleton _, ?_⟩
    intro a ha b hb heq
    rw [List.mem_singleton] at hb
    subst hb heq
    rw [hid] at ha
    exact hnew ha

/-- Waking sleepers neither starts nor ends a call. -/
theorem Numbered.wake {submitters submitters' : List (Submitter ρ)} {pushed : List Nat}
    (h : Numbered submitters pushed)
    (hwake : ∀ (i : Nat) (p : Submitter ρ), submitters'[i]? = some p →
      ∃ q, submitters[i]? = some q ∧ p.task = q.task ∧ (p = q ∨ p.task ≠ none))
    (hkeep : ∀ (i : Nat) (ok : Bool), submitters[i]? = some (.returned ok) →
      submitters'[i]? = some (.returned ok)) : Numbered submitters' pushed := by
  refine ⟨?_, ?_, h.nodup⟩
  · intro i p t hi ht
    obtain ⟨q, hq, htask, -⟩ := hwake i p hi
    exact h.own i q t hq (htask ▸ ht)
  · intro i
    rw [h.pushed_iff]
    constructor
    · exact hkeep i true
    · intro hi
      obtain ⟨q, hq, -, hsame⟩ := hwake i _ hi
      rcases hsame with rfl | hne
      · exact hq
      · exact absurd rfl hne

theorem Numbered.notifiesOne {submitters submitters' : List (Submitter ρ)} {pushed : List Nat}
    (h : Numbered submitters pushed) (hn : notFull.NotifiesOne submitters submitters') :
    Numbered submitters' pushed := by
  refine h.wake ?_ ?_
  · intro i p hi
    rcases hn.getElem?_inv hi with hold | ⟨q, hq, hasleep, rfl⟩
    · exact ⟨p, hold, rfl, .inl rfl⟩
    · refine ⟨q, hq, notFull_task_wake hasleep, .inr ?_⟩
      obtain ⟨t, rfl, hwake⟩ := notFull_wake hasleep
      rw [hwake]
      simp [Submitter.task]
  · intro i ok hi
    exact hn.getElem?_eq hi rfl

theorem Numbered.notifyAll {submitters : List (Submitter ρ)} {pushed : List Nat}
    (h : Numbered submitters pushed) : Numbered (notFull.notifyAll submitters) pushed := by
  refine h.wake ?_ ?_
  · intro i p hi
    rw [CondVar.getElem?_notifyAll, Option.map_eq_some_iff] at hi
    obtain ⟨q, hq, rfl⟩ := hi
    refine ⟨q, hq, ?_⟩
    split
    next hasleep =>
      refine ⟨notFull_task_wake hasleep, .inr ?_⟩
      obtain ⟨t, rfl, hwake⟩ := notFull_wake hasleep
      rw [hwake]
      simp [Submitter.task]
    next => exact ⟨rfl, .inl rfl⟩
  · intro i ok hi
    rw [CondVar.getElem?_notifyAll, hi]
    rfl

theorem numbered_step (h : Step o s e s') (hn : Numbered s.submitters s.pushed) :
    Numbered s'.submitters s'.pushed := by
  cases h with
  | submit body => exact hn.submit body
  | refuse hi hp =>
      exact hn.set hi (Submitter.task_of_atLock hp) (by simp) (by simp [Submitter.task])
  | push hi hp => exact hn.push hi (Submitter.task_of_atLock hp)
  | sleepSubmitter hi hp =>
      exact hn.set hi (Submitter.task_of_atLock hp) (by simp) (by simp [Submitter.task])
  | spuriousSubmitter hi => exact hn.set hi rfl (by simp) (by simp [Submitter.task])
  | pop _ _ _ hsub => exact hn.notifiesOne hsub
  | notifyNotFull => exact hn.notifyAll
  | sleepWorker | exit | spuriousWorker | work | finish | stopAgain | stopDrain
  | stopNoDrain | notifyNotEmpty | join => exact hn

/-- A call that has returned stays returned. -/
theorem returned_step (h : Step o s e s') {i : Nat} {ok : Bool}
    (hi : s.submitters[i]? = some (.returned ok)) : s'.submitters[i]? = some (.returned ok) := by
  have hset : ∀ {j : Nat} {p q : Submitter ρ} {t : Task ρ}, s.submitters[j]? = some p →
      p.task = some t → (s.submitters.set j q)[i]? = some (.returned ok) := by
    intro j p q t hj hp
    rw [getElem?_set_eq q hj]
    split
    next hij =>
      subst hij
      rw [hi, Option.some.injEq] at hj
      exact absurd hj.symm (Submitter.returned_ne_of_task hp)
    next => exact hi
  cases h with
  | submit body =>
      have hlt := lt_of_getElem? hi
      simpa [List.getElem?_append_left hlt] using hi
  | refuse hj hp => exact hset hj (Submitter.task_of_atLock hp)
  | push hj hp => exact hset hj (Submitter.task_of_atLock hp)
  | sleepSubmitter hj hp => exact hset hj (Submitter.task_of_atLock hp)
  | spuriousSubmitter hj => exact hset hj rfl
  | pop _ _ _ hsub => exact hsub.getElem?_eq hi rfl
  | notifyNotFull =>
      change (notFull.notifyAll s.submitters)[i]? = _
      rw [CondVar.getElem?_notifyAll, hi]
      rfl
  | sleepWorker | exit | spuriousWorker | work | finish | stopAgain | stopDrain
  | stopNoDrain | notifyNotEmpty | join => exact hi

/-! ## The ledger -/

/-- The number of the task a worker is running. -/
def Worker.runningIds : Worker ρ → Multiset Nat
  | .running t => {t.id}
  | _ => 0

/-- The numbers of the tasks that are popped and not finished. -/
def State.runningIds (s : State ρ) : Multiset Nat := total Worker.runningIds s.workers

theorem State.card_runningIds (s : State ρ) :
    s.runningIds.card = total (fun w => w.runningIds.card) s.workers := by
  rw [State.runningIds]
  induction s.workers with
  | nil => rfl
  | cons w l ih => rw [total_cons, total_cons, Multiset.card_add, ih]

theorem Worker.runningIds_of_atLock {w : Worker ρ} (h : w.atLock = true) : w.runningIds = 0 := by
  cases w <;> simp_all [atLock, runningIds]

theorem notEmpty_runningIds_wake (w : Worker ρ) (h : notEmpty.asleep w = true) :
    (notEmpty.wake w).runningIds = w.runningIds := by
  cases w <;> simp_all [notEmpty, Worker.runningIds]

/-- Where the pushed tasks are. -/
structure Ledger (s : State ρ) : Prop where
  pushed_eq : s.pushed = s.popped ++ (s.queue.map Task.id ++ s.discarded)
  discarded_empty : s.discarded ≠ [] → s.queue = [] ∧ s.stop = true
  popped_eq : (s.popped : Multiset Nat) = s.runningIds + (s.finished : Multiset Nat)

theorem Ledger.discarded_nil (h : Ledger s) (hstop : s.stop = false) : s.discarded = [] := by
  by_contra hne
  have hset := (h.discarded_empty hne).2
  rw [hstop] at hset
  cases hset

theorem ledger_step (h : Step o s e s') (hl : Ledger s) : Ledger s' := by
  obtain ⟨hpushed, hdiscarded, hpopped⟩ := hl
  have hnil := Ledger.discarded_nil ⟨hpushed, hdiscarded, hpopped⟩
  cases h with
  | push _ _ hstop _ hworkers =>
      refine ⟨?_, ?_, ?_⟩
      · rw [hnil hstop, List.append_nil] at hpushed
        simp [hpushed, hnil hstop]
      · intro hne
        exact absurd (hnil hstop) hne
      · rw [hpopped, State.runningIds, State.runningIds,
          hworkers.total_eq notEmpty_runningIds_wake]
  | sleepWorker hw hlock =>
      refine ⟨hpushed, hdiscarded, ?_⟩
      rw [hpopped, State.runningIds, State.runningIds,
        total_set_of_eq _ hw (Worker.runningIds_of_atLock hlock)]
  | exit hw hlock =>
      refine ⟨hpushed, hdiscarded, ?_⟩
      rw [hpopped, State.runningIds, State.runningIds,
        total_set_of_eq _ hw (Worker.runningIds_of_atLock hlock)]
  | @pop w worker t rest _ _ hw hlock hqueue _ =>
      refine ⟨?_, ?_, ?_⟩
      · simp [hpushed, hqueue]
      · intro hne
        have hempty := (hdiscarded hne).1
        rw [hqueue] at hempty
        cases hempty
      · have hset := total_set Worker.runningIds (Worker.running t) hw
        rw [Worker.runningIds_of_atLock hlock, add_zero] at hset
        change ((s.popped ++ [t.id] : List Nat) : Multiset Nat) =
          total Worker.runningIds (s.workers.set w (.running t)) + _
        rw [hset, ← Multiset.coe_add, hpopped, State.runningIds]
        change _ + _ + ({t.id} : Multiset Nat) = _ + {t.id} + _
        exact add_right_comm _ _ _
  | spuriousWorker hw =>
      refine ⟨hpushed, hdiscarded, ?_⟩
      rw [hpopped, State.runningIds, State.runningIds, total_set_of_eq _ hw (by rfl)]
  | work body hw =>
      refine ⟨hpushed, hdiscarded, ?_⟩
      rw [hpopped, State.runningIds, State.runningIds, total_set_of_eq _ hw (by rfl)]
  | @finish w t _ hw =>
      refine ⟨hpushed, hdiscarded, ?_⟩
      have hset := total_set Worker.runningIds Worker.ready hw
      change (s.popped : Multiset Nat) = total Worker.runningIds (s.workers.set w .ready) +
        ((s.finished ++ [t.id] : List Nat) : Multiset Nat)
      rw [hpopped, State.runningIds, ← Multiset.coe_add, add_comm (s.finished : Multiset Nat),
        ← add_assoc]
      change _ = total Worker.runningIds (s.workers.set w .ready) + Worker.runningIds (.running t)
        + _
      rw [hset]
      simp [Worker.runningIds]
  | stopDrain hstop =>
      refine ⟨hpushed, ?_, hpopped⟩
      intro hne
      exact absurd (hnil hstop) hne
  | stopNoDrain hstop =>
      refine ⟨?_, ?_, hpopped⟩
      · simp [hpushed, hnil hstop]
      · intro _
        exact ⟨rfl, rfl⟩
  | notifyNotEmpty =>
      refine ⟨hpushed, hdiscarded, ?_⟩
      rw [hpopped, State.runningIds, State.runningIds,
        CondVar.total_notifyAll notEmpty_runningIds_wake]
  | submit body | refuse | sleepSubmitter | spuriousSubmitter | stopAgain | notifyNotFull | join =>
      exact ⟨hpushed, hdiscarded, hpopped⟩

/-! ## The bound on the queue -/

theorem queueBound_step (h : Step o s e s') (hb : s.queue.length ≤ o.maxQueueDepth) :
    s'.queue.length ≤ o.maxQueueDepth := by
  cases h with
  | push _ _ _ hroom =>
      simp only [List.length_append, List.length_singleton]
      omega
  | @pop _ _ _ rest _ _ _ _ hqueue =>
      rw [hqueue, List.length_cons] at hb
      change rest.length ≤ o.maxQueueDepth
      omega
  | stopNoDrain => simp
  | submit | refuse | sleepSubmitter | spuriousSubmitter | sleepWorker | exit
  | spuriousWorker | work | finish | stopAgain | stopDrain | notifyNotEmpty | notifyNotFull
  | join => exact hb

/-! ## Stopping -/

/-- The mode of the call that set `stop_`. -/
def Stopper.mode : Stopper → Option StopMode
  | .idle => none
  | .set m | .notifiedWorkers m | .joining m | .returned m => some m

/-- What `stop_` implies. -/
structure Stopping (s : State ρ) : Prop where
  idle_iff : s.stop = false ↔ s.stopper.mode = none
  exited : (∃ w ∈ s.workers, w.hasExited = true) → s.stop = true ∧ s.queue = []
  returned : ∀ m, s.stopper = .returned m → ∀ w ∈ s.workers, w.hasExited = true
  drained : s.stopper.mode = some .drain → s.discarded = []

theorem Worker.hasExited_of_atLock {w : Worker ρ} (h : w.atLock = true) :
    w.hasExited = false := by
  cases w <;> simp_all [atLock, hasExited]

/-- No worker of a pool whose stopping call has returned is anywhere but at its
end. -/
theorem Stopping.absurd_worker (h : Stopping s) {m : StopMode} (hret : s.stopper = .returned m)
    {w : Nat} {worker : Worker ρ} (hw : s.workers[w]? = some worker)
    (hex : worker.hasExited = false) : False := by
  have := h.returned m hret worker (List.mem_of_getElem? hw)
  rw [hex] at this
  cases this

/-- A step of a worker that has not exited, to a state that has not exited
either. -/
theorem Stopping.setWorker (h : Stopping s) {w : Nat} {worker new : Worker ρ}
    (hw : s.workers[w]? = some worker) (hold : worker.hasExited = false)
    (hnew : new.hasExited = false) {t : State ρ} (hworkers : t.workers = s.workers.set w new)
    (hstop : t.stop = s.stop) (hstopper : t.stopper = s.stopper)
    (hqueue : s.queue = [] → t.queue = []) (hdiscarded : t.discarded = s.discarded) :
    Stopping t := by
  refine ⟨?_, ?_, ?_, ?_⟩
  · rw [hstop, hstopper]
    exact h.idle_iff
  · intro hexited
    rw [hworkers] at hexited
    obtain ⟨v, hv, hvex⟩ := hexited
    rcases List.mem_or_eq_of_mem_set hv with hmem | rfl
    · obtain ⟨hset, hempty⟩ := h.exited ⟨v, hmem, hvex⟩
      exact ⟨hstop ▸ hset, hqueue hempty⟩
    · rw [hnew] at hvex
      cases hvex
  · intro m hret
    rw [hstopper] at hret
    exact (h.absurd_worker hret hw hold).elim
  · intro hmode
    rw [hstopper] at hmode
    rw [hdiscarded]
    exact h.drained hmode

theorem Worker.hasExited_wake (w : Worker ρ) (h : notEmpty.asleep w = true) :
    (notEmpty.wake w).hasExited = w.hasExited := by
  cases w <;> simp_all [notEmpty, hasExited]

/-- Nobody exits by being notified. -/
theorem exited_of_notifiesOne {l l' : List (Worker ρ)} (h : notEmpty.NotifiesOne l l')
    (hex : ∃ w ∈ l', w.hasExited = true) : ∃ w ∈ l, w.hasExited = true := by
  by_contra hnone
  have hall : ∀ w ∈ l, w.hasExited = false := by
    intro w hw
    by_contra hne
    exact hnone ⟨w, hw, by simpa using hne⟩
  have hall' := h.forall_mem hall (fun w hasleep hw => by rw [Worker.hasExited_wake w hasleep, hw])
  obtain ⟨w, hw, hwex⟩ := hex
  rw [hall' w hw] at hwex
  cases hwex

theorem stopping_step (h : Step o s e s') (hl : Ledger s) (hs : Stopping s) : Stopping s' := by
  cases h with
  | submit body => exact ⟨hs.idle_iff, hs.exited, hs.returned, hs.drained⟩
  | refuse => exact ⟨hs.idle_iff, hs.exited, hs.returned, hs.drained⟩
  | push _ _ hstop _ hworkers =>
      refine ⟨hs.idle_iff, ?_, ?_, hs.drained⟩
      · intro hex
        have hset := (hs.exited (exited_of_notifiesOne hworkers hex)).1
        rw [hstop] at hset
        cases hset
      · intro m hret
        have hnone := hs.idle_iff.mp hstop
        change s.stopper = _ at hret
        rw [hret] at hnone
        cases hnone
  | sleepSubmitter | spuriousSubmitter => exact ⟨hs.idle_iff, hs.exited, hs.returned, hs.drained⟩
  | sleepWorker hw hlock =>
      exact hs.setWorker hw (Worker.hasExited_of_atLock hlock) rfl rfl rfl rfl id rfl
  | @exit w worker _ hw hlock hempty hstop =>
      refine ⟨hs.idle_iff, ?_, ?_, hs.drained⟩
      · intro _
        exact ⟨hstop, hempty⟩
      · intro m hret v hv
        exact (hs.absurd_worker hret hw (Worker.hasExited_of_atLock hlock)).elim
  | pop hw hlock hqueue =>
      refine hs.setWorker hw (Worker.hasExited_of_atLock hlock) rfl rfl rfl rfl ?_ rfl
      intro hempty
      rw [hqueue] at hempty
      cases hempty
  | spuriousWorker hw => exact hs.setWorker hw rfl rfl rfl rfl rfl id rfl
  | work body hw => exact hs.setWorker hw rfl rfl rfl rfl rfl id rfl
  | finish hw => exact hs.setWorker hw rfl rfl rfl rfl rfl id rfl
  | stopAgain => exact hs
  | stopDrain hstop =>
      have hnobody : ¬ ∃ w ∈ s.workers, w.hasExited = true := by
        intro hex
        have hset := (hs.exited hex).1
        rw [hstop] at hset
        cases hset
      refine ⟨by simp [Stopper.mode], ?_, ?_, ?_⟩
      · intro hex
        exact (hnobody hex).elim
      · intro m hret
        cases hret
      · intro _
        exact hl.discarded_nil hstop
  | stopNoDrain hstop =>
      refine ⟨by simp [Stopper.mode], ?_, ?_, ?_⟩
      · intro _
        exact ⟨rfl, rfl⟩
      · intro m hret
        cases hret
      · intro hmode
        cases hmode
  | @notifyNotEmpty mode hmode =>
      have hidle := hs.idle_iff
      have hdrained := hs.drained
      rw [hmode] at hidle hdrained
      refine ⟨hidle, ?_, ?_, hdrained⟩
      · intro hex
        obtain ⟨v, hv, hvex⟩ := hex
        obtain ⟨w, hw, rfl⟩ := List.mem_map.mp hv
        refine hs.exited ⟨w, hw, ?_⟩
        split at hvex
        next hasleep => rw [← hvex, Worker.hasExited_wake w hasleep]
        next => exact hvex
      · intro m hret
        cases hret
  | @notifyNotFull mode hmode =>
      have hidle := hs.idle_iff
      have hdrained := hs.drained
      rw [hmode] at hidle hdrained
      refine ⟨hidle, hs.exited, ?_, hdrained⟩
      intro m hret
      cases hret
  | @join mode hmode hall =>
      have hidle := hs.idle_iff
      have hdrained := hs.drained
      rw [hmode] at hidle hdrained
      refine ⟨hidle, hs.exited, ?_, hdrained⟩
      intro m _
      exact hall

/-! ## Whole runs -/

/-- The invariants together. -/
structure Accounted (o : Options) (s : State ρ) : Prop where
  numbered : Numbered s.submitters s.pushed
  ledger : Ledger s
  bound : s.queue.length ≤ o.maxQueueDepth
  stopping : Stopping s

theorem accounted_init (o : Options) : Accounted (ρ := ρ) o (init o) := by
  have hnone : ∀ w ∈ (init (ρ := ρ) o).workers, w = .ready := by
    intro w hw
    exact List.eq_of_mem_replicate hw
  refine ⟨⟨?_, ?_, List.nodup_nil⟩, ⟨rfl, ?_, ?_⟩, Nat.zero_le _, ⟨?_, ?_, ?_, ?_⟩⟩
  · intro i p t hi
    simp [init] at hi
  · intro i
    simp [init]
  · intro hne
    exact absurd rfl hne
  · rw [State.runningIds, total_eq_zero]
    · rfl
    · intro w hw
      rw [hnone w hw]
      rfl
  · simp [init, Stopper.mode]
  · intro hex
    obtain ⟨w, hw, hwex⟩ := hex
    rw [hnone w hw] at hwex
    cases hwex
  · intro m hret
    cases hret
  · intro hmode
    cases hmode

theorem accounted_step (h : Step o s e s') (ha : Accounted o s) : Accounted o s' :=
  ⟨numbered_step h ha.numbered, ledger_step h ha.ledger, queueBound_step h ha.bound,
    stopping_step h ha.ledger ha.stopping⟩

theorem reachable_accounted {o : Options} {s : State ρ} (h : (machine o).Reachable s) :
    Accounted o.normalise s :=
  h.invariant (P := Accounted o.normalise) (accounted_init _)
    (fun _ _ _ ha hstep => accounted_step (step_cases hstep) ha)

theorem pushed_step (h : Step o s e s') (hstop : s.stop = true) :
    s'.stop = true ∧ s'.pushed = s.pushed ∧ s'.discarded = s.discarded := by
  cases h with
  | push _ _ hopen =>
      rw [hopen] at hstop
      cases hstop
  | stopDrain hopen =>
      rw [hopen] at hstop
      cases hstop
  | stopNoDrain hopen =>
      rw [hopen] at hstop
      cases hstop
  | submit | refuse | sleepSubmitter | spuriousSubmitter | sleepWorker | exit | pop
  | spuriousWorker | work | finish | stopAgain | notifyNotEmpty | notifyNotFull | join =>
      exact ⟨hstop, rfl, rfl⟩

/-- Once `stop_` is set, nothing is pushed or discarded any more. -/
theorem pushed_exec {o : Options} {es : List (Event ρ)} (hstop : s.stop = true)
    (h : (machine o).exec s es = some s') :
    s'.stop = true ∧ s'.pushed = s.pushed ∧ s'.discarded = s.discarded := by
  refine Machine.exec_invariant
    (P := fun t => t.stop = true ∧ t.pushed = s.pushed ∧ t.discarded = s.discarded)
    ?_ ⟨hstop, rfl, rfl⟩ h
  intro t e t' ht hstep
  obtain ⟨hset, hpushed, hdiscarded⟩ := pushed_step (step_cases hstep) ht.1
  exact ⟨hset, hpushed.trans ht.2.1, hdiscarded.trans ht.2.2⟩

theorem returned_exec {o : Options} {es : List (Event ρ)} {i : Nat} {ok : Bool}
    (hi : s.submitters[i]? = some (.returned ok)) (h : (machine o).exec s es = some s') :
    s'.submitters[i]? = some (.returned ok) :=
  Machine.exec_invariant (P := fun t => t.submitters[i]? = some (.returned ok))
    (fun _ _ _ ht hstep => returned_step (step_cases hstep) ht) hi h

theorem Accounted.popped_subset (ha : Accounted o s) {i : Nat} (h : i ∈ s.popped) :
    i ∈ s.pushed := by
  rw [ha.ledger.pushed_eq]
  exact List.mem_append_left _ h

/-- Tasks pushed are running, finished, queued or discarded, by number. -/
theorem Accounted.length_pushed (ha : Accounted o s) :
    s.pushed.length =
      s.runningIds.card + s.finished.length + (s.queue.length + s.discarded.length) := by
  have hcard := congrArg Multiset.card ha.ledger.popped_eq
  rw [Multiset.coe_card, Multiset.card_add, Multiset.coe_card] at hcard
  rw [ha.ledger.pushed_eq, List.length_append, List.length_append, List.length_map, hcard]

/-- No popped task is running once every worker has exited. -/
theorem runningIds_of_exited (h : ∀ w ∈ s.workers, w.hasExited = true) : s.runningIds = 0 := by
  apply total_eq_zero
  intro w hw
  have hex := h w hw
  cases w <;> simp_all [Worker.hasExited, Worker.runningIds]

/-- When the draining `stop` returns, every pushed task has been popped. -/
theorem Accounted.drained_queue (ha : Accounted o s) (hpos : 0 < s.workers.length)
    (hret : s.stopper = .returned .drain) : s.queue = [] ∧ s.popped = s.pushed := by
  have hexited := ha.stopping.returned _ hret
  obtain ⟨w, hw⟩ := List.exists_mem_of_length_pos hpos
  have hempty := (ha.stopping.exited ⟨w, hw, hexited w hw⟩).2
  have hnone := ha.stopping.drained (by rw [hret]; rfl)
  refine ⟨hempty, ?_⟩
  rw [ha.ledger.pushed_eq, hempty, hnone]
  simp

/-- And every popped task is finished. -/
theorem Accounted.drained (ha : Accounted o s) (hpos : 0 < s.workers.length)
    (hret : s.stopper = .returned .drain) : (s.finished : Multiset Nat) = s.pushed := by
  have hpopped := ha.ledger.popped_eq
  rw [runningIds_of_exited (ha.stopping.returned _ hret), zero_add] at hpopped
  rw [← hpopped, (ha.drained_queue hpos hret).2]

theorem workers_step (h : Step o s e s') : s'.workers.length = s.workers.length := by
  cases h with
  | push _ _ _ _ hworkers => exact hworkers.length_eq
  | sleepWorker | exit | pop | spuriousWorker | work | finish | notifyNotEmpty => simp
  | submit | refuse | sleepSubmitter | spuriousSubmitter | stopAgain | stopDrain
  | stopNoDrain | notifyNotFull | join => rfl

/-- The number of workers never changes. -/
theorem reachable_workers {o : Options} {s : State ρ} (h : (machine o).Reachable s) :
    s.workers.length = o.normalise.workerCount := by
  refine h.invariant (P := fun t => t.workers.length = o.normalise.workerCount) ?_ ?_
  · simp [machine, init]
  · intro t e t' ht hstep
    rw [workers_step (step_cases hstep), ht]

/-- In every reachable state of the pool, for all options and any number of
callers: the pushed tasks are the queued, the running, the finished and the
discarded ones, each once; they were popped in the order they were pushed; the
queue is within its bound; a call that returned `false` brought a task that is
never popped; nothing is pushed once `stop_` is set; when `stop` returns, every
pushed task is finished and every worker has exited; and `stop_no_drain`
discards exactly what was queued when it set `stop_`. -/
theorem accounts (o : Options) {s : State ρ} (h : (machine o).Reachable s) :
    ((s.queue.map Task.id : List Nat) + s.runningIds + s.finished + s.discarded : Multiset Nat) =
        s.pushed ∧
      s.pushed.Nodup ∧
      (∀ i, i ∈ s.pushed ↔ s.submitters[i]? = some (.returned true)) ∧
      s.popped <+: s.pushed ∧
      (s.popped : Multiset Nat) = s.runningIds + s.finished ∧
      s.queue.length ≤ o.normalise.maxQueueDepth ∧
      (∀ i, s.submitters[i]? = some (.returned false) →
        ∀ es s', (machine o).exec s es = some s' → i ∉ s'.popped) ∧
      (s.stop = true → ∀ es s', (machine o).exec s es = some s' → s'.pushed = s.pushed) ∧
      (s.stopper = .returned .drain →
        (s.finished : Multiset Nat) = s.pushed ∧ ∀ w ∈ s.workers, w.hasExited = true) ∧
      (s.stop = false → ∀ t es s', (machine o).step s (.stop .noDrain) = some t →
        (machine o).exec t es = some s' → s'.discarded = s.queue.map Task.id) := by
  have ha := reachable_accounted h
  refine ⟨?_, ha.numbered.nodup, ha.numbered.pushed_iff, ?_, ha.ledger.popped_eq, ha.bound,
    ?_, ?_, ?_, ?_⟩
  · rw [ha.ledger.pushed_eq, ← Multiset.coe_add, ← Multiset.coe_add, ha.ledger.popped_eq]
    abel
  · rw [ha.ledger.pushed_eq]
    exact List.prefix_append _ _
  · intro i hi es s' hexec hpopped
    have ha' := reachable_accounted (h.exec hexec)
    have htrue := (ha'.numbered.pushed_iff i).mp (ha'.popped_subset hpopped)
    rw [returned_exec hi hexec] at htrue
    cases htrue
  · intro hstop es s' hexec
    exact (pushed_exec hstop hexec).2.1
  · intro hret
    refine ⟨ha.drained ?_ hret, ha.stopping.returned _ hret⟩
    rw [reachable_workers h]
    exact o.normalise_workerCount_pos
  · intro hopen t es s' hstop hexec
    have ht : t = s.stopCall .noDrain := by
      simpa [machine, step] using hstop.symm
    have hset : t.stop = true := by simp [ht, State.stopCall, hopen]
    rw [(pushed_exec hset hexec).2.2, ht]
    simp [State.stopCall, hopen]

/-- One worker, two tasks: the first throws, and the second is still queued when
`stop` is called. -/
def twoTasks : List (Event Unit) :=
  [.submit (), .submit (), .submitLock 0 none, .workerLock 0 none, .submitLock 1 none,
    .stop .drain, .notifyNotEmpty, .notifyNotFull, .finish 0 true, .workerLock 0 none,
    .finish 0 false, .workerLock 0 none, .join]

theorem accounts_twoTasks : ∃ s,
    (machine { workerCount := 1, maxQueueDepth := 2 }).run twoTasks = some s ∧
      s.stopper = .returned .drain ∧ s.pushed = [0, 1] ∧
      (s.finished : Multiset Nat) = s.pushed := by
  refine ⟨_, rfl, rfl, rfl, ?_⟩
  have h := accounts { workerCount := 1, maxQueueDepth := 2 } ⟨twoTasks, rfl⟩
  exact (h.2.2.2.2.2.2.2.2.1 rfl).1

end InferenceRouter.ThreadPool
