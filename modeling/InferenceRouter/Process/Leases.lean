import InferenceRouter.Process.Model

/-!
# Handles and the handlers that have them

A handler borrows at most once, releases the handle it got and no other, and is counted
in `metrics.in_flight` all the while: that is the protocol `lending`, and `handle_one`
follows it.  `Suits` ties the rest of a run to the stage of its caller in the set, and
`Leased` says that every worker's lease suits it, that no two have the same caller, and
that every caller of the set that is not through belongs to some worker.
-/

namespace InferenceRouter.Process

open Interleaving Handler
open BackendSet (Stage)
open Router (Job WorkerStep)

variable {cfg : Config} {s s' : State} {e : Event}

/-! ## The protocol of the handles -/

/-- The handle that a run has. -/
def lend (g : Option Handle) : (o : Op) → o.Ret → Option Handle
  | .setBorrow, h => if h.fd < 0 then none else some h
  | .setRelease _ _, _ => none
  | _, _ => g

/-- Whether a run with the handle `g` may make a call. -/
def mayCall (g : Option Handle) : Op → Prop
  | .incInFlight | .decInFlight | .setBorrow => g = none
  | .setRelease h _ => g = some h
  | _ => True

def lending : Protocol Op Op.Ret (Option Handle) where
  allowed := mayCall
  next := lend
  final g := g = none

theorem handleOneSet_lends (opts : HandlerOptions) :
    (handleOneSet opts).Follows lending none := by
  simp +contextual [handleOneSet, lending, mayCall, lend]

/-- A run with a handle stays in flight. -/
theorem present_count {h : Handle} {o : Op} (ho : mayCall (some h) o) (g : Tally) :
    (g.count o).present = g.present := by
  cases o with
  | incInFlight | decInFlight => cases ho
  | incCompleted | incErrored | acceptHandshake | readMessage | writeMessage | replyErrorPlain
  | replyErrorTls | poolBorrow | poolRelease | setBorrow | setRelease | safeClose
  | closeStream => rfl

theorem lend_of_not_setCall {g : Option Handle} {o : Op} (r : o.Ret)
    (ho : Router.isBackendSetCall o = false) : lend g o r = g := by
  cases o with
  | setBorrow | setRelease => cases ho
  | incInFlight | decInFlight | incCompleted | incErrored | acceptHandshake | readMessage
  | writeMessage | replyErrorPlain | replyErrorTls | poolBorrow | poolRelease | safeClose
  | closeStream => rfl

/-! ## A worker and its lease -/

/-- The caller of the set under which the worker has its lease. -/
def Lease.caller : Lease → Option Nat
  | .none => Option.none
  | .borrowing c | .holding c | .releasing c => some c

/-- How a lease goes with the worker and with the stages of the callers. -/
inductive Suits (stage : Nat → Option Stage) : Lease → Option (ThreadPool.Worker Job) → Prop where
  | idle {x : Option (ThreadPool.Worker Job)} : (∀ t, x ≠ some (.running t)) → Suits stage .none x
  | free {t : ThreadPool.Task Job} : t.body.rest.Follows lending none →
      Suits stage .none (some (.running t))
  | borrowing {c : Nat} {t : ThreadPool.Task Job} {p : Stage} :
      t.body.rest.nextCall = some .setBorrow → t.body.rest.Follows lending none →
      t.body.tally.present = 1 → stage c = some p → Stage.borrowing.Leads p →
      Suits stage (.borrowing c) (some (.running t))
  | holding {c : Nat} {t : ThreadPool.Task Job} {h : Handle} :
      t.body.rest.Follows lending (some h) → t.body.tally.present = 1 →
      stage c = some (.held h) → Suits stage (.holding c) (some (.running t))
  | releasing {c : Nat} {t : ThreadPool.Task Job} {h : Handle} {ok : Bool} {p : Stage} :
      t.body.rest.nextCall = some (.setRelease h ok) → t.body.rest.Follows lending (some h) →
      t.body.tally.present = 1 → stage c = some p → (Stage.releasing h).Leads p →
      Suits stage (.releasing c) (some (.running t))

section Suits

variable {stage stage' : Nat → Option Stage} {l : Lease} {x y : Option (ThreadPool.Worker Job)}

theorem Suits.exists_stage (h : Suits stage l x) {c : Nat} (hc : l.caller = some c) :
    ∃ p, stage c = some p := by
  cases h with
  | idle | free => cases hc
  | borrowing _ _ _ hp | releasing _ _ _ hp =>
      cases hc
      exact ⟨_, hp⟩
  | holding _ _ hp =>
      cases hc
      exact ⟨_, hp⟩

/-- A worker with a lease runs a task that is in flight. -/
theorem Suits.present (h : Suits stage l x) {c : Nat} (hc : l.caller = some c) :
    ∃ t, x = some (.running t) ∧ t.body.tally.present = 1 := by
  cases h with
  | idle | free => cases hc
  | borrowing _ _ hpresent | releasing _ _ hpresent => exact ⟨_, rfl, hpresent⟩
  | holding _ hpresent => exact ⟨_, rfl, hpresent⟩

/-- The caller of the lease goes where its stage leads. -/
theorem Suits.stages (h : Suits stage l x)
    (hstage : ∀ c p, l.caller = some c → stage c = some p → ∃ q, stage' c = some q ∧ p.Leads q) :
    Suits stage' l x := by
  cases h with
  | idle hx => exact .idle hx
  | free hfollows => exact .free hfollows
  | borrowing hcall hfollows hpresent hp hleads =>
      obtain ⟨q, hq, hpq⟩ := hstage _ _ rfl hp
      exact .borrowing hcall hfollows hpresent hq (hleads.trans hpq)
  | holding hfollows hpresent hp =>
      obtain ⟨q, hq, hpq⟩ := hstage _ _ rfl hp
      rw [hpq.eq_of_held] at hq
      exact .holding hfollows hpresent hq
  | releasing hcall hfollows hpresent hp hleads =>
      obtain ⟨q, hq, hpq⟩ := hstage _ _ rfl hp
      exact .releasing hcall hfollows hpresent hq (hleads.trans hpq)

/-- The worker makes a step of the router that is no call of the set. -/
theorem Suits.worker {r : Router.Config} {e : Router.Event} {w : Nat} (h : Suits stage l x)
    (hstep : WorkerStep r e w x y)
    (hcall : ∀ o a, e = .handlerCall w o a → Router.isBackendSetCall o = false) :
    Suits stage l y := by
  cases hstep with
  | same => exact h
  | idle hidle hnew =>
      cases h with
      | borrowing | holding | releasing => exact absurd rfl (hidle _)
      | free => exact absurd rfl (hidle _)
      | idle =>
          by_cases hy : ∃ t, y = some (.running t)
          · obtain ⟨t, rfl⟩ := hy
            obtain ⟨fd, hfresh⟩ := hnew t rfl
            refine .free ?_
            rw [hfresh]
            exact handleOneSet_lends r.handler
          · exact .idle (fun t ht => hy ⟨t, ht⟩)
  | @call t o k a he hx hrest =>
      subst hx
      have ho := hcall o a he
      cases h with
      | idle hidle => exact absurd rfl (hidle t)
      | free hfollows =>
          rw [hrest, Prog.follows_call] at hfollows
          have hnext := hfollows.2 a
          rw [show lending.next none o a = none from lend_of_not_setCall a ho] at hnext
          exact .free hnext
      | borrowing hnext =>
          rw [hrest] at hnext
          cases hnext
          cases ho
      | @holding c _ hd hfollows hpresent hp =>
          rw [hrest, Prog.follows_call] at hfollows
          have hnext := hfollows.2 a
          rw [show lending.next (some hd) o a = some hd from lend_of_not_setCall a ho] at hnext
          exact .holding hnext ((present_count hfollows.1 _).trans hpresent) hp
      | releasing hnext =>
          rw [hrest] at hnext
          cases hnext
          cases ho
  | @finish t hx hrest =>
      subst hx
      cases h with
      | idle hidle => exact absurd rfl (hidle t)
      | free => exact .idle (fun t ht => by cases ht)
      | borrowing hnext | releasing hnext =>
          rw [hrest] at hnext
          cases hnext
      | holding hfollows =>
          rw [hrest] at hfollows
          cases hfollows

end Suits

/-! ## All workers -/

structure Leased (s : State) : Prop where
  suits : ∀ w, Suits s.backends.stage (s.leases w) s.router.pool.workers[w]?
  unique : ∀ w w' c, (s.leases w).caller = some c → (s.leases w').caller = some c → w = w'
  covered : ∀ c p, s.backends.stage c = some p → p.over = false →
    ∃ w, (s.leases w).caller = some c

/-- The lease of one worker changes. -/
theorem Leased.update (h : Leased s) {w : Nat} {l : Lease} {router : Router.State}
    {backends : BackendSet.State} (hsuits : Suits backends.stage l router.pool.workers[w]?)
    (hothers : ∀ v, v ≠ w → Suits backends.stage (s.leases v) router.pool.workers[v]?)
    (hcaller : ∀ c, l.caller = some c →
      (s.leases w).caller = some c ∨ ∀ v, (s.leases v).caller ≠ some c)
    (hcovered : ∀ c p, backends.stage c = some p → p.over = false → l.caller = some c ∨
      (s.leases w).caller ≠ some c ∧ ∃ q, s.backends.stage c = some q ∧ q.over = false) :
    Leased { router := router, backends := backends, leases := Function.update s.leases w l } where
  suits := by
    intro v
    by_cases hvw : v = w
    · subst hvw
      simpa only [Function.update_self] using hsuits
    · simpa only [Function.update_of_ne hvw] using hothers v hvw
  unique := by
    have hnew : ∀ v c, v ≠ w → l.caller = some c → (s.leases v).caller ≠ some c := by
      intro v c hvw hc hv
      rcases hcaller c hc with hw | hnone
      · exact hvw (h.unique v w c hv hw)
      · exact hnone v hv
    intro v v' c hv hv'
    simp only [Function.update_apply] at hv hv'
    split at hv <;> split at hv'
    next hvw hvw' => exact hvw.trans hvw'.symm
    next hvw hvw' => exact absurd hv' (hnew v' c hvw' hv)
    next hvw hvw' => exact absurd hv (hnew v c hvw hv')
    next => exact h.unique v v' c hv hv'
  covered := by
    intro c p hp hover
    rcases hcovered c p hp hover with hc | ⟨hne, q, hq, hover'⟩
    · exact ⟨w, by simpa only [Function.update_self] using hc⟩
    · obtain ⟨v, hv⟩ := h.covered c q hq hover'
      have hvw : v ≠ w := by
        rintro rfl
        exact hne hv
      exact ⟨v, by simpa only [Function.update_of_ne hvw] using hv⟩

/-- A step of the router alone leaves the leases as they are. -/
theorem Leased.setRouter (h : Leased s) {e : Router.Event} {router : Router.State}
    (hj : Router.Jobs cfg.router s.router)
    (hstep : Router.step cfg.router s.router e = some router)
    (hcall : ∀ w o a, e = .handlerCall w o a → Router.isBackendSetCall o = false) :
    Leased { s with router := router } where
  suits w := (h.suits w).worker (Router.worker_step (Router.step_cases hstep) hj w) (hcall w)
  unique := h.unique
  covered := h.covered

/-- The call of a worker returns, and its lease changes. -/
theorem Leased.resume (h : Leased s) {w : Nat} {o : Op} {a : o.Ret} {router : Router.State}
    (hj : Router.Jobs cfg.router s.router)
    (hstep : Router.step cfg.router s.router (.handlerCall w o a) = some router) (l : Lease)
    (hsuits : ∀ t k, s.router.pool.workers[w]? = some (.running t) → t.body.rest = .call o k →
      Suits s.backends.stage l (some (.running
        { t with body := { t.body with rest := k a, tally := t.body.tally.count o } })))
    (hcaller : ∀ c, l.caller = some c → (s.leases w).caller = some c)
    (hcovered : ∀ c p, s.backends.stage c = some p → p.over = false →
      (s.leases w).caller = some c → l.caller = some c) :
    Leased { s with router := router, leases := Function.update s.leases w l } := by
  apply h.update
  · cases Router.step_cases hstep with
    | wander hacceptor => cases hacceptor
    | handlerCall a hw hrest =>
        show Suits _ _ (s.router.pool.workers.set w _)[w]?
        rw [getElem?_set_eq _ hw, if_pos rfl]
        exact hsuits _ _ hw hrest
  · intro v hvw
    refine (h.suits v).worker (Router.worker_step (Router.step_cases hstep) hj v) ?_
    intro o' a' heq
    cases heq
    exact absurd rfl hvw
  · intro c hc
    exact .inl (hcaller c hc)
  · intro c p hp hover
    by_cases hc : (s.leases w).caller = some c
    · exact .inl (hcovered c p hp hover hc)
    · exact .inr ⟨hc, p, hp, hover⟩

/-- A worker begins a call of the set. -/
theorem Leased.enter (h : Leased s) {w c : Nat} {backends : BackendSet.State} {l : Lease}
    (hl : l.caller = some c) (hsuits : Suits backends.stage l s.router.pool.workers[w]?)
    (hcaller : (s.leases w).caller = some c ∨ ∀ v, (s.leases v).caller ≠ some c)
    (hsame : ∀ d, d ≠ c → backends.stage d = s.backends.stage d)
    (hkept : ∀ d, (s.leases w).caller = some d → d = c) :
    Leased { s with backends := backends, leases := Function.update s.leases w l } := by
  apply h.update hsuits
  · intro v hvw
    refine (h.suits v).stages (fun d p hd hp => ?_)
    have hne : d ≠ c := by
      rintro rfl
      rcases hcaller with hw | hnone
      · exact hvw (h.unique v w d hd hw)
      · exact hnone v hd
    exact ⟨p, (hsame d hne).trans hp, .refl p⟩
  · intro d hd
    rw [hl, Option.some.injEq] at hd
    subst hd
    exact hcaller
  · intro d p hp hover
    by_cases hd : d = c
    · subst hd
      exact .inl hl
    · refine .inr ⟨fun hw => hd (hkept d hw), p, ?_, hover⟩
      rw [← hsame d hd]
      exact hp

theorem nextCall_cases {w : Nat} {o : Op} (h : s.nextCall w = some o) :
    ∃ t k, s.router.pool.workers[w]? = some (.running t) ∧ t.body.rest = .call o k := by
  simp only [State.nextCall] at h
  split at h
  next t ht =>
    obtain ⟨k, hk⟩ := Prog.nextCall_eq_some.mp h
    exact ⟨t, k, ht, hk⟩
  next => cases h

/-- A handler calls `borrow`. -/
theorem Leased.borrow (h : Leased s) (hj : Router.Jobs cfg.router s.router) {w : Nat}
    {x : BackendSet.State} (hlease : s.leases w = .none) (hcall : s.nextCall w = some .setBorrow)
    (hx : BackendSet.step cfg.backends s.backends .borrow = some x) :
    Leased { s with
      backends := x
      leases := Function.update s.leases w (.borrowing s.backends.callers.length) } := by
  obtain ⟨⟨p, hp, hleads⟩, hsame⟩ := BackendSet.stage_borrow (BackendSet.step_cases hx)
  obtain ⟨t, k, ht, hrest⟩ := nextCall_cases hcall
  have hsuits := h.suits w
  rw [hlease, ht] at hsuits
  apply h.enter (c := s.backends.callers.length) rfl ?_ ?_ hsame ?_
  · rw [ht]
    cases hsuits with
    | idle hidle => exact absurd rfl (hidle t)
    | free hfollows =>
        -- the protocol of the counters lets a run borrow between entering and leaving
        have hsettle := (hj.running.of_getElem? ht).2.1
        rw [hrest, Prog.follows_call] at hsettle
        obtain ⟨hentered, hleft⟩ : t.body.tally.entered = 1 ∧ t.body.tally.left = 0 := hsettle.1
        have hpresent : t.body.tally.present = 1 := by
          rw [Tally.present, hentered, hleft]
          rfl
        exact .borrowing (by rw [hrest]; rfl) hfollows hpresent hp hleads
  · -- the number of the new caller is beyond those of the leases
    right
    intro v hv
    obtain ⟨q, hq⟩ := (h.suits v).exists_stage hv
    simp [BackendSet.State.stage] at hq
  · intro d hd
    rw [hlease] at hd
    cases hd

/-- `borrow` returns a handle. -/
theorem Leased.borrowed (h : Leased s) (hj : Router.Jobs cfg.router s.router)
    (ha : BackendSet.Accounted cfg.backends s.backends) {w c : Nat} {hd : Handle} {x : Router.State}
    (hlease : s.leases w = .borrowing c) (hstage : s.backends.stage c = some (.held hd))
    (hx : Router.step cfg.router s.router (.handlerCall w .setBorrow hd) = some x) :
    Leased { s with router := x, leases := Function.update s.leases w (.holding c) } := by
  apply h.resume hj hx (.holding c)
  · intro t k ht hrest
    have hsuits := h.suits w
    rw [hlease, ht] at hsuits
    cases hsuits with
    | borrowing _ hfollows hpresent =>
        rw [hrest, Prog.follows_call] at hfollows
        have hnext : (k hd).Follows lending (if hd.fd < 0 then none else some hd) := hfollows.2 hd
        rw [if_neg (Int.not_lt.mpr (ha.fd_nonneg hstage))] at hnext
        exact .holding hnext hpresent hstage
  · intro d hd
    rw [hlease]
    exact hd
  · intro d p _ _ hd
    rw [hlease] at hd
    exact hd

/-- A handler calls `release`. -/
theorem Leased.release (h : Leased s) {w c : Nat} {hd : Handle} {ok : Bool} {x : BackendSet.State}
    (hlease : s.leases w = .holding c) (hcall : s.nextCall w = some (.setRelease hd ok))
    (hstage : s.backends.stage c = some (.held hd))
    (hx : BackendSet.step cfg.backends s.backends (.release c ok) = some x) :
    Leased { s with backends := x, leases := Function.update s.leases w (.releasing c) } := by
  obtain ⟨⟨p, hp, hleads⟩, hsame⟩ := BackendSet.stage_release (BackendSet.step_cases hx) hstage
  obtain ⟨t, k, ht, hrest⟩ := nextCall_cases hcall
  have hsuits := h.suits w
  rw [hlease, ht] at hsuits
  apply h.enter (c := c) rfl ?_ (.inl (by rw [hlease]; rfl)) hsame ?_
  · rw [ht]
    cases hsuits with
    | holding hfollows hpresent hheld =>
        rw [hstage, Option.some.injEq] at hheld
        cases hheld
        exact .releasing (by rw [hrest]; rfl) hfollows hpresent hp hleads
  · intro d hd
    rw [hlease] at hd
    cases hd
    rfl

/-- A call returns, and the caller of the set is through. -/
theorem Leased.leave (h : Leased s) (hj : Router.Jobs cfg.router s.router) {w c : Nat} {o : Op}
    {a : o.Ret} {p : Stage} {x : Router.State} (hc : (s.leases w).caller = some c)
    (hp : s.backends.stage c = some p) (hover : p.over = true)
    (hx : Router.step cfg.router s.router (.handlerCall w o a) = some x)
    (hfollows : ∀ t k, s.router.pool.workers[w]? = some (.running t) → t.body.rest = .call o k →
      (k a).Follows lending none) :
    Leased { s with router := x, leases := Function.update s.leases w .none } := by
  apply h.resume hj hx .none
  · intro t k ht hrest
    exact .free (hfollows t k ht hrest)
  · intro d hd
    cases hd
  · intro d q hq hover' hd
    rw [hc, Option.some.injEq] at hd
    subst hd
    rw [hp, Option.some.injEq] at hq
    subst hq
    rw [hover] at hover'
    cases hover'

theorem leased_step (h : Step cfg s e s') (hj : Router.Jobs cfg.router s.router)
    (ha : BackendSet.Accounted cfg.backends s.backends) (hl : Leased s) : Leased s' := by
  cases h with
  | clock => exact ⟨hl.suits, hl.unique, hl.covered⟩
  | router halone hx =>
      apply hl.setRouter hj hx
      rintro w o a rfl
      simpa [Router.State.alone] using halone
  | backends hinner hx =>
      have hstep := BackendSet.step_cases hx
      refine ⟨?_, hl.unique, ?_⟩
      · intro w
        exact (hl.suits w).stages (fun c p _ hp => BackendSet.stage_step hstep hinner hp)
      · intro c q hq hover
        obtain ⟨p, hp, hleads⟩ := BackendSet.stage_source hstep hinner hq
        apply hl.covered c p hp
        by_contra hover'
        rw [hleads.over (by simpa using hover')] at hover
        cases hover
  | borrow hlease hcall hx => exact hl.borrow hj hlease hcall hx
  | borrowed hlease hstage hx => exact hl.borrowed hj ha hlease hstage hx
  | @borrowFailed w c x hlease hstage hx =>
      apply hl.leave hj (by rw [hlease]; rfl) hstage rfl hx
      intro t k ht hrest
      have hsuits := hl.suits w
      rw [hlease, ht] at hsuits
      cases hsuits with
      | borrowing _ hfollows =>
          rw [hrest, Prog.follows_call] at hfollows
          exact hfollows.2 { fd := -1, poolIndex := 0 }
  | release hlease hcall hstage hx => exact hl.release hlease hcall hstage hx
  | @released w c hd hd' ok x hlease hcall hstage hx =>
      apply hl.leave hj (by rw [hlease]; rfl) hstage rfl hx
      intro t k ht hrest
      have hsuits := hl.suits w
      rw [hlease, ht] at hsuits
      cases hsuits with
      | releasing _ hfollows =>
          rw [hrest, Prog.follows_call] at hfollows
          exact hfollows.2 ()
  | shutdown _ hx hy =>
      have hrouter := hl.setRouter hj hx (by rintro w o a heq; cases heq)
      cases BackendSet.step_cases hy with
      | shutdown => exact ⟨hrouter.suits, hrouter.unique, hrouter.covered⟩
  | shutdownReturn _ _ hx =>
      apply hl.setRouter hj hx
      rintro w o a heq
      cases heq

theorem leased_init (cfg : Config) : Leased (machine cfg).init where
  suits w := by
    refine .idle (fun t ht => ?_)
    have hready := List.eq_of_mem_replicate (List.mem_of_getElem? ht)
    cases hready
  unique w w' c h := by cases h
  covered c p h := by cases h

theorem reachable_leased (h : (machine cfg).Reachable s) : Leased s := by
  refine Machine.Reachable.invariant_with (P := Leased)
    (Q := fun t => Router.Jobs cfg.router t.router ∧
      BackendSet.Accounted cfg.backends t.backends) ?_ (leased_init cfg) ?_ h
  · intro t ht
    exact ⟨(Router.reachable_routed ((routerView cfg).reachable ht)).jobs,
      BackendSet.reachable_accounted ((backendsView cfg).reachable ht)⟩
  · intro t e t' ⟨hj, ha⟩ hl hstep
    exact leased_step (step_cases hstep) hj ha hl

/-- A run that calls `release` has the handle that it borrowed, so the call is made. -/
theorem Leased.release_held (h : Leased s) {w : Nat} {hd : Handle} {ok : Bool}
    (hcall : s.nextCall w = some (.setRelease hd ok)) :
    ∃ c, s.leases w = .releasing c ∨
      s.leases w = .holding c ∧ s.backends.stage c = some (.held hd) := by
  obtain ⟨t, k, ht, hrest⟩ := nextCall_cases hcall
  have hsuits := h.suits w
  rw [ht] at hsuits
  generalize s.leases w = l at hsuits
  cases hsuits with
  | idle hidle => exact absurd rfl (hidle t)
  | free hfollows =>
      rw [hrest, Prog.follows_call] at hfollows
      cases hfollows.1
  | borrowing hnext =>
      rw [hrest] at hnext
      cases hnext
  | @holding c _ _ hfollows _ hheld =>
      rw [hrest, Prog.follows_call] at hfollows
      cases hfollows.1
      exact ⟨c, .inr ⟨rfl, hheld⟩⟩
  | @releasing c => exact ⟨c, .inl rfl⟩

end InferenceRouter.Process
