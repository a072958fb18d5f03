import InferenceRouter.BackendPool.Ownership

/-!
# Which connections must be in good standing

The pool lends a connection again without looking at it.  So a property that a
borrower may rely on has to hold of every connection that can get into the idle
deque: those in it, those that the reaper will ping or push back, and those that
are being released with `ok`.  A connection on its way to be closed is free of
it, and so is one that a borrower has in hand.

`Standing` states this for an arbitrary property `clean` of descriptors.  `lent`
says which callers have their connection in use, `pinged` is what is known of the
connection that the reaper is pinging, and `fresh` says that no ping has begun.
The pool's own steps keep `Standing`; only borrowers, pings and dials have to
show something.
-/

namespace InferenceRouter.BackendPool

open Interleaving

/-- The steps that need no care about connections: all but calls of `release`,
results of pings, and what the rest of the process does. -/
def Event.tame : Event → Bool
  | .clock _ | .foreignOpen _ | .foreignClose _ | .release _ _ | .ping _ => false
  | _ => true

def Caller.Standing (clean : Nat → Prop) (lent : Prop) : Caller → Prop
  | .dialled fd | .created fd => clean fd
  | .held fd => lent ∨ clean fd
  | .releasing fd ok => ok = true → clean fd
  | .sampled fd closeIt => closeIt = false → clean fd
  | _ => True

def Reaper.Standing (clean pinged : Nat → Prop) (fresh : Prop) : Reaper → Prop
  | .closingVictims _ toCheck => fresh ∧ ∀ slot ∈ toCheck, clean slot.fd
  | .pinging (c :: toCheck) survivors _ =>
      pinged c.fd ∧ ∀ slot ∈ toCheck ++ survivors, clean slot.fd
  | .pinging [] survivors _ | .closingDead _ survivors | .pushBack survivors =>
      fresh ∧ ∀ slot ∈ survivors, clean slot.fd
  | .loopHead | .waiting _ | .exited => fresh

structure Standing (clean pinged lent : Nat → Prop) (fresh : Prop) (idle : List Slot)
    (reaper : Reaper) (callers : List Caller) : Prop where
  idle : ∀ slot ∈ idle, clean slot.fd
  reaper : reaper.Standing clean pinged fresh
  callers : ∀ (c : Nat) (caller : Caller), callers[c]? = some caller →
    caller.Standing clean (lent c)

section Standing

variable {clean clean' pinged pinged' lent : Nat → Prop} {fresh fresh' : Prop} {idle : List Slot}
  {reaper : Reaper} {callers callers' : List Caller}

theorem Caller.Standing.imp {caller : Caller} {lent lent' : Prop} (h : caller.Standing clean lent)
    (hclean : ∀ fd ∈ caller.fds, clean fd → clean' fd)
    (hlent : ∀ fd, caller = .held fd → lent → lent') : caller.Standing clean' lent' := by
  cases caller with
  | dialled fd | created fd => exact hclean fd (by simp [Caller.fds]) h
  | held fd => exact Or.imp (hlent fd rfl) (hclean fd (by simp [Caller.fds])) h
  | releasing fd ok => exact fun hok => hclean fd (by simp [Caller.fds]) (h hok)
  | sampled fd closeIt => exact fun hkeep => hclean fd (by simp [Caller.fds]) (h hkeep)
  | entered | asleep | notified | spurious | dialing | dialFailed | closing | released | failed =>
      trivial

theorem Reaper.Standing.imp (h : reaper.Standing clean pinged fresh)
    (hclean : ∀ slot ∈ reaper.slots, clean slot.fd → clean' slot.fd)
    (hpinged : ∀ slot ∈ reaper.slots, pinged slot.fd → pinged' slot.fd)
    (hfresh : fresh → fresh') : reaper.Standing clean' pinged' fresh' := by
  have hall : ∀ {slots : List Slot}, (∀ slot ∈ slots, slot ∈ reaper.slots) →
      (∀ slot ∈ slots, clean slot.fd) → ∀ slot ∈ slots, clean' slot.fd := by
    intro slots hslots hall slot hslot
    exact hclean slot (hslots slot hslot) (hall slot hslot)
  cases reaper with
  | loopHead | waiting | exited => exact hfresh h
  | closingVictims victims toCheck =>
      exact ⟨hfresh h.1, hall (fun slot hslot => List.mem_append_right _ hslot) h.2⟩
  | pinging toCheck survivors dead =>
      cases toCheck with
      | nil =>
          refine ⟨hfresh h.1, hall ?_ h.2⟩
          intro slot hslot
          exact List.mem_append_right _ (List.mem_append_left _ hslot)
      | cons c toCheck =>
          refine ⟨hpinged c List.mem_cons_self h.1, hall ?_ h.2⟩
          intro slot hslot
          rcases List.mem_append.mp hslot with hslot | hslot
          · exact List.mem_cons_of_mem _ (List.mem_append_left _ hslot)
          · exact List.mem_cons_of_mem _
              (List.mem_append_right _ (List.mem_append_left _ hslot))
  | closingDead dead survivors =>
      exact ⟨hfresh h.1, hall (fun slot hslot => List.mem_append_right _ hslot) h.2⟩
  | pushBack survivors => exact ⟨hfresh h.1, hall (fun slot hslot => hslot) h.2⟩

/-- A caller goes on, in good standing. -/
theorem Standing.setCaller (h : Standing clean pinged lent fresh idle reaper callers) {i : Nat}
    {c : Caller} (c' : Caller) (hi : callers[i]? = some c) (hc' : c'.Standing clean (lent i)) :
    Standing clean pinged lent fresh idle reaper (callers.set i c') where
  idle := h.idle
  reaper := h.reaper
  callers := by
    intro k caller hk
    rw [getElem?_set_eq c' hi] at hk
    split at hk
    next heq =>
      cases hk
      rw [heq]
      exact hc'
    next => exact h.callers k caller hk

theorem borrowCv_standing_wake {c : Caller} (h : borrowCv.asleep c = true) (lent : Prop) :
    (borrowCv.wake c).Standing clean lent := by
  obtain ⟨d, rfl, hwake⟩ := borrowCv_wake h
  rw [hwake]
  trivial

theorem Standing.notifyOne (h : Standing clean pinged lent fresh idle reaper callers)
    (hn : borrowCv.NotifiesOne callers callers') :
    Standing clean pinged lent fresh idle reaper callers' where
  idle := h.idle
  reaper := h.reaper
  callers := by
    intro k caller hk
    rcases hn.getElem?_inv hk with hk | ⟨c, hc, hasleep, rfl⟩
    · exact h.callers k caller hk
    · exact borrowCv_standing_wake hasleep _

theorem Standing.notifyAll (h : Standing clean pinged lent fresh idle reaper callers) :
    Standing clean pinged lent fresh idle reaper (borrowCv.notifyAll callers) where
  idle := h.idle
  reaper := h.reaper
  callers := by
    intro k caller hk
    rw [CondVar.getElem?_notifyAll] at hk
    obtain ⟨c, hc, rfl⟩ := Option.map_eq_some_iff.mp hk
    split
    next hasleep => exact borrowCv_standing_wake hasleep _
    next => exact h.callers k c hc

theorem Standing.setReaper (h : Standing clean pinged lent fresh idle reaper callers) {r : Reaper}
    (hr : r.Standing clean pinged fresh) : Standing clean pinged lent fresh idle r callers :=
  ⟨h.idle, hr, h.callers⟩

/-- Connections in good standing join the idle ones. -/
theorem Standing.push (h : Standing clean pinged lent fresh idle reaper callers)
    {slots : List Slot} (hslots : ∀ slot ∈ slots, clean slot.fd) :
    Standing clean pinged lent fresh (idle ++ slots) reaper callers where
  idle := by
    intro slot hslot
    rcases List.mem_append.mp hslot with hslot | hslot
    · exact h.idle slot hslot
    · exact hslots slot hslot
  reaper := h.reaper
  callers := h.callers

end Standing

/-! ## The pool's own steps -/

variable {o : Options} {s s' : State} {e : Event} {clean pinged lent : Nat → Prop} {fresh : Prop}

def State.Standing (clean pinged lent : Nat → Prop) (fresh : Prop) (s : State) : Prop :=
  BackendPool.Standing clean pinged lent fresh s.idle s.reaper s.callers

/-- A step of the pool keeps everything in good standing, if a connection that it
dials is, and if a ping has not begun where the reaper starts one. -/
theorem standing_step (h : Step o s e s') (htame : e.tame = true)
    (hdial : ∀ i fd, e = .dialOk i fd → clean fd)
    (hping : fresh → ∀ fd, clean fd → pinged fd) (hs : s.Standing clean pinged lent fresh) :
    s'.Standing clean pinged lent fresh := by
  have hreaper := hs.reaper
  cases h with
  | clock | foreignOpen | foreignClose | release | pingOk | pingFail => cases htame
  | shutdownAgain | shutdown | shutdownUnlock | shutdownReturn => exact hs
  | borrow =>
      refine ⟨hs.idle, hs.reaper, ?_⟩
      intro c caller hc
      rcases getElem?_append_single hc with hc | ⟨-, rfl⟩
      · exact hs.callers c caller hc
      · trivial
  | borrowAbort hi | borrowDial hi | borrowSleep hi | borrowTimeout hi | borrowSpurious hi
  | dialFail hi => exact hs.setCaller _ hi trivial
  | borrowIdle hi _ _ _ hidle =>
      have hslot : clean _ := hs.idle _ (hidle ▸ List.mem_cons_self)
      refine Standing.setCaller ⟨?_, hs.reaper, hs.callers⟩ _ hi (.inr hslot)
      intro slot' hslot'
      exact hs.idle slot' (hidle ▸ List.mem_cons_of_mem _ hslot')
  | dialOk hi =>
      have hclean := hdial _ _ rfl
      refine hs.setCaller _ hi ?_
      split
      next => exact hclean
      next => exact .inr hclean
  | dialFailLock hi _ hcallers =>
      exact (Standing.setCaller hs (.failed .dial) hi trivial).notifyOne hcallers
  | @releaseDrop i fd _ _ hi _ hcallers =>
      exact (Standing.setCaller hs (.closing fd) hi trivial).notifyOne hcallers
  | incPoolCreate hi =>
      have hclean : clean _ := hs.callers _ _ hi
      exact hs.setCaller _ hi hclean
  | incPoolBorrow hi =>
      have hclean : clean _ := hs.callers _ _ hi
      exact hs.setCaller _ hi (.inr hclean)
  | sample hi =>
      have hrelease := hs.callers _ _ hi
      refine hs.setCaller _ hi ?_
      intro hkeep
      simp only [Bool.or_eq_false_iff, Bool.not_eq_false'] at hkeep
      exact hrelease hkeep.1
  | releaseKeep hi _ hcallers =>
      have hclean : clean _ := hs.callers _ _ hi rfl
      refine ((Standing.setCaller hs .released hi trivial).notifyOne hcallers).push ?_
      intro slot hslot
      rw [List.mem_singleton.mp hslot]
      exact hclean
  | releaseClose hi => exact hs.setCaller _ hi trivial
  | shutdownClose _ hidle =>
      refine ⟨?_, hs.reaper, hs.callers⟩
      intro slot' hslot'
      exact hs.idle slot' (hidle ▸ List.mem_cons_of_mem _ hslot')
  | shutdownNotify => exact Standing.notifyAll hs
  | reaperExit _ _ hpc =>
      rcases hpc with hpc | ⟨d, hpc⟩
      · rw [hpc] at hreaper
        exact Standing.setReaper hs hreaper
      · rw [hpc] at hreaper
        exact Standing.setReaper hs hreaper
  | reaperWait _ _ hpc =>
      rw [hpc] at hreaper
      exact Standing.setReaper hs hreaper
  | sweep _ _ hpc =>
      rw [hpc] at hreaper
      have hrest : ∀ slot ∈ s.idle.filter (fun slot => !slot.expired o s.now), clean slot.fd :=
        fun slot hslot => hs.idle slot (List.mem_filter.mp hslot).1
      refine ⟨?_, ⟨hreaper, ?_⟩, hs.callers⟩
      · intro slot hslot
        simp only [State.sweep] at hslot
        split at hslot
        next => cases hslot
        next => exact hrest slot hslot
      · intro slot hslot
        split at hslot
        next => exact hrest slot hslot
        next => cases hslot
  | pushBack _ hpc =>
      rw [hpc] at hreaper
      exact Standing.setReaper (Standing.push hs hreaper.2) hreaper.1
  | closeVictim hpc =>
      rw [hpc] at hreaper
      exact Standing.setReaper hs hreaper
  | victimsClosed hpc =>
      rw [hpc] at hreaper
      exact Standing.setReaper hs hreaper.1
  | @startPings toCheck hpc =>
      rw [hpc] at hreaper
      refine Standing.setReaper hs ?_
      cases toCheck with
      | nil => exact ⟨hreaper.1, by simp⟩
      | cons c toCheck =>
          refine ⟨hping hreaper.1 _ (hreaper.2 c List.mem_cons_self), ?_⟩
          intro slot hslot
          rw [List.append_nil] at hslot
          exact hreaper.2 slot (List.mem_cons_of_mem _ hslot)
  | pingsDone hpc =>
      rw [hpc] at hreaper
      exact Standing.setReaper hs hreaper
  | closeDead hpc =>
      rw [hpc] at hreaper
      exact Standing.setReaper hs hreaper
  | deadClosed hpc =>
      rw [hpc] at hreaper
      exact Standing.setReaper hs hreaper

/-- The result of a ping: a survivor has to be in good standing. -/
theorem standing_ping {ok : Bool} (h : Step o s (.ping ok) s') {c : Slot}
    {toCheck survivors dead : List Slot} (hpc : s.reaper = .pinging (c :: toCheck) survivors dead)
    (hok : ok = true → clean c.fd) (hfresh : fresh) (hping : ∀ fd, clean fd → pinged fd)
    {pinged₀ : Nat → Prop} {fresh₀ : Prop} (hs : s.Standing clean pinged₀ lent fresh₀) :
    s'.Standing clean pinged lent fresh := by
  have hreaper := hs.reaper
  rw [hpc] at hreaper
  -- The reaper turns to the next connection, or it is done.
  have hnext : ∀ survivors' dead', (∀ slot ∈ survivors', clean slot.fd) →
      (Reaper.pinging toCheck survivors' dead').Standing clean pinged fresh := by
    intro survivors' dead' hsurvivors
    cases toCheck with
    | nil => exact ⟨hfresh, hsurvivors⟩
    | cons c' toCheck =>
        refine ⟨hping _ (hreaper.2 c' List.mem_cons_self), ?_⟩
        intro slot hslot
        rcases List.mem_append.mp hslot with hslot | hslot
        · exact hreaper.2 slot (List.mem_append_left _ (List.mem_cons_of_mem _ hslot))
        · exact hsurvivors slot hslot
  have hold : ∀ slot ∈ survivors, clean slot.fd :=
    fun slot hslot => hreaper.2 slot (List.mem_append_right _ hslot)
  cases h with
  | pingOk hpc' =>
      rw [hpc] at hpc'
      cases hpc'
      refine ⟨hs.idle, hnext _ _ ?_, hs.callers⟩
      intro slot hslot
      rcases List.mem_append.mp hslot with hslot | hslot
      · exact hold slot hslot
      · rw [List.mem_singleton.mp hslot]
        exact hok rfl
  | pingFail hpc' =>
      rw [hpc] at hpc'
      cases hpc'
      exact ⟨hs.idle, hnext _ _ hold, hs.callers⟩

/-! ## What a borrower keeps -/

/-- A borrower's connection stays in its hands. -/
theorem held_step (h : Step o s e s') (htame : e.tame = true) {k fd : Nat}
    (hk : s.callers[k]? = some (.held fd)) : s'.callers[k]? = some (.held fd) := by
  have hset : ∀ {i : Nat} {c : Caller} (c' : Caller), s.callers[i]? = some c →
      c ≠ .held fd → (s.callers.set i c')[k]? = some (.held fd) := by
    intro i c c' hi hc
    rw [getElem?_set_eq c' hi, if_neg ?_, hk]
    rintro rfl
    rw [hi, Option.some.injEq] at hk
    exact hc hk
  have hatLock : ∀ {c : Caller} {d : Int}, c.atLock = some d → c ≠ .held fd := by
    rintro c d hd rfl
    cases hd
  have hinWait : ∀ {c : Caller} {d : Int}, c.inWait = some d → c ≠ .held fd := by
    rintro c d hd rfl
    cases hd
  cases h with
  | clock | foreignOpen | foreignClose | release | pingOk | pingFail => cases htame
  | shutdownAgain | shutdown | shutdownUnlock | shutdownReturn | shutdownClose | reaperExit
  | reaperWait | sweep | pushBack | closeVictim | victimsClosed | startPings | pingsDone | closeDead
  | deadClosed => exact hk
  | borrow => exact (List.getElem?_append_left (lt_of_getElem? hk)).trans hk
  | borrowAbort hi hd | borrowIdle hi hd | borrowDial hi hd | borrowSleep hi hd =>
      exact hset _ hi (hatLock hd)
  | borrowTimeout hi hd => exact hset _ hi (hinWait hd)
  | borrowSpurious hi | dialOk hi | dialFail hi | incPoolCreate hi | incPoolBorrow hi | sample hi
  | releaseClose hi => exact hset _ hi (by simp)
  | dialFailLock hi _ hcallers | releaseKeep hi _ hcallers | releaseDrop hi _ hcallers =>
      exact hcallers.getElem?_eq (hset _ hi (by simp)) rfl
  | shutdownNotify => rw [CondVar.getElem?_notifyAll, hk]; rfl

theorem length_callers_step (h : Step o s e s') (htame : e.tame = true) :
    s.callers.length ≤ s'.callers.length := by
  cases h with
  | clock | foreignOpen | foreignClose | release | pingOk | pingFail => cases htame
  | shutdownAgain | shutdown | shutdownUnlock | shutdownReturn | shutdownClose | reaperExit
  | reaperWait | sweep | pushBack | closeVictim | victimsClosed | startPings | pingsDone | closeDead
  | deadClosed => exact Nat.le_refl _
  | borrow => simp
  | borrowAbort | borrowIdle | borrowDial | borrowSleep | borrowTimeout | borrowSpurious | dialOk
  | dialFail | incPoolCreate | incPoolBorrow | sample | releaseClose =>
      exact Nat.le_of_eq List.length_set.symm
  | dialFailLock _ _ hcallers | releaseKeep _ _ hcallers | releaseDrop _ _ hcallers =>
      rw [hcallers.length_eq, List.length_set]
  | shutdownNotify => exact Nat.le_of_eq (CondVar.length_notifyAll _).symm

/-! ## Places -/

theorem mem_owned_of_idle {slot : Slot} (h : slot ∈ s.idle) : slot.fd ∈ s.owned := by
  have hmem : slot.fd ∈ fdsOf s.idle := Multiset.mem_coe.mpr (List.mem_map_of_mem h)
  simp [State.owned, hmem]

theorem mem_owned_of_reaper {slot : Slot} (h : slot ∈ s.reaper.slots) : slot.fd ∈ s.owned := by
  have hmem : slot.fd ∈ fdsOf s.reaper.slots := Multiset.mem_coe.mpr (List.mem_map_of_mem h)
  simp [State.owned, hmem]

theorem mem_total_fds {callers : List Caller} {caller : Caller} (h : caller ∈ callers) {fd : Nat}
    (hfd : fd ∈ caller.fds) : fd ∈ total Caller.fds callers := by
  induction callers with
  | nil => cases h
  | cons c callers ih =>
      rw [total_cons, Multiset.mem_add]
      rcases List.mem_cons.mp h with rfl | h
      · exact .inl hfd
      · exact .inr (ih h)

theorem mem_owned_of_caller {c fd : Nat} {caller : Caller} (h : s.callers[c]? = some caller)
    (hfd : fd ∈ caller.fds) : fd ∈ s.owned := by
  have hmem := mem_total_fds (List.mem_of_getElem? h) hfd
  simp [State.owned, hmem]

/-- A borrower's connection is nowhere else. -/
theorem held_elsewhere (hnodup : s.owned.Nodup) {c fd : Nat}
    (hc : s.callers[c]? = some (.held fd)) :
    (∀ slot ∈ s.idle, slot.fd ≠ fd) ∧ (∀ slot ∈ s.reaper.slots, slot.fd ≠ fd) ∧
      ∀ (c' : Nat) (caller : Caller), s.callers[c']? = some caller → c' ≠ c →
        ∀ fd' ∈ caller.fds, fd' ≠ fd := by
  -- Without the borrower's own, the pool has no such descriptor.
  let others : State := { s with callers := s.callers.set c .released }
  have hlose := total_fds_lose .released hc rfl rfl
  have hothers : fd ∉ others.owned := by
    have howned : s.owned = {fd} + others.owned := by
      simp only [State.owned, others, ← hlose]
      abel
    rw [howned, Multiset.singleton_add, Multiset.nodup_cons] at hnodup
    exact hnodup.1
  refine ⟨?_, ?_, ?_⟩
  · rintro slot hslot rfl
    exact hothers (mem_owned_of_idle hslot)
  · rintro slot hslot rfl
    exact hothers (mem_owned_of_reaper hslot)
  · rintro c' caller hc' hne fd' hfd' rfl
    refine hothers (@mem_owned_of_caller others c' _ caller ?_ hfd')
    show (s.callers.set c .released)[c']? = some caller
    rw [getElem?_set_eq _ hc, if_neg hne, hc']

/-- The connection that the reaper pings is nowhere else. -/
theorem pinged_elsewhere (hnodup : s.owned.Nodup) {slot : Slot} {toCheck survivors dead : List Slot}
    (hpc : s.reaper = .pinging (slot :: toCheck) survivors dead) :
    (∀ slot' ∈ s.idle, slot'.fd ≠ slot.fd) ∧
      (∀ slot' ∈ toCheck ++ (survivors ++ dead), slot'.fd ≠ slot.fd) ∧
      ∀ (c : Nat) (caller : Caller), s.callers[c]? = some caller →
        ∀ fd ∈ caller.fds, fd ≠ slot.fd := by
  let others : State := { s with reaper := .pinging toCheck survivors dead }
  have hothers : slot.fd ∉ others.owned := by
    have howned : s.owned = {slot.fd} + others.owned := by
      simp only [State.owned, others, hpc, Reaper.slots, List.cons_append, fdsOf_cons]
      abel
    rw [howned, Multiset.singleton_add, Multiset.nodup_cons] at hnodup
    exact hnodup.1
  refine ⟨?_, ?_, ?_⟩
  · intro slot' hslot' heq
    exact hothers (heq ▸ mem_owned_of_idle hslot')
  · intro slot' hslot' heq
    exact hothers (heq ▸ mem_owned_of_reaper (s := others) hslot')
  · rintro c caller hc fd hfd rfl
    exact hothers (mem_owned_of_caller hc hfd)

/-! ## Changes of the condition -/

section Imp

variable {clean' pinged' lent' : Nat → Prop} {fresh' : Prop}

/-- What is known of the connections changes, but stays good where it must be. -/
theorem State.Standing.imp (h : s.Standing clean pinged lent fresh)
    (hclean : ∀ fd ∈ s.owned, clean fd → clean' fd)
    (hpinged : ∀ fd ∈ s.owned, pinged fd → pinged' fd)
    (hlent : ∀ c fd, s.callers[c]? = some (.held fd) → lent c → lent' c)
    (hfresh : fresh → fresh') : s.Standing clean' pinged' lent' fresh' where
  idle slot hslot := hclean _ (mem_owned_of_idle hslot) (h.idle slot hslot)
  reaper := h.reaper.imp (fun _ hslot => hclean _ (mem_owned_of_reaper hslot))
    (fun _ hslot => hpinged _ (mem_owned_of_reaper hslot)) hfresh
  callers c caller hc := (h.callers c caller hc).imp
    (fun _ hfd => hclean _ (mem_owned_of_caller hc hfd)) (fun fd hheld => hlent c fd (hheld ▸ hc))

/-- A borrower uses its connection. -/
theorem State.Standing.imp_held (h : s.Standing clean pinged lent fresh) (hnodup : s.owned.Nodup)
    {c fd : Nat} (hc : s.callers[c]? = some (.held fd)) (hlent : lent c)
    (hclean : ∀ fd' ∈ s.owned, fd' ≠ fd → clean fd' → clean' fd')
    (hpinged : ∀ fd' ∈ s.owned, fd' ≠ fd → pinged fd' → pinged' fd') :
    s.Standing clean' pinged' lent fresh := by
  obtain ⟨hidle, hreaper, hcallers⟩ := held_elsewhere hnodup hc
  refine ⟨?_, ?_, ?_⟩
  · intro slot hslot
    exact hclean _ (mem_owned_of_idle hslot) (hidle slot hslot) (h.idle slot hslot)
  · exact h.reaper.imp (fun slot hslot => hclean _ (mem_owned_of_reaper hslot) (hreaper slot hslot))
      (fun slot hslot => hpinged _ (mem_owned_of_reaper hslot) (hreaper slot hslot)) id
  · intro c' caller hc'
    by_cases heq : c' = c
    · subst heq
      rw [hc, Option.some.injEq] at hc'
      subst hc'
      exact .inl hlent
    · refine (h.callers c' caller hc').imp ?_ (fun _ _ => id)
      intro fd' hfd'
      exact hclean _ (mem_owned_of_caller hc' hfd') (hcallers c' caller hc' heq fd' hfd')

/-- The reaper uses the connection that it pings. -/
theorem State.Standing.imp_pinged (h : s.Standing clean pinged lent fresh) (hnodup : s.owned.Nodup)
    {slot : Slot} {toCheck survivors dead : List Slot}
    (hpc : s.reaper = .pinging (slot :: toCheck) survivors dead)
    (hclean : ∀ fd ∈ s.owned, fd ≠ slot.fd → clean fd → clean' fd) (hslot : pinged' slot.fd) :
    s.Standing clean' pinged' lent fresh' := by
  obtain ⟨hidle, hreaper, hcallers⟩ := pinged_elsewhere hnodup hpc
  have hslots : ∀ slot' ∈ toCheck ++ (survivors ++ dead), slot'.fd ∈ s.owned := by
    intro slot' hslot'
    apply mem_owned_of_reaper
    rw [hpc]
    exact List.mem_cons_of_mem _ hslot'
  refine ⟨?_, ?_, ?_⟩
  · intro slot' hslot'
    exact hclean _ (mem_owned_of_idle hslot') (hidle slot' hslot') (h.idle slot' hslot')
  · have hstanding := h.reaper
    rw [hpc] at hstanding ⊢
    refine ⟨hslot, ?_⟩
    intro slot' hslot'
    have hmem : slot' ∈ toCheck ++ (survivors ++ dead) := by
      rw [← List.append_assoc]
      exact List.mem_append_left _ hslot'
    exact hclean _ (hslots slot' hmem) (hreaper slot' hmem) (hstanding.2 slot' hslot')
  · intro c caller hc
    exact (h.callers c caller hc).imp
      (fun fd hfd => hclean _ (mem_owned_of_caller hc hfd) (hcallers c caller hc fd hfd))
      (fun _ _ => id)

end Imp

/-! ## The descriptor table -/

section Ledger

variable {owned : Multiset Nat} {table : Nat → Option File} {dials : Nat} {closed : List Nat}

theorem conn_eq {fd n : Nat} (h : table fd = some (.backend n)) : conn table fd = n := by
  simp [conn, h]

/-- The connections have the numbers of their dials. -/
theorem Ledger.conn_lt (h : Ledger owned table dials closed) {fd n : Nat} (hfd : fd ∈ owned)
    (hn : table fd = some (.backend n)) : n < dials := by
  have hmem : n ∈ Multiset.range dials := by
    rw [← h.conns]
    exact Multiset.mem_add.mpr (.inr (Multiset.mem_map.mpr ⟨fd, hfd, conn_eq hn⟩))
  exact Multiset.mem_range.mp hmem

/-- Two descriptors of the pool name two connections. -/
theorem Ledger.conn_inj (h : Ledger owned table dials closed) {fd fd' n : Nat} (hfd : fd ∈ owned)
    (hfd' : fd' ∈ owned) (hn : table fd = some (.backend n)) (hn' : table fd' = some (.backend n)) :
    fd = fd' := by
  have hnodup := Multiset.nodup_range dials
  rw [← h.conns] at hnodup
  have hmap := (Multiset.nodup_add.mp hnodup).2.1
  exact Multiset.inj_on_of_nodup_map hmap fd hfd fd' hfd' ((conn_eq hn).trans (conn_eq hn').symm)

end Ledger

/-- The files of others stay as they are. -/
theorem other_step (h : Step o s e s') (htame : e.tame = true) (hl : s.Ledger) {fd : Nat}
    (hfd : s.table fd = some .other) : s'.table fd = some .other := by
  -- What the pool closes is a connection of its own.
  have hclose : ∀ {fd' : Nat}, fd' ∈ s.owned → (s.closeFd fd').table fd = some .other := by
    intro fd' howned
    have hne : fd ≠ fd' := by
      rintro rfl
      obtain ⟨n, hn⟩ := hl.1.isOpen fd howned
      rw [hfd] at hn
      cases hn
    show Function.update s.table fd' none fd = some .other
    rw [Function.update_of_ne hne, hfd]
  cases h with
  | clock | foreignOpen | foreignClose | release | pingOk | pingFail => cases htame
  | releaseClose hi => exact hclose (mem_owned_of_caller hi (by simp [Caller.fds]))
  | shutdownClose _ hidle => exact hclose (mem_owned_of_idle (hidle ▸ List.mem_cons_self))
  | closeVictim hpc | closeDead hpc =>
      exact hclose (mem_owned_of_reaper (by rw [hpc]; exact List.mem_cons_self))
  | @dialOk i fd' _ hfree =>
      show Function.update s.table fd' (some (.backend s.dials)) fd = some .other
      rw [Function.update_of_ne, hfd]
      rintro rfl
      rw [hfd] at hfree
      cases hfree
  | borrow | borrowAbort | borrowIdle | borrowDial | borrowSleep | borrowTimeout | borrowSpurious
  | dialFail | dialFailLock | incPoolCreate | incPoolBorrow | sample | releaseKeep | releaseDrop
  | shutdownAgain | shutdown | shutdownUnlock | shutdownNotify | shutdownReturn | reaperExit
  | reaperWait | sweep | pushBack | victimsClosed | startPings | pingsDone | deadClosed => exact hfd

end InferenceRouter.BackendPool
