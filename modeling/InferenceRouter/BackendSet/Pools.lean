import InferenceRouter.BackendSet.Accounting

/-!
# The pools inside the set

Two facts connect the set with `BackendPool.Model`.

*Entries.*  A caller of the set that is inside a pool, or holds a handle, has an entry
among the callers of that pool, and nobody else has the same one.  `Linked` says what
the entry is like, and that no entry which still has something to do is without its
caller.

*Pools.*  What pool `i` sees of the state of the set is a reachable state of the pool's
own machine (`reachable_view`).  A step of another pool shows to it as a file that
somebody else opened or closed.  So all that is known of `BackendPool.machine` holds of
every pool in the set.
-/

namespace InferenceRouter.BackendSet

open Interleaving Handler
open BackendPool (Phase)

variable {cfg : Config} {s s' : State} {e : Event}

/-! ## Entries -/

/-- The entry of a caller: the pool and the position among its callers. -/
def Caller.ticket : Caller → Option (Nat × Nat)
  | .borrowing i k | .borrowed i k _ => some (i, k)
  | .held h k | .releasing h k => some (h.poolIndex, k)
  | _ => none

/-- What a caller's entry is like. -/
def Caller.Expects : Caller → Phase → Prop
  | .borrowing _ _, p => Phase.Leads .borrowing p
  | .borrowed _ _ fd, p => p = .held fd
  | .held h _, p => p = .held h.fd.toNat
  | .releasing _ _, p => Phase.Leads .releasing p
  | _, _ => True

theorem Caller.Expects.leads {c : Caller} {p q : Phase} (h : c.Expects p) (hpq : p.Leads q) :
    c.Expects q := by
  cases c with
  | borrowing | releasing => cases p <;> cases q <;> simp_all [Expects, Phase.Leads]
  | borrowed | held =>
      have h : p = _ := h
      subst h
      exact (show _ = q from hpq).symm
  | entered | locked | picking | picked | refused | released | returned | failed => trivial

/-- The entry has nothing left to do. -/
def Finished (p : Phase) : Prop := p = .released ∨ p = .failed

theorem Finished.leads {p q : Phase} (h : Finished p) (hpq : p.Leads q) : Finished q := by
  rcases h with rfl | rfl
  · exact .inl (show _ = q from hpq).symm
  · exact .inr (show _ = q from hpq).symm

structure Linked (s : State) : Prop where
  entries : ∀ (c : Nat) (caller : Caller) (i k : Nat), s.callers[c]? = some caller →
    caller.ticket = some (i, k) → ∃ a, s.entry i k = some a ∧ caller.Expects a.phase
  unique : ∀ (c c' : Nat) (caller caller' : Caller) (t : Nat × Nat),
    s.callers[c]? = some caller → s.callers[c']? = some caller' → caller.ticket = some t →
    caller'.ticket = some t → c = c'
  covered : ∀ i k a, s.entry i k = some a → ¬ Finished a.phase →
    ∃ (c : Nat) (caller : Caller), s.callers[c]? = some caller ∧ caller.ticket = some (i, k)

theorem entry_eq_some {i k : Nat} {a : BackendPool.Caller} :
    s.entry i k = some a ↔ ∃ p, s.pools[i]? = some p ∧ p.callers[k]? = some a := by
  rw [State.entry, Option.bind_eq_some_iff]

/-- The entries of both states are the same ones, further along. -/
def Forward (s s' : State) : Prop :=
  (∀ i k a, s.entry i k = some a → ∃ a', s'.entry i k = some a' ∧ a.phase.Leads a'.phase) ∧
    ∀ i k a', s'.entry i k = some a' → ∃ a, s.entry i k = some a ∧ a.phase.Leads a'.phase

theorem Forward.of_pools (h : s'.pools = s.pools) : Forward s s' := by
  constructor
  · intro i k a ha
    exact ⟨a, by rw [State.entry, h]; exact ha, .refl _⟩
  · intro i k a ha
    exact ⟨a, by rw [State.entry, ← h]; exact ha, .refl _⟩

/-- A pool whose callers have advanced. -/
theorem Forward.putPool {i : Nat} {p : BackendPool.Pool} {v : BackendPool.State}
    (hp : s.pools[i]? = some p) (h : BackendPool.Advances p.callers v.callers)
    (hpools : s'.pools = s.pools.set i v.toPool) : Forward s s' := by
  constructor
  · intro j k a ha
    obtain ⟨q, hq, hk⟩ := entry_eq_some.mp ha
    by_cases hji : j = i
    · subst hji
      rw [hp, Option.some.injEq] at hq
      subst hq
      obtain ⟨a', ha', hleads⟩ := h.2 k a hk
      refine ⟨a', entry_eq_some.mpr ⟨v.toPool, ?_, ha'⟩, hleads⟩
      rw [hpools, getElem?_set_eq _ hp, if_pos rfl]
    · refine ⟨a, entry_eq_some.mpr ⟨q, ?_, hk⟩, .refl _⟩
      rw [hpools, getElem?_set_eq _ hp, if_neg hji, hq]
  · intro j k a' ha'
    obtain ⟨q, hq, hk⟩ := entry_eq_some.mp ha'
    rw [hpools, getElem?_set_eq _ hp] at hq
    split at hq
    next hji =>
      subst hji
      cases hq
      have hlt : k < p.callers.length := h.1 ▸ lt_of_getElem? hk
      obtain ⟨b, hb, hleads⟩ := h.2 k _ (List.getElem?_eq_getElem hlt)
      rw [hk, Option.some.injEq] at hb
      subst hb
      exact ⟨_, entry_eq_some.mpr ⟨p, hp, List.getElem?_eq_getElem hlt⟩, hleads⟩
    next => exact ⟨a', entry_eq_some.mpr ⟨q, hq, hk⟩, .refl _⟩

/-- Entries move on while the callers of the set stay. -/
theorem Linked.forward (h : Linked s) (hf : Forward s s') (hcallers : s'.callers = s.callers) :
    Linked s' := by
  refine ⟨?_, ?_, ?_⟩
  · intro c caller i k hc ht
    rw [hcallers] at hc
    obtain ⟨a, ha, hexp⟩ := h.entries c caller i k hc ht
    obtain ⟨a', ha', hleads⟩ := hf.1 i k a ha
    exact ⟨a', ha', hexp.leads hleads⟩
  · rw [hcallers]
    exact h.unique
  · intro i k a' ha' hnot
    obtain ⟨a, ha, hleads⟩ := hf.2 i k a' ha'
    rw [hcallers]
    exact h.covered i k a ha (fun hfin => hnot (hfin.leads hleads))

/-- A caller goes on with the same entry, or without it once the entry is finished. -/
theorem Linked.setCaller (h : Linked s) {c : Nat} {a : Caller} (b : Caller)
    (hc : s.callers[c]? = some a) (hpools : s'.pools = s.pools)
    (hcallers : s'.callers = s.callers.set c b)
    (hkeep : ∀ i k x, b.ticket = some (i, k) → a.ticket = some (i, k) ∧
      (s.entry i k = some x → a.Expects x.phase → b.Expects x.phase))
    (hdrop : ∀ i k x, a.ticket = some (i, k) → s.entry i k = some x →
      b.ticket = some (i, k) ∨ Finished x.phase) : Linked s' := by
  have hentry : ∀ i k, s'.entry i k = s.entry i k := by
    intro i k
    rw [State.entry, State.entry, hpools]
  have hget : ∀ d, s'.callers[d]? = if d = c then some b else s.callers[d]? := by
    intro d
    rw [hcallers, getElem?_set_eq b hc]
  -- The tickets in use are among the old ones.
  have hold : ∀ (d : Nat) (caller : Caller) (t : Nat × Nat), s'.callers[d]? = some caller →
      caller.ticket = some t →
      ∃ caller' : Caller, s.callers[d]? = some caller' ∧ caller'.ticket = some t := by
    intro d caller t hd ht
    rw [hget] at hd
    split at hd
    next heq =>
      cases hd
      subst heq
      obtain ⟨i, k⟩ := t
      exact ⟨a, hc, (hkeep i k (.failed .dial) ht).1⟩
    next => exact ⟨caller, hd, ht⟩
  refine ⟨?_, ?_, ?_⟩
  · intro d caller i k hd ht
    rw [hentry]
    rw [hget] at hd
    split at hd
    next heq =>
      cases hd
      subst heq
      obtain ⟨x, hx, hexp⟩ := h.entries d a i k hc (hkeep i k (.failed .dial) ht).1
      exact ⟨x, hx, (hkeep i k x ht).2 hx hexp⟩
    next => exact h.entries d caller i k hd ht
  · intro d d' caller caller' t hd hd' ht ht'
    obtain ⟨x, hx, hxt⟩ := hold d caller t hd ht
    obtain ⟨x', hx', hxt'⟩ := hold d' caller' t hd' ht'
    exact h.unique d d' x x' t hx hx' hxt hxt'
  · intro i k x hx hnot
    rw [hentry] at hx
    obtain ⟨d, caller, hd, ht⟩ := h.covered i k x hx hnot
    by_cases hdc : d = c
    · subst hdc
      rw [hc, Option.some.injEq] at hd
      subst hd
      rcases hdrop i k x ht hx with hb | hfin
      · exact ⟨d, b, by rw [hget, if_pos rfl], hb⟩
      · exact absurd hfin hnot
    · exact ⟨d, caller, by rw [hget, if_neg hdc, hd], ht⟩

/-- A caller without an entry goes on without one. -/
theorem Linked.setCaller_none (h : Linked s) {c : Nat} {a : Caller} (b : Caller)
    (hc : s.callers[c]? = some a) (hpools : s'.pools = s.pools)
    (hcallers : s'.callers = s.callers.set c b) (ha : a.ticket = none) (hb : b.ticket = none) :
    Linked s' := by
  apply h.setCaller b hc hpools hcallers
  · intro i k x ht
    rw [hb] at ht
    cases ht
  · intro i k x ht
    rw [ha] at ht
    cases ht

/-- A new caller has no entry. -/
theorem Linked.append (h : Linked s) (b : Caller) (hb : b.ticket = none)
    (hpools : s'.pools = s.pools) (hcallers : s'.callers = s.callers ++ [b]) : Linked s' := by
  have hold : ∀ (d : Nat) (caller : Caller) (t : Nat × Nat), s'.callers[d]? = some caller →
      caller.ticket = some t → s.callers[d]? = some caller := by
    intro d caller t hd ht
    rw [hcallers] at hd
    rcases getElem?_append_single hd with hd | ⟨-, rfl⟩
    · exact hd
    · rw [hb] at ht
      cases ht
  refine ⟨?_, ?_, ?_⟩
  · intro d caller i k hd ht
    rw [State.entry, hpools]
    exact h.entries d caller i k (hold d caller _ hd ht) ht
  · intro d d' caller caller' t hd hd' ht ht'
    exact h.unique d d' caller caller' t (hold d caller t hd ht) (hold d' caller' t hd' ht') ht ht'
  · intro i k a ha hnot
    rw [State.entry, hpools] at ha
    obtain ⟨d, caller, hd, ht⟩ := h.covered i k a ha hnot
    refine ⟨d, caller, ?_, ht⟩
    rw [hcallers, List.getElem?_append_left (lt_of_getElem? hd), hd]

/-- A caller enters a pool, or calls its `release`: one entry is new, or set anew by its
only caller. -/
theorem Linked.setEntry (h : Linked s) {c i k : Nat} {a b : Caller} {x : BackendPool.Caller}
    (hc : s.callers[c]? = some a) (hcallers : s'.callers = s.callers.set c b)
    (ha : a.ticket = none ∨ a.ticket = some (i, k)) (hb : b.ticket = some (i, k))
    (hentry : ∀ j l, s'.entry j l = if j = i ∧ l = k then some x else s.entry j l)
    (hexp : b.Expects x.phase)
    (hfree : ∀ (d : Nat) (caller : Caller), s.callers[d]? = some caller →
      caller.ticket = some (i, k) → d = c) : Linked s' := by
  have hget : ∀ d, s'.callers[d]? = if d = c then some b else s.callers[d]? := by
    intro d
    rw [hcallers, getElem?_set_eq b hc]
  have hcases : ∀ (d : Nat) (caller : Caller) (t : Nat × Nat), s'.callers[d]? = some caller →
      caller.ticket = some t →
      (d = c ∧ caller = b ∧ t = (i, k)) ∨ (d ≠ c ∧ s.callers[d]? = some caller ∧ t ≠ (i, k)) := by
    intro d caller t hd ht
    rw [hget] at hd
    split at hd
    next heq =>
      cases hd
      rw [hb, Option.some.injEq] at ht
      exact .inl ⟨heq, rfl, ht.symm⟩
    next hne =>
      refine .inr ⟨hne, hd, ?_⟩
      rintro rfl
      exact hne (hfree d caller hd ht)
  refine ⟨?_, ?_, ?_⟩
  · intro d caller j l hd ht
    rw [hentry]
    rcases hcases d caller (j, l) hd ht with ⟨-, rfl, heq⟩ | ⟨-, hd, hne⟩
    · cases heq
      exact ⟨x, if_pos ⟨rfl, rfl⟩, hexp⟩
    · rw [if_neg (fun heq => hne (by rw [heq.1, heq.2]))]
      exact h.entries d caller j l hd ht
  · intro d d' caller caller' t hd hd' ht ht'
    rcases hcases d caller t hd ht with ⟨rfl, -, heq⟩ | ⟨-, hold, hne⟩
    · rcases hcases d' caller' t hd' ht' with ⟨rfl, -, -⟩ | ⟨-, -, hne'⟩
      · rfl
      · exact absurd heq hne'
    · rcases hcases d' caller' t hd' ht' with ⟨rfl, -, heq'⟩ | ⟨-, hold', -⟩
      · exact absurd heq' hne
      · exact h.unique d d' caller caller' t hold hold' ht ht'
  · intro j l y hy hnot
    by_cases hjl : j = i ∧ l = k
    · obtain ⟨rfl, rfl⟩ := hjl
      exact ⟨c, b, by rw [hget, if_pos rfl], hb⟩
    · rw [hentry, if_neg hjl] at hy
      obtain ⟨d, caller, hd, ht⟩ := h.covered j l y hy hnot
      have hdc : d ≠ c := by
        rintro rfl
        rw [hc, Option.some.injEq] at hd
        subst hd
        rcases ha with ha | ha
        · rw [ha] at ht
          cases ht
        · rw [ha, Option.some.injEq, Prod.mk.injEq] at ht
          exact hjl ⟨ht.1.symm, ht.2.symm⟩
      exact ⟨d, caller, by rw [hget, if_neg hdc, hd], ht⟩

/-! ## Steps of the set -/

theorem poolBorrow_callers {o : BackendPool.Options} {t v : BackendPool.State}
    (h : BackendPool.step o t .borrow = some v) :
    v.callers = t.callers ++ [.entered (t.now + o.borrowTimeout)] := by
  cases h
  rfl

theorem poolShutdown_callers {o : BackendPool.Options} {t v : BackendPool.State}
    (h : BackendPool.step o t .shutdown = some v) : v.callers = t.callers := by
  cases BackendPool.step_cases h with
  | shutdownAgain => rfl
  | shutdown => rfl

/-- The entries after a change of one pool at one position. -/
theorem entry_set {i k : Nat} {p q : BackendPool.Pool} {x : BackendPool.Caller}
    (hp : s.pools[i]? = some p) (hpools : s'.pools = s.pools.set i q)
    (hq : ∀ l, q.callers[l]? = if l = k then some x else p.callers[l]?) (j l : Nat) :
    s'.entry j l = if j = i ∧ l = k then some x else s.entry j l := by
  rw [State.entry, State.entry, hpools, getElem?_set_eq _ hp]
  by_cases hji : j = i
  · subst hji
    simp [hp, hq]
  · simp [hji]

theorem linked_step (h : Step cfg s e s') (ha : Accounted cfg s) (hl : Linked s) : Linked s' := by
  cases h with
  | clock | foreignOpen | foreignClose | shutdown | shutdownNext | shutdownReturn =>
      exact hl.forward (.of_pools rfl) rfl
  | pool hinner hp hv =>
      have hadv := BackendPool.advances_step (BackendPool.step_cases hv) hinner
      exact hl.forward (.putPool hp hadv rfl) rfl
  | @shutdownCall i p v _ hp hv =>
      have hsame := poolShutdown_callers hv
      have hadv : BackendPool.Advances p.callers v.callers := by
        rw [hsame]
        exact .refl _
      exact hl.forward (.putPool hp hadv rfl) rfl
  | borrowEmpty | borrow => exact hl.append _ rfl rfl rfl
  | pickLock hc | pickFirst hc | pickNext hc | bump hc | compensate hc | decrement hc =>
      exact hl.setCaller_none _ hc rfl rfl rfl rfl
  | @poolBorrow c i p v hc hp hv =>
      have hcallers := poolBorrow_callers hv
      refine hl.setEntry (x := .entered (s.now + cfg.shared.normalise.borrowTimeout)) hc rfl
        (.inl rfl) rfl (entry_set hp rfl ?_) trivial ?_
      · intro l
        rw [hcallers]
        exact getElem?_append_eq p.callers _ l
      · -- the position is beyond all entries
        intro d caller hd ht
        obtain ⟨x, hx, -⟩ := hl.entries d caller _ _ hd ht
        obtain ⟨q, hq, hk⟩ := entry_eq_some.mp hx
        rw [hp, Option.some.injEq] at hq
        subst hq
        exact absurd (lt_of_getElem? hk) (Nat.lt_irrefl _)
  | @poolHeld c i k fd hc hk =>
      refine hl.setCaller _ hc rfl rfl ?_ ?_
      · intro j l x ht
        refine ⟨ht, fun hx _ => ?_⟩
        cases ht
        rw [hk, Option.some.injEq] at hx
        subst hx
        rfl
      · intro j l x ht _
        exact .inl ht
  | @poolRefused c i k errno hc hk =>
      refine hl.setCaller _ hc rfl rfl ?_ ?_
      · intro j l x ht
        cases ht
      · intro j l x ht hx
        cases ht
        rw [hk, Option.some.injEq] at hx
        subst hx
        exact .inr (.inr rfl)
  | count hc =>
      refine hl.setCaller _ hc rfl rfl ?_ ?_
      · intro j l x ht
        exact ⟨ht, fun _ hexp => hexp⟩
      · intro j l x ht _
        exact .inl ht
  | releaseNothing _ hc hfd =>
      exact absurd hfd (Int.not_lt.mpr (ha.placed _ (List.mem_of_getElem? hc)).1)
  | releaseInvalid _ hc _ hindex =>
      exact absurd (ha.placed _ (List.mem_of_getElem? hc)).2 (Nat.not_lt.mpr hindex)
  | @release c k hd p ok hc _ hp =>
      obtain ⟨x, hx, -⟩ := hl.entries c _ _ _ hc rfl
      obtain ⟨q, hq, hk⟩ := entry_eq_some.mp hx
      rw [hp, Option.some.injEq] at hq
      subst hq
      refine hl.setEntry (x := .releasing hd.fd.toNat ok) hc rfl (.inr rfl) rfl
        (entry_set hp rfl (fun l => getElem?_set_eq _ hk l)) trivial ?_
      intro d caller hd' ht
      exact hl.unique d c caller _ _ hd' hc ht rfl
  | @releaseReturn c k hd hc hk =>
      refine hl.setCaller _ hc rfl rfl ?_ ?_
      · intro j l x ht
        cases ht
      · intro j l x ht hx
        cases ht
        rw [hk, Option.some.injEq] at hx
        subst hx
        exact .inr (.inl rfl)

theorem linked_init (cfg : Config) : Linked (machine cfg).init where
  entries _ _ _ _ hc := by cases hc
  unique _ _ _ _ _ hc := by cases hc
  covered i k a ha := by
    obtain ⟨p, hp, hk⟩ := entry_eq_some.mp ha
    have hempty : p = {} := List.eq_of_mem_replicate (List.mem_of_getElem? hp)
    subst hempty
    cases hk

theorem reachable_linked (h : (machine cfg).Reachable s) : Linked s :=
  h.invariant_with (fun _ => reachable_accounted) (linked_init cfg)
    (fun _ _ _ ha hl hstep => linked_step (step_cases hstep) ha hl)

/-! ## What a pool sees -/

section View

variable {i j : Nat} {p q : BackendPool.Pool} {v : BackendPool.State}

theorem viewFile_eq_backend {f : File} {n : Nat} : viewFile i f = .backend n ↔ f = .conn i n := by
  cases f with
  | conn k m =>
      simp only [viewFile]
      split
      next heq => simp [heq]
      next hne => simp [hne]
  | other => simp [viewFile]

theorem view_table_backend {fd n : Nat} :
    (s.view i p).table fd = some (.backend n) ↔ s.table fd = some (.conn i n) := by
  simp [State.view, viewFile_eq_backend]

theorem view_table_none {fd : Nat} : (s.view i p).table fd = none ↔ s.table fd = none := by
  simp [State.view]

/-- Another file at one number, as a pool sees it. -/
theorem view_update (fd : Nat) (f : Option File) :
    (State.view { s with table := Function.update s.table fd f } j q) =
      { s.view j q with
        table := Function.update (s.view j q).table fd (f.map (viewFile j)) } := by
  simp only [State.view, BackendPool.State.mk.injEq, BackendPool.Kernel.mk.injEq, and_true,
    true_and]
  funext x
  by_cases hx : x = fd
  · subst hx
    simp
  · simp [Function.update_of_ne hx]

/-- What a step of pool `i` does to the table of the set. -/
inductive Moves (i : Nat) (table : Nat → Option File) : (Nat → Option File) → Prop where
  | nothing : Moves i table table
  | opens {fd : Nat} (n : Nat) : table fd = none →
      Moves i table (Function.update table fd (some (.conn i n)))
  | closes {fd n : Nat} : table fd = some (.conn i n) →
      Moves i table (Function.update table fd none)

theorem putPool_table_eq (f : Nat → Option File)
    (hf : ∀ fd, match v.table fd with
      | some (.backend n) => f fd = some (.conn i n)
      | some .other => f fd = s.table fd
      | none => f fd = none) : (s.putPool i v).table = f := by
  funext fd
  have hfd := hf fd
  simp only [State.putPool]
  split
  next n heq =>
    rw [heq] at hfd
    exact hfd.symm
  next heq =>
    rw [heq] at hfd
    exact hfd.symm
  next heq =>
    rw [heq] at hfd
    exact hfd.symm

/-- Where the pool's table has not changed, neither has that of the set. -/
theorem view_table_cases (fd : Nat) :
    match (s.view i p).table fd with
    | some (.backend n) => s.table fd = some (.conn i n)
    | some .other => s.table fd = s.table fd
    | none => s.table fd = none := by
  split
  next heq => exact view_table_backend.mp heq
  next => rfl
  next heq => exact view_table_none.mp heq

theorem moves_of_touches (h : BackendPool.Touches (s.view i p).table v.table) :
    Moves i s.table (s.putPool i v).table := by
  have hcases := @view_table_cases s i p
  generalize hv : v.table = table at h
  cases h with
  | nothing =>
      have heq : (s.putPool i v).table = s.table := by
        apply putPool_table_eq
        rw [hv]
        exact hcases
      rw [heq]
      exact .nothing
  | @opens fd n hfree =>
      have heq : (s.putPool i v).table = Function.update s.table fd (some (.conn i n)) := by
        apply putPool_table_eq
        intro x
        rw [hv]
        by_cases hx : x = fd
        · subst hx
          simp
        · rw [Function.update_of_ne hx, Function.update_of_ne hx]
          exact hcases x
      rw [heq]
      exact .opens n (view_table_none.mp hfree)
  | @closes fd n hopen =>
      have heq : (s.putPool i v).table = Function.update s.table fd none := by
        apply putPool_table_eq
        intro x
        rw [hv]
        by_cases hx : x = fd
        · subst hx
          simp
        · rw [Function.update_of_ne hx, Function.update_of_ne hx]
          exact hcases x
      rw [heq]
      exact .closes (view_table_backend.mp hopen)

/-- The pool itself sees its step. -/
theorem view_putPool_self (h : BackendPool.Touches (s.view i p).table v.table)
    (hnow : v.now = s.now) : (s.putPool i v).view i v.toPool = v := by
  have htable : (fun fd => ((s.putPool i v).table fd).map (viewFile i)) = v.table := by
    funext fd
    simp only [State.putPool]
    split
    next n heq => simp [viewFile, heq]
    next heq =>
      -- a file of somebody else was there before
      rw [heq]
      generalize hv : v.table = table at h heq
      cases h with
      | nothing => exact heq
      | opens n hfree =>
          rw [Function.update_apply] at heq
          split at heq
          next => cases heq
          next => exact heq
      | closes hopen =>
          rw [Function.update_apply] at heq
          split at heq
          next => cases heq
          next => exact heq
    next heq => simp [heq]
  have hnow : (s.putPool i v).now = v.now := hnow.symm
  simp only [State.view, htable, hnow]

/-- Another pool sees a file opened or closed by somebody else, or nothing. -/
theorem view_putPool_other (hij : j ≠ i)
    (hq : (BackendPool.machine cfg.shared).Reachable (s.view j q))
    (h : BackendPool.Touches (s.view i p).table v.table) :
    (BackendPool.machine cfg.shared).Reachable ((s.putPool i v).view j q) := by
  have hview : ∀ {table : Nat → Option File}, (s.putPool i v).table = table →
      (s.putPool i v).view j q = State.view { s with table := table } j q := by
    intro table htable
    simp only [State.view, htable]
    rfl
  have hmoves := moves_of_touches h
  generalize htable : (s.putPool i v).table = table at hmoves
  rw [hview htable]
  cases hmoves with
  | nothing => exact hq
  | @opens fd n hfree =>
      have hother : viewFile j (.conn i n) = .other := by simp [viewFile, Ne.symm hij]
      rw [view_update, Option.map_some, hother]
      apply hq.step (e := .foreignOpen fd)
      simp only [BackendPool.machine, BackendPool.step, view_table_none.mpr hfree]
  | @closes fd n hopen =>
      have hother : (s.view j q).table fd = some .other := by
        simp [State.view, hopen, viewFile, Ne.symm hij]
      rw [view_update, Option.map_none]
      apply hq.step (e := .foreignClose fd)
      simp only [BackendPool.machine, BackendPool.step, hother]

end View

/-- Every pool is in a state that its own machine can reach. -/
def Viewed (cfg : Config) (s : State) : Prop :=
  ∀ i p, s.pools[i]? = some p → (BackendPool.machine cfg.shared).Reachable (s.view i p)

/-- A step of one pool. -/
theorem Viewed.putPool (h : Viewed cfg s) {i : Nat} {p : BackendPool.Pool}
    {v : BackendPool.State} {e : BackendPool.Event} (hp : s.pools[i]? = some p)
    (hv : BackendPool.step cfg.shared.normalise (s.view i p) e = some v)
    (hown : e.foreign = false) : Viewed cfg (s.putPool i v) := by
  intro j q hget
  have hreach := h i p hp
  have hstep := BackendPool.step_cases hv
  have htouch := BackendPool.touches_step hstep hown (BackendPool.reachable_ledger hreach)
  have hq : (if j = i then some v.toPool else s.pools[j]?) = some q := by
    rw [← getElem?_set_eq _ hp]
    exact hget
  split at hq
  next heq =>
    subst heq
    cases hq
    rw [view_putPool_self htouch (BackendPool.now_step hstep hown)]
    exact hreach.step hv
  next hne => exact view_putPool_other hne (h j q hq) htouch

theorem viewed_step (h : Step cfg s e s') (hl : Linked s) (hv : Viewed cfg s) : Viewed cfg s' := by
  cases h with
  | clock ms =>
      intro i p hp
      exact (hv i p hp).step (e := .clock ms) rfl
  | @foreignOpen fd hfree =>
      intro i p hp
      rw [view_update]
      apply (hv i p hp).step (e := .foreignOpen fd)
      simp only [BackendPool.machine, BackendPool.step, view_table_none.mpr hfree]
      rfl
  | @foreignClose fd hother =>
      intro i p hp
      have hother : (s.view i p).table fd = some .other := by simp [State.view, hother, viewFile]
      rw [view_update]
      apply (hv i p hp).step (e := .foreignClose fd)
      simp only [BackendPool.machine, BackendPool.step, hother]
      rfl
  | @pool i e p v hinner hp hstep =>
      apply hv.putPool hp hstep
      cases e <;> first | rfl | cases hinner
  | poolBorrow _ hp hstep => exact hv.putPool hp hstep rfl
  | shutdownCall _ hp hstep => exact hv.putPool hp hstep rfl
  | @release c k hd p ok hc _ hp =>
      intro j q hget
      have hq : (if j = hd.poolIndex then
          some { p with callers := p.callers.set k (.releasing hd.fd.toNat ok) }
          else s.pools[j]?) = some q := by
        rw [← getElem?_set_eq _ hp]
        exact hget
      split at hq
      next heq =>
        subst heq
        cases hq
        -- the entry holds the descriptor of the handle
        obtain ⟨x, hx, hexp⟩ := hl.entries c _ _ _ hc rfl
        obtain ⟨p', hp', hk⟩ := entry_eq_some.mp hx
        rw [hp, Option.some.injEq] at hp'
        subst hp'
        have hheld : x = .held hd.fd.toNat := by
          cases x <;> cases hexp
          rfl
        subst hheld
        apply (hv _ p hp).step (e := .release k ok)
        show BackendPool.step cfg.shared.normalise (s.view hd.poolIndex p) (.release k ok) = _
        have hk : (s.view hd.poolIndex p).callers[k]? = some (.held hd.fd.toNat) := hk
        simp only [BackendPool.step, hk]
        rfl
      next => exact hv j q hq
  | borrowEmpty | borrow | pickLock | pickFirst | pickNext | bump | poolHeld | poolRefused | count
  | compensate | releaseNothing | releaseInvalid | releaseReturn | decrement | shutdown
  | shutdownNext | shutdownReturn => exact hv

theorem reachable_view (h : (machine cfg).Reachable s) : Viewed cfg s := by
  refine h.invariant_with (fun _ => reachable_linked) ?_
    (fun _ _ _ hl hv hstep => viewed_step (step_cases hstep) hl hv)
  intro i p hp
  have hempty : p = {} := List.eq_of_mem_replicate (List.mem_of_getElem? hp)
  subst hempty
  exact .init

end InferenceRouter.BackendSet
