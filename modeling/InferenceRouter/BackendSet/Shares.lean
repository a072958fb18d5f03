import InferenceRouter.BackendSet.Pick

/-!
# Proportional shares

While handles are only borrowed, every pick reads the counters as they are and adds
to a least loaded backend.  So the counters stay `Balanced`, and what a backend has
in flight is its share of all picks, up to a rounding that depends on the weights
alone (`proportional_shares`).

The products that the picks compare have to fit into 64 bits; `State.products` are
the products of a step.
-/

namespace InferenceRouter.BackendSet

open Interleaving Handler Balance

variable {cfg : Config} {s s' : State} {e : Event}

/-! ## Runs of borrows -/

/-- No pool borrow has failed and no handle is released by the step. -/
def Event.borrowsOnly : Event → Bool
  | .compensate _ | .release _ _ => false
  | _ => true

/-- The products that the step compares, exactly. -/
def State.products (cfg : Config) (s : State) : Event → List Int
  | .pickLoad c =>
      match s.callers[c]? with
      | some (.picking p) =>
          [s.inFlight p.reads.length * (cfg.weight p.best).toNat,
            s.inFlight p.best * (cfg.weight p.reads.length).toNat]
      | _ => []
  | _ => []

/-- The step keeps to borrows, and its products are within 64 bits. -/
def State.Calm (cfg : Config) (s : State) (e : Event) : Prop :=
  e.borrowsOnly = true ∧ ∀ x ∈ s.products cfg e, x < 2 ^ 64

instance (cfg : Config) (s : State) (e : Event) : Decidable (s.Calm cfg e) :=
  inferInstanceAs (Decidable (_ ∧ _))

/-- The caller has done its `fetch_add` under `pick_mu_`. -/
def Caller.bumped : Caller → Nat
  | .picked _ | .borrowing _ _ | .borrowed _ _ _ | .refused _ | .held _ _ | .releasing _ _
  | .released _ | .returned _ => 1
  | .entered | .locked | .picking _ | .failed => 0

/-- The caller has done its `fetch_add` and `borrow` has not returned. -/
def Caller.inBorrow : Caller → Bool
  | .picked _ | .borrowing _ _ | .borrowed _ _ _ | .refused _ => true
  | _ => false

/-- Before any release. -/
def Caller.unreleased (cfg : Config) : Caller → Prop
  | .releasing _ _ | .released _ | .returned _ => False
  | .failed => cfg.count = 0
  | _ => True

/-- How many callers have done their `fetch_add`. -/
def State.bumped (s : State) : Nat := total Caller.bumped s.callers

def Config.totalWeight (cfg : Config) : Int :=
  ∑ i ∈ Finset.range cfg.count, ((cfg.weight i).toNat : Int)

/-! ## Steps -/

/-- The values that a thread in the pick has read are the counters as they are. -/
structure Pick.Current (cfg : Config) (s : State) (p : Pick) : Prop where
  scanned : p.Scanned cfg
  reads : ∀ j < p.reads.length, p.reads.getD j 0 = s.load j
  lt : 1 < p.reads.length → ∀ j < p.reads.length, s.inFlight j < 2 ^ 64

structure Shared (cfg : Config) (s : State) : Prop where
  accounted : Accounted cfg s
  unreleased : ∀ c ∈ s.callers, c.unreleased cfg
  picks : ∀ (c : Nat) (p : Pick), s.callers[c]? = some (.picking p) → p.Current cfg s
  balanced : Balanced (Finset.range cfg.count) s.inFlight (fun i => (cfg.weight i).toNat)

theorem unreleased_step (h : Step cfg s e s') (hcalm : e.borrowsOnly = true)
    (hs : ∀ c ∈ s.callers, c.unreleased cfg) : ∀ c ∈ s'.callers, c.unreleased cfg := by
  have hnew : ∀ {b : Caller}, b.unreleased cfg → ∀ d ∈ s.callers ++ [b], d.unreleased cfg := by
    intro b hb d hd
    rcases List.mem_append.mp hd with hd | hd
    · exact hs d hd
    · rw [List.mem_singleton.mp hd]
      exact hb
  cases h with
  | clock | foreignOpen | foreignClose | pool | shutdown | shutdownCall | shutdownNext
  | shutdownReturn => exact hs
  | borrowEmpty hempty => exact hnew hempty
  | borrow => exact hnew trivial
  | pickLock | pickFirst | pickNext | bump | poolBorrow | poolHeld | poolRefused | count =>
      exact forall_mem_set hs trivial
  | compensate | releaseNothing | releaseInvalid | release => cases hcalm
  | releaseReturn hc => exact (hs _ (List.mem_of_getElem? hc)).elim
  | decrement hc => exact (hs _ (List.mem_of_getElem? hc)).elim

/-- A counter that fits with a weight fits alone. -/
theorem Config.lt_of_mul_weight_lt {x : Int} {i : Nat} (hpos : 0 ≤ x)
    (h : x * (cfg.weight i).toNat < 2 ^ 64) : x < 2 ^ 64 := by
  have hw : (1 : Int) ≤ (cfg.weight i).toNat := by exact_mod_cast cfg.weight_pos i
  exact (le_mul_of_one_le_right hpos hw).trans_lt h

theorem Pick.current_first (cfg : Config) (s : State) :
    (Pick.first (cfg.weight 0) (s.load 0)).Current cfg s where
  scanned := scanned_first cfg _
  reads j hj := by
    rw [Nat.lt_one_iff.mp hj]
    rfl
  lt hlen := absurd hlen (Nat.lt_irrefl 1)

theorem Pick.Current.next {p : Pick} (h : p.Current cfg s) (ha : Accounted cfg s)
    (hcand : s.inFlight p.reads.length * (cfg.weight p.best).toNat < 2 ^ 64)
    (hbest : s.inFlight p.best * (cfg.weight p.reads.length).toNat < 2 ^ 64) :
    (p.next (cfg.weight p.reads.length) (s.load p.reads.length)).Current cfg s := by
  have hscanned := h.scanned
  have hbestlt := hscanned.leftmost.lt
  have hcand64 := Config.lt_of_mul_weight_lt (ha.inFlight_nonneg _) hcand
  have hbest64 := Config.lt_of_mul_weight_lt (ha.inFlight_nonneg _) hbest
  have hload := State.toNat_load (ha.inFlight_nonneg _) hcand64
  have hloadBest := State.toNat_load (ha.inFlight_nonneg _) hbest64
  have hbestRead : (p.bestInFlight.toNat : Int) = s.inFlight p.best := by
    rw [hscanned.bestInFlight, read, h.reads _ hbestlt, hloadBest]
  have hfits : p.Fits (cfg.weight p.reads.length) (s.load p.reads.length) := by
    rw [← hload, ← hscanned.bestWeight] at hcand
    rw [← hbestRead] at hbest
    exact ⟨by exact_mod_cast hcand, by exact_mod_cast hbest⟩
  refine ⟨hscanned.next hfits, fun j hj => ?_, fun _ j hj => ?_⟩
  · rw [length_next] at hj
    rw [reads_next]
    rcases Nat.lt_succ_iff_lt_or_eq.mp hj with hj | rfl
    · have hread := h.reads j hj
      rw [List.getD_eq_getElem?_getD] at hread ⊢
      rwa [List.getElem?_append_left hj]
    · simp
  · rw [length_next] at hj
    rcases Nat.lt_succ_iff_lt_or_eq.mp hj with hj | rfl
    · rcases Nat.lt_or_ge 1 p.reads.length with hlen | hlen
      · exact h.lt hlen j hj
      · -- one value read so far, and it is the best
        have hjb : j = p.best := by omega
        rw [hjb]
        exact hbest64
    · exact hcand64

/-- At the end of the pick, the candidate is a least loaded backend. -/
theorem Pick.Current.least {p : Pick} (h : p.Current cfg s) (ha : Accounted cfg s)
    (hlen : p.reads.length = cfg.count) :
    ∀ j ∈ Finset.range cfg.count,
      s.inFlight p.best * (cfg.weight j).toNat ≤ s.inFlight j * (cfg.weight p.best).toNat := by
  intro j hj
  have hj := Finset.mem_range.mp hj
  rw [← hlen] at hj
  have hbestlt := h.scanned.leftmost.lt
  rcases Nat.lt_or_ge 1 p.reads.length with hmany | hone
  · have hread : ∀ k < p.reads.length, p.read k = s.inFlight k := by
      intro k hk
      rw [read, h.reads k hk, State.toNat_load (ha.inFlight_nonneg k) (h.lt hmany k hk)]
    have hle := Config.score_le_iff.mp (h.scanned.leftmost.le j hj)
    rwa [hread _ hbestlt, hread j hj] at hle
  · have hjb : j = p.best := by omega
    rw [hjb]

theorem picks_step (h : Step cfg s e s') (hcalm : s.Calm cfg e) (hs : Shared cfg s) (c : Nat)
    (p : Pick) (hc : s'.callers[c]? = some (.picking p)) : p.Current cfg s' := by
  -- Most steps leave the counters and the threads in the pick alone.
  have hsame : ∀ {t : State}, t.inFlight = s.inFlight → s.callers[c]? = some (.picking p) →
      p.Current cfg t := by
    intro t ht hold
    have hcur := hs.picks c p hold
    refine ⟨hcur.scanned, ?_, ?_⟩
    · intro j hj
      rw [hcur.reads j hj, State.load, State.load, ht]
    · rw [ht]
      exact hcur.lt
  have hset : ∀ {d : Nat} {a b : Caller}, s.callers[d]? = some a →
      (s.callers.set d b)[c]? = some (.picking p) → b.inPick = 0 →
      c ≠ d ∧ s.callers[c]? = some (.picking p) := by
    intro d a b hd hpick hb
    rw [getElem?_set_eq _ hd] at hpick
    split at hpick
    next =>
      cases hpick
      cases hb
    next hne => exact ⟨hne, hpick⟩
  cases h with
  | clock | foreignOpen | foreignClose | pool | shutdown | shutdownCall | shutdownNext
  | shutdownReturn => exact hsame rfl hc
  | borrowEmpty | borrow =>
      rcases getElem?_append_single hc with hold | ⟨-, hnew⟩
      · exact hsame rfl hold
      · cases hnew
  | @pickLock d hd =>
      have hc : (s.callers.set d .locked)[c]? = some (.picking p) := hc
      rw [getElem?_set_eq _ hd] at hc
      split at hc
      next => cases hc
      next => exact hsame rfl hc
  | @pickFirst d hd =>
      have hc : (s.callers.set d (.picking (.first (cfg.weight 0) (s.load 0))))[c]? =
        some (.picking p) := hc
      rw [getElem?_set_eq _ hd] at hc
      split at hc
      next =>
        cases hc
        have hcur := Pick.current_first cfg s
        exact ⟨hcur.scanned, hcur.reads, hcur.lt⟩
      next => exact hsame rfl hc
  | @pickNext d q hd =>
      have hc : (s.callers.set d
          (.picking (q.next (cfg.weight q.reads.length) (s.load q.reads.length))))[c]? =
        some (.picking p) := hc
      rw [getElem?_set_eq _ hd] at hc
      split at hc
      next =>
        cases hc
        have hprod := hcalm.2
        simp only [State.products, hd, List.mem_cons, List.not_mem_nil, or_false,
          forall_eq_or_imp, forall_eq] at hprod
        have hcur := (hs.picks d q hd).next hs.accounted hprod.1 hprod.2
        exact ⟨hcur.scanned, hcur.reads, hcur.lt⟩
      next => exact hsame rfl hc
  | bump hd =>
      obtain ⟨hne, hold⟩ := hset hd hc rfl
      exact absurd (hs.accounted.picking_unique hold hd rfl rfl) hne
  | poolBorrow hd | poolHeld hd | poolRefused hd | count hd => exact hsame rfl (hset hd hc rfl).2
  | releaseReturn hd => exact hsame rfl (hset hd hc rfl).2
  | decrement hd => exact (hs.unreleased _ (List.mem_of_getElem? hd)).elim
  | compensate | releaseNothing | releaseInvalid | release => cases hcalm.1

theorem balanced_step (h : Step cfg s e s') (hcalm : s.Calm cfg e) (hs : Shared cfg s) :
    Balanced (Finset.range cfg.count) s'.inFlight (fun i => (cfg.weight i).toNat) := by
  cases h with
  | @bump c p hc hdone =>
      have hplaced := hs.accounted.placed _ (List.mem_of_getElem? hc)
      have hlen : p.reads.length = cfg.count := le_antisymm hplaced.2 hdone
      apply hs.balanced.bump
      · exact fun i _ => Int.natCast_nonneg _
      · exact Finset.mem_range.mpr (hplaced.1.trans_le hplaced.2)
      · exact (hs.picks c p hc).least hs.accounted hlen
  | decrement hc => exact (hs.unreleased _ (List.mem_of_getElem? hc)).elim
  | compensate | releaseNothing | releaseInvalid | release => cases hcalm.1
  | clock | foreignOpen | foreignClose | pool | borrowEmpty | borrow | pickLock | pickFirst
  | pickNext | poolBorrow | poolHeld | poolRefused | count | releaseReturn | shutdown
  | shutdownCall | shutdownNext | shutdownReturn => exact hs.balanced

theorem shared_step (h : Step cfg s e s') (hcalm : s.Calm cfg e) (hs : Shared cfg s) :
    Shared cfg s' where
  accounted := accounted_step h hs.accounted
  unreleased := unreleased_step h hcalm.1 hs.unreleased
  picks := picks_step h hcalm hs
  balanced := balanced_step h hcalm hs

theorem shared_init (cfg : Config) : Shared cfg (machine cfg).init where
  accounted := accounted_init cfg
  unreleased _ hc := absurd hc List.not_mem_nil
  picks _ _ hc := by cases hc
  balanced := balanced_zero (fun _ _ => Int.natCast_nonneg _)

theorem shared_run {es : List Event} (hrun : (machine cfg).run es = some s)
    (hcalm : (machine cfg).Meets (State.Calm cfg) (machine cfg).init es) : Shared cfg s :=
  hcalm.invariant (fun _ _ _ hs hok hstep => shared_step (step_cases hstep) hok hs)
    (shared_init cfg) hrun

/-! ## Shares -/

/-- A caller counts once among all backends. -/
theorem Caller.sum_load {c : Caller} (hplaced : c.Placed cfg) (hun : c.unreleased cfg) :
    ∑ i ∈ Finset.range cfg.count, c.load i = c.bumped := by
  cases hb : c.backend with
  | none =>
      have hzero : c.bumped = 0 := by
        cases c with
        | returned => exact hun.elim
        | entered | locked | picking | failed => rfl
        | picked | borrowing | borrowed | refused | held | releasing | released => cases hb
      rw [hzero]
      exact Finset.sum_eq_zero (fun i _ => load_none hb i)
  | some k =>
      have hone : c.bumped = 1 := by
        cases c with
        | returned | entered | locked | picking | failed => cases hb
        | picked | borrowing | borrowed | refused | held | releasing | released => rfl
      have hk := hplaced.backend_lt hb
      rw [hone, Finset.sum_congr rfl (fun i _ => load_some hb i), Finset.sum_ite_eq,
        if_pos (Finset.mem_range.mpr hk)]
      rfl

/-- Every pick is in flight on some backend. -/
theorem Shared.sum_inFlight (h : Shared cfg s) :
    ∑ i ∈ Finset.range cfg.count, s.inFlight i = s.bumped := by
  rw [Finset.sum_congr rfl (fun i _ => h.accounted.loads i), sum_total, State.bumped]
  exact (natCast_total (fun c hc =>
    (Caller.sum_load (h.accounted.placed c hc) (h.unreleased c hc)).symm)).symm

/-- Once every borrow has returned, what was handled is what is in flight. -/
theorem Shared.handled_eq (h : Shared cfg s) (hdone : ∀ c ∈ s.callers, c.inBorrow = false)
    (i : Nat) : (s.handled i : Int) = s.inFlight i := by
  rw [h.accounted.handled, h.accounted.loads]
  apply natCast_total
  intro c hc
  have hun := h.unreleased c hc
  have hnot := hdone c hc
  cases c with
  | releasing | released | returned => exact hun.elim
  | picked | borrowing | borrowed | refused => cases hnot
  | entered | locked | picking | failed => rfl
  | held hd k =>
      rw [load_some rfl]
      simp only [Caller.handled]
      split <;> rfl

/-- What backend `i` has in flight after `n` picks, against its share `n * w / W`. -/
structure Proportional (cfg : Config) (s : State) (i : Nat) : Prop where
  share_le : (s.bumped : Int) * (cfg.weight i).toNat - (cfg.count - 1) * (cfg.weight i).toNat ≤
    s.inFlight i * cfg.totalWeight
  le_share : s.inFlight i * cfg.totalWeight ≤
    s.bumped * (cfg.weight i).toNat + (cfg.totalWeight - (cfg.weight i).toNat)
  exact : ∀ k : Int, s.bumped = k * cfg.totalWeight → s.inFlight i = k * (cfg.weight i).toNat
  handled : (∀ c ∈ s.callers, c.inBorrow = false) → (s.handled i : Int) = s.inFlight i

/-- In every run in which no pool borrow fails and no handle is released, every backend
has its share of the picks in flight. -/
theorem proportional_shares (cfg : Config) {es : List Event} {s : State}
    (hrun : (machine cfg).run es = some s)
    (hcalm : (machine cfg).Meets (State.Calm cfg) (machine cfg).init es) {i : Nat}
    (hi : i < cfg.count) : Proportional cfg s i := by
  have hs := shared_run hrun hcalm
  have hmem := Finset.mem_range.mpr hi
  have hsum := hs.sum_inFlight
  have hpos : ∀ j ∈ Finset.range cfg.count, (0 : Int) < (cfg.weight j).toNat := by
    intro j _
    exact_mod_cast cfg.weight_pos j
  refine ⟨?_, ?_, ?_, fun hdone => hs.handled_eq hdone i⟩
  · have hle := hs.balanced.share_le hmem
    rwa [hsum, Finset.card_range] at hle
  · have hle := hs.balanced.le_share hmem
    rwa [hsum] at hle
  · intro k hk
    exact hs.balanced.eq_share hpos (hsum.trans hk) hmem

/-- Three callers borrow, and every pool has to dial. -/
def threeBorrows : List Event :=
  [.borrow, .borrow, .borrow, .pickLock 0, .pickLoad 0, .pickLoad 0, .bump 0, .pickLock 1,
    .pickLoad 1, .poolBorrow 0, .pickLoad 1, .bump 1, .poolBorrow 1, .pickLock 2, .pickLoad 2,
    .pickLoad 2, .bump 2, .poolBorrow 2, .pool 0 (.borrowLock 0), .pool 1 (.borrowLock 0),
    .pool 1 (.borrowLock 1), .pool 1 (.dialOk 1 3), .pool 0 (.dialOk 0 4), .pool 1 (.dialOk 0 5),
    .poolReturn 0, .poolReturn 1, .poolReturn 2, .count 0, .count 1, .count 2]

theorem proportional_shares_threeBorrows : ∃ s, (machine oneAndTwo).run threeBorrows = some s ∧
    s.bumped = 3 ∧ Proportional oneAndTwo s 1 := by
  refine ⟨_, rfl, rfl, ?_⟩
  exact @proportional_shares oneAndTwo threeBorrows _ rfl (by decide) 1 (by decide)

end InferenceRouter.BackendSet
