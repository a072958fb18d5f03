import InferenceRouter.Balance.LeastLoaded
import InferenceRouter.BackendSet.Accounting
import Mathlib.Data.Rat.Cast.Order
import Mathlib.Algebra.Order.Field.Basic

/-!
# The pick

`pick_lowest_load_locked_` keeps the best candidate so far and compares it with the
next backend by cross-multiplication in 64 bits.  As long as the products fit, the
comparison is that of the exact quotients, and the candidate is the leftmost minimum
of the values read (`Pick.Scanned`).

The values are not a snapshot: decrements go on while the pick reads.  But they only
make counters smaller, and nothing else changes a counter while `pick_mu_` is held.
So at the `fetch_add` the chosen backend is at most as loaded as every backend was
when it was read (`pick_least_loaded`).
-/

namespace InferenceRouter.BackendSet

open Interleaving Handler Balance

variable {cfg : Config} {s s' : State} {e : Event}

/-! ## Effective loads -/

/-- `in_flight / weight` of backend `j`, exactly. -/
def Config.score (cfg : Config) (inFlight : Nat → Int) (j : Nat) : ℚ :=
  inFlight j / (cfg.weight j).toNat

theorem Config.weight_pos (cfg : Config) (i : Nat) : 0 < (cfg.weight i).toNat := by
  have hne : cfg.weight i ≠ 0 := by
    simp only [weight, weights, List.getD_eq_getElem?_getD, List.getElem?_map]
    cases cfg.specs[i]? with
    | none => simp
    | some spec =>
        simp only [Option.map_some, Option.getD_some]
        split
        next => simp
        next hne => exact hne
  apply Nat.pos_of_ne_zero
  intro hzero
  exact hne (UInt64.toNat_inj.mp hzero)

section Score

variable {inFlight inFlight' : Nat → Int} {i j : Nat}

theorem Config.score_le_iff :
    cfg.score inFlight i ≤ cfg.score inFlight' j ↔
      inFlight i * (cfg.weight j).toNat ≤ inFlight' j * (cfg.weight i).toNat := by
  have hi := cfg.weight_pos i
  have hj := cfg.weight_pos j
  rw [score, score, div_le_div_iff₀ (by exact_mod_cast hi) (by exact_mod_cast hj)]
  norm_cast

theorem Config.score_lt_iff :
    cfg.score inFlight i < cfg.score inFlight j ↔
      inFlight i * (cfg.weight j).toNat < inFlight j * (cfg.weight i).toNat := by
  rw [← not_le, score_le_iff, not_le]

/-- A counter that has become smaller makes a smaller score. -/
theorem Config.score_mono (h : inFlight i ≤ inFlight' i) :
    cfg.score inFlight i ≤ cfg.score inFlight' i := by
  rw [score_le_iff]
  exact Int.mul_le_mul_of_nonneg_right h (Int.natCast_nonneg _)

theorem Config.score_congr (h : inFlight i = inFlight' i) :
    cfg.score inFlight i = cfg.score inFlight' i := by
  rw [score, score, h]

end Score

/-! ## The loop -/

/-- The value read for backend `j`. -/
def Pick.read (p : Pick) (j : Nat) : Int := (p.reads.getD j 0).toNat

/-- The products of the next comparison are below `2 ^ 64`. -/
def Pick.Fits (p : Pick) (candWeight candInFlight : UInt64) : Prop :=
  candInFlight.toNat * p.bestWeight.toNat < 2 ^ 64 ∧
    p.bestInFlight.toNat * candWeight.toNat < 2 ^ 64

/-- Loads below `2 ^ 32` and weights up to it make products below `2 ^ 64`. -/
theorem Pick.fits_of_bounds {p : Pick} {w l : UInt64} (hl : l.toNat < 2 ^ 32)
    (hbest : p.bestInFlight.toNat < 2 ^ 32) (hbestWeight : p.bestWeight.toNat ≤ 2 ^ 32)
    (hw : w.toNat ≤ 2 ^ 32) : p.Fits w l := by
  have hmul : ∀ {a b : Nat}, a < 2 ^ 32 → b ≤ 2 ^ 32 → a * b < 2 ^ 64 := by
    intro a b ha hb
    calc a * b ≤ a * 2 ^ 32 := Nat.mul_le_mul_left _ hb
      _ < 2 ^ 32 * 2 ^ 32 := (Nat.mul_lt_mul_right (by decide)).mpr ha
      _ = 2 ^ 64 := by norm_num
  exact ⟨hmul hl hbestWeight, hmul hbest hw⟩

/-- Where the products fit, the comparison of 64 bits is that of the products. -/
theorem Pick.Fits.compare_iff {p : Pick} {w l : UInt64} (h : p.Fits w l) :
    l * p.bestWeight < p.bestInFlight * w ↔
      l.toNat * p.bestWeight.toNat < p.bestInFlight.toNat * w.toNat := by
  rw [UInt64.lt_iff_toNat_lt, UInt64.toNat_mul, UInt64.toNat_mul, Nat.mod_eq_of_lt h.1,
    Nat.mod_eq_of_lt h.2]

/-- The candidate is the leftmost minimum of what was read. -/
structure Pick.Scanned (cfg : Config) (p : Pick) : Prop where
  bestInFlight : p.bestInFlight.toNat = p.read p.best
  bestWeight : p.bestWeight = cfg.weight p.best
  leftmost : Leftmost (cfg.score p.read) p.reads.length p.best

theorem Pick.scanned_first (cfg : Config) (l : UInt64) :
    (Pick.first (cfg.weight 0) l).Scanned cfg where
  bestInFlight := rfl
  bestWeight := rfl
  leftmost := .one _

theorem Pick.reads_next (p : Pick) (w l : UInt64) : (p.next w l).reads = p.reads ++ [l] := by
  simp only [next]
  split <;> rfl

theorem Pick.read_next_of_lt {p : Pick} {w l : UInt64} {j : Nat} (h : j < p.reads.length) :
    (p.next w l).read j = p.read j := by
  simp only [read, reads_next, List.getD_eq_getElem?_getD, List.getElem?_append_left h]

theorem Pick.read_next_length (p : Pick) (w l : UInt64) :
    (p.next w l).read p.reads.length = l.toNat := by
  simp [read, reads_next]

/-- The 64-bit comparison is the one of the quotients. -/
theorem Pick.Scanned.compare_iff {p : Pick} {l : UInt64} (h : p.Scanned cfg)
    (hfits : p.Fits (cfg.weight p.reads.length) l) :
    l * p.bestWeight < p.bestInFlight * cfg.weight p.reads.length ↔
      cfg.score (p.next (cfg.weight p.reads.length) l).read p.reads.length <
        cfg.score (p.next (cfg.weight p.reads.length) l).read p.best := by
  rw [hfits.compare_iff, Config.score_lt_iff, read_next_length, read_next_of_lt h.leftmost.lt,
    ← h.bestInFlight, ← h.bestWeight]
  norm_cast

theorem Pick.Scanned.next {p : Pick} {l : UInt64} (h : p.Scanned cfg)
    (hfits : p.Fits (cfg.weight p.reads.length) l) :
    (p.next (cfg.weight p.reads.length) l).Scanned cfg := by
  have hcompare := h.compare_iff hfits
  have hold : Leftmost (cfg.score (p.next (cfg.weight p.reads.length) l).read) p.reads.length
      p.best :=
    h.leftmost.congr (fun j hj => (Config.score_congr (read_next_of_lt hj)).symm)
  have hread := read_next_of_lt (w := cfg.weight p.reads.length) (l := l) h.leftmost.lt
  by_cases hless : l * p.bestWeight < p.bestInFlight * cfg.weight p.reads.length
  · have hnew := hold.replace (hcompare.mp hless)
    have hlast := read_next_length p (cfg.weight p.reads.length) l
    simp only [Pick.next, if_pos hless] at hnew hlast ⊢
    exact ⟨hlast.symm, rfl, by simpa using hnew⟩
  · have hkeep := hold.keep (not_lt.mp (fun hlt => hless (hcompare.mpr hlt)))
    simp only [Pick.next, if_neg hless] at hkeep hread ⊢
    exact ⟨by rw [hread]; exact h.bestInFlight, h.bestWeight, by simpa using hkeep⟩

/-! ## What is compared -/

/-- The values of the candidate: a load up to `n` and a weight of the set. -/
structure Pick.Within (cfg : Config) (n : Nat) (p : Pick) : Prop where
  inFlight_le : p.bestInFlight.toNat ≤ n
  weight : ∃ j < cfg.count, p.bestWeight = cfg.weight j

theorem Pick.Within.next {n : Nat} {p : Pick} (h : p.Within cfg n) {l : UInt64}
    (hl : l.toNat ≤ n) (hlen : p.reads.length < cfg.count) :
    (p.next (cfg.weight p.reads.length) l).Within cfg n := by
  rw [Pick.next]
  split
  next => exact ⟨hl, p.reads.length, hlen, rfl⟩
  next => exact ⟨h.inFlight_le, h.weight⟩

/-- Every pick that is going on is within `n`. -/
def State.PicksWithin (cfg : Config) (n : Nat) (s : State) : Prop :=
  ∀ (c : Nat) (p : Pick), s.callers[c]? = some (.picking p) → p.Within cfg n

/-- What a pick compares was loaded from the counters. -/
theorem picksWithin_step {n : Nat} (h : Step cfg s e s') (ha : Accounted cfg s)
    (hload : ∀ i < cfg.count, (s.load i).toNat ≤ n) (hp : s.PicksWithin cfg n) :
    s'.PicksWithin cfg n := by
  have hset : ∀ {c : Nat} {a : Caller} (b : Caller), s.callers[c]? = some a →
      (∀ p, b = .picking p → p.Within cfg n) →
      ∀ (d : Nat) (p : Pick), (s.callers.set c b)[d]? = some (.picking p) → p.Within cfg n := by
    intro c a b hc hb d p hd
    rw [getElem?_set_eq b hc] at hd
    split at hd
    next => exact hb p (Option.some.inj hd)
    next => exact hp d p hd
  have hnew : ∀ b : Caller, (∀ p, b ≠ .picking p) →
      ∀ (d : Nat) (p : Pick), (s.callers ++ [b])[d]? = some (.picking p) → p.Within cfg n := by
    intro b hb d p hd
    rcases getElem?_append_single hd with hd | ⟨-, heq⟩
    · exact hp d p hd
    · exact absurd heq.symm (hb p)
  cases h with
  | clock | foreignOpen | foreignClose | pool | shutdown | shutdownCall | shutdownNext
  | shutdownReturn => exact hp
  | borrowEmpty | borrow => exact hnew _ (fun p hb => by cases hb)
  | pickFirst hc =>
      have hne : cfg.count ≠ 0 := ha.placed _ (List.mem_of_getElem? hc)
      refine hset _ hc (fun p hb => ?_)
      cases hb
      exact ⟨hload 0 (Nat.pos_of_ne_zero hne), 0, Nat.pos_of_ne_zero hne, rfl⟩
  | @pickNext c p hc hmore =>
      refine hset _ hc (fun q hb => ?_)
      cases hb
      exact (hp c p hc).next (hload _ hmore) hmore
  | pickLock hc | bump hc | poolBorrow hc | poolHeld hc | poolRefused hc | count hc
  | compensate hc | releaseNothing _ hc | releaseInvalid _ hc | release _ hc | releaseReturn hc
  | decrement hc => exact hset _ hc (fun p hb => by cases hb)

/-! ## While the pick goes on -/

/-- The thread that takes the step. -/
def Event.actor : Event → Option Nat
  | .pickLock c | .pickLoad c | .bump c | .poolBorrow c | .poolReturn c | .count c | .compensate c
  | .release c _ | .releaseReturn c | .decrement c => some c
  | _ => none

/-- The steps that decrement a counter. -/
def Event.decrements : Event → Bool
  | .compensate _ | .decrement _ => true
  | _ => false

/-- The other callers stay where they are. -/
theorem caller_kept (h : Step cfg s e s') {c : Nat} {a : Caller} (hc : s.callers[c]? = some a)
    (he : e.actor ≠ some c) : s'.callers[c]? = some a := by
  have hset : ∀ {d : Nat} {b b' : Caller}, s.callers[d]? = some b → some d ≠ some c →
      (s.callers.set d b')[c]? = some a := by
    intro d b b' hd hne
    have hcd : c ≠ d := fun heq => hne (heq ▸ rfl)
    rw [getElem?_set_eq _ hd, if_neg hcd, hc]
  cases h with
  | clock | foreignOpen | foreignClose | pool | shutdown | shutdownCall | shutdownNext
  | shutdownReturn => exact hc
  | borrowEmpty | borrow => exact (List.getElem?_append_left (lt_of_getElem? hc)).trans hc
  | pickLock hd | pickFirst hd | pickNext hd | bump hd | poolBorrow hd | poolHeld hd
  | poolRefused hd | count hd | compensate hd | releaseNothing _ hd | releaseInvalid _ hd
  | release _ hd | releaseReturn hd | decrement hd => exact hset hd he

/-- Counters grow only by the `fetch_add` of a pick. -/
theorem inFlight_step (h : Step cfg s e s') (i : Nat) :
    s'.inFlight i ≤ s.inFlight i ∨ ∃ d p, e = .bump d ∧ s.callers[d]? = some (.picking p) := by
  have hless : ∀ k : Nat, Function.update s.inFlight k (s.inFlight k - 1) i ≤ s.inFlight i := by
    intro k
    rw [Function.update_apply]
    split
    next heq =>
      subst heq
      omega
    next => exact le_rfl
  cases h with
  | bump hc => exact .inr ⟨_, _, rfl, hc⟩
  | @compensate c k => exact .inl (hless k)
  | @decrement c h => exact .inl (hless h.poolIndex)
  | clock | foreignOpen | foreignClose | pool | borrowEmpty | borrow | pickLock | pickFirst
  | pickNext | poolBorrow | poolHeld | poolRefused | count | releaseNothing | releaseInvalid
  | release | releaseReturn | shutdown | shutdownCall | shutdownNext | shutdownReturn =>
      exact .inl le_rfl

/-- And they shrink only by decrements. -/
theorem inFlight_kept (h : Step cfg s e s') (he : e.decrements = false) (i : Nat) :
    s.inFlight i ≤ s'.inFlight i := by
  cases h with
  | compensate | decrement => cases he
  | @bump c p =>
      show s.inFlight i ≤ Function.update s.inFlight p.best _ i
      rw [Function.update_apply]
      split
      next heq =>
        subst heq
        omega
      next => exact le_rfl
  | clock | foreignOpen | foreignClose | pool | borrowEmpty | borrow | pickLock | pickFirst
  | pickNext | poolBorrow | poolHeld | poolRefused | count | releaseNothing | releaseInvalid
  | release | releaseReturn | shutdown | shutdownCall | shutdownNext | shutdownReturn =>
      exact le_rfl

/-- Nobody else adds to a counter while a thread is in the pick. -/
theorem Accounted.inFlight_le (ha : Accounted cfg s) (h : Step cfg s e s') {c : Nat} {a : Caller}
    (hc : s.callers[c]? = some a) (hpick : a.inPick = 1) (he : e.actor ≠ some c) (i : Nat) :
    s'.inFlight i ≤ s.inFlight i := by
  rcases inFlight_step h i with hle | ⟨d, p, rfl, hd⟩
  · exact hle
  · have hcd := ha.picking_unique hc hd hpick rfl
    exact absurd (hcd ▸ rfl) he

/-- A number below `2 ^ 64` fits into 64 bits. -/
theorem toNat_ofNat_emod {n : Int} (hpos : 0 ≤ n) (hlt : n < 2 ^ 64) :
    ((UInt64.ofNat (n % 2 ^ 64).toNat).toNat : Int) = n := by
  have hmod : n % 2 ^ 64 = n := Int.emod_eq_of_lt hpos hlt
  rw [hmod, UInt64.toNat_ofNat']
  omega

/-- A counter below `2 ^ 64` is loaded as it is. -/
theorem State.toNat_load {i : Nat} (hpos : 0 ≤ s.inFlight i) (hlt : s.inFlight i < 2 ^ 64) :
    ((s.load i).toNat : Int) = s.inFlight i := toNat_ofNat_emod hpos hlt

/-- The backend whose counter the thread loads next. -/
def State.reading (s : State) (c : Nat) : Option Nat :=
  match s.callers[c]? with
  | some .locked => some 0
  | some (.picking p) => some p.reads.length
  | _ => none

/-- What is known of a value read: it is at least what the counter is now, and with
`exact` it is just that.  `seen` is what is known of the moment it was read. -/
structure Read (inFlight : Int) (exact : Prop) (seen : Int → Prop) (value : Int) : Prop where
  le : inFlight ≤ value
  lt : value < 2 ^ 32
  eq : exact → inFlight = value
  seen : seen value

/-- Where a thread is in its pick. -/
def Caller.Picks (cfg : Config) (inFlight : Nat → Int) (exact : Prop) (seen : Nat → Int → Prop) :
    Caller → Prop
  | .entered => False
  | .picking p =>
      p.Scanned cfg ∧ ∀ j < p.reads.length, Read (inFlight j) exact (seen j) (p.read j)
  | _ => True

structure PickRun (cfg : Config) (exact : Prop) (seen : Nat → Int → Prop) (c : Nat) (s : State) :
    Prop where
  accounted : Accounted cfg s
  picks : ∃ a, s.callers[c]? = some a ∧ a.Picks cfg s.inFlight exact seen ∧
    (a.inPick = 1 → ∀ i < cfg.count, s.inFlight i < 2 ^ 32)

section PickRun

variable {exact : Prop} {seen : Nat → Int → Prop} {c : Nat}

/-- A step of another thread. -/
theorem PickRun.other (h : PickRun cfg exact seen c s) (hstep : Step cfg s e s')
    (hexact : exact → e.decrements = false) (he : e.actor ≠ some c) :
    PickRun cfg exact seen c s' := by
  obtain ⟨a, hc, hpicks, hsmall⟩ := h.picks
  refine ⟨accounted_step hstep h.accounted, a, caller_kept hstep hc he, ?_, ?_⟩
  · cases a with
    | picking p =>
        refine ⟨hpicks.1, fun j hj => ?_⟩
        have hread := hpicks.2 j hj
        have hless := h.accounted.inFlight_le hstep hc rfl he j
        refine ⟨hless.trans hread.le, hread.lt, fun hex => ?_, hread.seen⟩
        have hmore := inFlight_kept hstep (hexact hex) j
        exact (le_antisymm hless hmore).trans (hread.eq hex)
    | entered => exact hpicks
    | locked | picked | borrowing | borrowed | refused | held | releasing | released | returned
    | failed => trivial
  · intro hpick i hi
    exact (h.accounted.inFlight_le hstep hc hpick he i).trans_lt (hsmall hpick i hi)

/-- The products of the next comparison fit. -/
theorem Pick.fits_of_lt {p : Pick} (hw : ∀ i < cfg.count, (cfg.weight i).toNat ≤ 2 ^ 32)
    (hscanned : p.Scanned cfg) (hlen : p.reads.length < cfg.count)
    (hbest : p.read p.best < 2 ^ 32) {l : UInt64} (hl : l.toNat < 2 ^ 32) :
    p.Fits (cfg.weight p.reads.length) l := by
  have hinFlight := hscanned.bestInFlight
  refine fits_of_bounds hl (by omega) ?_ (hw _ hlen)
  rw [hscanned.bestWeight]
  exact hw p.best (hscanned.leftmost.lt.trans hlen)

/-- A load that returns the counter. -/
theorem PickRun.load (h : PickRun cfg exact seen c s) {a : Caller} (hc : s.callers[c]? = some a)
    (hpick : a.inPick = 1) {i : Nat} (hi : i < cfg.count) (hseen : seen i (s.inFlight i)) :
    (s.load i).toNat < 2 ^ 32 ∧ Read (s.inFlight i) exact (seen i) (s.load i).toNat := by
  obtain ⟨a', ha', -, hsmall⟩ := h.picks
  rw [hc, Option.some.injEq] at ha'
  subst ha'
  have hpos := h.accounted.inFlight_nonneg i
  have hlt := hsmall hpick i hi
  have heq := State.toNat_load hpos (hlt.trans (by norm_num))
  have hload : (s.load i).toNat < 2 ^ 32 := by omega
  exact ⟨hload, heq.ge, by exact_mod_cast hload, fun _ => heq.symm, by rw [heq]; exact hseen⟩

/-- The thread's own step. -/
theorem PickRun.own (h : PickRun cfg exact seen c s) (hstep : Step cfg s e s')
    (hw : ∀ i < cfg.count, (cfg.weight i).toNat ≤ 2 ^ 32)
    (hseen : e = .pickLoad c → ∀ j, s.reading c = some j → seen j (s.inFlight j))
    (he : e.actor = some c) : PickRun cfg exact seen c s' := by
  obtain ⟨a, hc, hpicks, hsmall⟩ := h.picks
  refine ⟨accounted_step hstep h.accounted, ?_⟩
  have hpast : ∀ {d : Nat} {a' : Caller} (b : Caller), s.callers[d]? = some a' → some d = some c →
      b.Picks cfg s'.inFlight exact seen → b.inPick = 0 →
      ∃ x, (s.callers.set d b)[c]? = some x ∧ x.Picks cfg s'.inFlight exact seen ∧
        (x.inPick = 1 → ∀ i < cfg.count, s'.inFlight i < 2 ^ 32) := by
    intro d a' b hd heq hb hzero
    cases heq
    refine ⟨b, by rw [getElem?_set_eq _ hd, if_pos rfl], hb, fun hone => ?_⟩
    rw [hzero] at hone
    cases hone
  cases hstep with
  | clock | foreignOpen | foreignClose | pool | borrowEmpty | borrow | shutdown | shutdownCall
  | shutdownNext | shutdownReturn => cases he
  | pickLock hd =>
      cases he
      rw [hc, Option.some.injEq] at hd
      subst hd
      exact hpicks.elim
  | pickFirst hd =>
      cases he
      rw [hc, Option.some.injEq] at hd
      subst hd
      have hne : cfg.count ≠ 0 := h.accounted.placed _ (List.mem_of_getElem? hc)
      have hread := h.load hc rfl (Nat.pos_of_ne_zero hne)
        (hseen rfl 0 (by simp only [State.reading, hc]))
      refine ⟨.picking (.first (cfg.weight 0) (s.load 0)), by rw [getElem?_set_eq _ hc, if_pos rfl],
        ⟨Pick.scanned_first cfg _, ?_⟩, fun _ => hsmall rfl⟩
      intro j hj
      have hj : j = 0 := Nat.lt_one_iff.mp hj
      subst hj
      exact hread.2
  | @pickNext d p hd hmore =>
      cases he
      rw [hc, Option.some.injEq] at hd
      subst hd
      obtain ⟨hscanned, hreads⟩ := hpicks
      have hread := h.load hc rfl hmore (hseen rfl _ (by simp only [State.reading, hc]))
      have hfits := Pick.fits_of_lt hw hscanned hmore (hreads _ hscanned.leftmost.lt).lt hread.1
      refine ⟨.picking (p.next (cfg.weight p.reads.length) (s.load p.reads.length)),
        by rw [getElem?_set_eq _ hc, if_pos rfl], ⟨hscanned.next hfits, ?_⟩, fun _ => hsmall rfl⟩
      intro j hj
      rw [Pick.length_next] at hj
      rcases Nat.lt_succ_iff_lt_or_eq.mp hj with hj | rfl
      · rw [Pick.read_next_of_lt hj]
        exact hreads j hj
      · rw [Pick.read_next_length]
        exact hread.2
  | bump hd | poolBorrow hd | poolHeld hd | poolRefused hd | count hd | compensate hd
  | releaseNothing _ hd | releaseInvalid _ hd | release _ hd | releaseReturn hd | decrement hd =>
      exact hpast _ hd he trivial rfl

theorem PickRun.step (h : PickRun cfg exact seen c s) (hstep : Step cfg s e s')
    (hw : ∀ i < cfg.count, (cfg.weight i).toNat ≤ 2 ^ 32) (hexact : exact → e.decrements = false)
    (hseen : e = .pickLoad c → ∀ j, s.reading c = some j → seen j (s.inFlight j)) :
    PickRun cfg exact seen c s' := by
  by_cases he : e.actor = some c
  · exact h.own hstep hw hseen he
  · exact h.other hstep hexact he

theorem PickRun.start (hs : Accounted cfg s) (hsmall : ∀ i < cfg.count, s.inFlight i < 2 ^ 32)
    (hc : s.callers[c]? = some .locked) : PickRun cfg exact seen c s :=
  ⟨hs, .locked, hc, trivial, fun _ => hsmall⟩

/-- What the pick has read when it returns. -/
theorem PickRun.scanned {p : Pick} (h : PickRun cfg exact seen c s)
    (hc : s.callers[c]? = some (.picking p)) (hdone : cfg.count ≤ p.reads.length) :
    p.reads.length = cfg.count ∧ p.Scanned cfg ∧
      ∀ j < cfg.count, Read (s.inFlight j) exact (seen j) (p.read j) := by
  obtain ⟨a, ha, hpicks, -⟩ := h.picks
  rw [hc, Option.some.injEq] at ha
  subst ha
  have hle := (h.accounted.placed _ (List.mem_of_getElem? hc)).2
  exact ⟨le_antisymm hle hdone, hpicks.1, fun j hj => hpicks.2 j (hj.trans_le hdone)⟩

end PickRun

/-- In the schedule `es` from `s`, thread `c` loads the counter of backend `j` when it
is `value`. -/
def ReadAt (cfg : Config) (s : State) (es : List Event) (c j : Nat) (value : Int) : Prop :=
  ∃ es₁ t, es₁ ++ [.pickLoad c] <+: es ∧ (machine cfg).exec s es₁ = some t ∧
    t.reading c = some j ∧ value = t.inFlight j

/-- From `s` to `t` thread `c` has read `read j` for every backend `j`, and its `fetch_add`
from `t` to `t'` is for a least loaded one, backend `i`. -/
structure PicksLeast (cfg : Config) (s : State) (es : List Event) (c : Nat) (t t' : State)
    (read : Nat → Int) (i : Nat) : Prop where
  read_at : ∀ j < cfg.count, ReadAt cfg s es c j (read j)
  picked : t'.callers[c]? = some (.picked i)
  bumped : t'.inFlight = Function.update t.inFlight i (t.inFlight i + 1)
  leftmost : Leftmost (cfg.score read) cfg.count i
  score_le : ∀ j < cfg.count, cfg.score t.inFlight i ≤ cfg.score read j
  undisturbed : (∀ e ∈ es, e.decrements = false) → Leftmost (cfg.score t.inFlight) cfg.count i

/-- With weights up to `2 ^ 32` and counters below it, for every interleaving of a
pick with decrements: the backend that is chosen is the first whose value read
divided by its weight is least.  Its counter just before the `fetch_add` divided by
its weight is at most that of every backend at the moment it was read.  Without
decrements in between, the choice is the leftmost minimum of the counters as they
are. -/
theorem pick_least_loaded (cfg : Config) (hw : ∀ i < cfg.count, (cfg.weight i).toNat ≤ 2 ^ 32)
    {s t t' : State} {c : Nat} {es : List Event} (hs : Accounted cfg s)
    (hsmall : ∀ i < cfg.count, s.inFlight i < 2 ^ 32) (hc : s.callers[c]? = some .locked)
    (hrun : (machine cfg).exec s es = some t) (hbump : (machine cfg).step t (.bump c) = some t') :
    ∃ read i, PicksLeast cfg s es c t t' read i := by
  have hpick : ∀ {exact : Prop}, (exact → ∀ e ∈ es, e.decrements = false) →
      PickRun cfg exact (ReadAt cfg s es c) c t := by
    intro exact hexact
    have hmeets : (machine cfg).Meets (fun u e => (exact → e.decrements = false) ∧
        (e = .pickLoad c → ∀ j, u.reading c = some j → ReadAt cfg s es c j (u.inFlight j)))
        s es := by
      apply Machine.meets_of_initial
      intro es₁ e u hinitial hu
      refine ⟨fun hex => hexact hex e (hinitial.subset (by simp)), ?_⟩
      rintro rfl j hj
      exact ⟨es₁, u, hinitial, hu, hj, rfl⟩
    refine hmeets.invariant (P := PickRun cfg exact (ReadAt cfg s es c) c) ?_
      (.start hs hsmall hc) hrun
    intro u e u' hu hok hstep
    exact hu.step (step_cases hstep) hw hok.1 hok.2
  have hstep : Step cfg t (.bump c) t' := step_cases hbump
  cases hstep with
  | @bump _ p hp hdone =>
      obtain ⟨hlen, hscanned, hread⟩ := (@hpick False False.elim).scanned hp hdone
      have hleft := hscanned.leftmost
      rw [hlen] at hleft
      refine ⟨p.read, p.best, fun j hj => (hread j hj).seen,
        by rw [getElem?_set_eq _ hp, if_pos rfl], rfl, hleft, ?_, ?_⟩
      · intro j hj
        exact (Config.score_mono (hread p.best hleft.lt).le).trans (hleft.le j hj)
      · intro hquiet
        obtain ⟨-, -, hexact⟩ := (@hpick True (fun _ => hquiet)).scanned hp hdone
        exact hleft.congr (fun j hj => Config.score_congr ((hexact j hj).eq trivial).symm)

/-- Two backends, the second one of twice the weight. -/
def oneAndTwo : Config where
  specs := [⟨"127.0.0.1", 9090, 1⟩, ⟨"127.0.0.1", 9091, 2⟩]
  shared := { metrics := false }

/-- The first caller is about to decrement its counter when the second one picks. -/
def pickBesideRelease : List Event :=
  [.borrow, .pickLock 0, .pickLoad 0, .pickLoad 0, .bump 0, .poolBorrow 0, .pool 0 (.borrowLock 0),
    .pool 0 (.dialOk 0 3), .poolReturn 0, .count 0, .release 0 true, .pool 0 (.sample 0),
    .pool 0 (.releaseLock 0 none), .releaseReturn 0, .borrow, .pickLock 1]

theorem pick_least_loaded_pickBesideRelease : ∃ s t t',
    (machine oneAndTwo).run pickBesideRelease = some s ∧
    (machine oneAndTwo).exec s [.pickLoad 1, .decrement 0, .pickLoad 1] = some t ∧
    (machine oneAndTwo).step t (.bump 1) = some t' ∧
    ∃ read i, PicksLeast oneAndTwo s [.pickLoad 1, .decrement 0, .pickLoad 1] 1 t t' read i := by
  refine ⟨_, _, _, rfl, rfl, rfl, ?_⟩
  exact pick_least_loaded oneAndTwo (by decide) (reachable_accounted ⟨pickBesideRelease, rfl⟩)
    (by decide) rfl rfl rfl

end InferenceRouter.BackendSet
