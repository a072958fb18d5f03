import Mathlib.Algebra.Order.BigOperators.Group.Finset
import Mathlib.Algebra.BigOperators.Ring.Finset
import Mathlib.Tactic.Linarith
import Mathlib.Tactic.Ring

/-!
# Choosing the least loaded

Work is handed out one unit at a time to parties with weights, always to a party
whose load divided by its weight is least.

*Leftmost minima.*  `Leftmost f n i` says that `i` is the first of the positions
below `n` at which `f` is least.  A scan from left to right that replaces its
candidate only by something strictly smaller keeps it (`Leftmost.keep`,
`Leftmost.replace`).  With fewer units than parties, some party has none, and the first
minimum is not behind it (`Leftmost.le_of_eq_zero`).

*Proportional shares.*  `Balanced` relates the loads pairwise: with one unit less,
no party is loaded above another.  Handing a unit to a least loaded party keeps it
(`Balanced.bump`).  Summed over all parties it bounds every load from both sides by
the party's share of the total (`Balanced.le_share`, `Balanced.share_le`), and when
the total is a multiple of the total weight, every load is exact
(`Balanced.eq_share`).
-/

namespace Balance

/-! ## Leftmost minima -/

section Leftmost

variable {α : Type} [LinearOrder α] {f g : Nat → α} {n i : Nat}

/-- The first position below `n` at which `f` is least. -/
structure Leftmost (f : Nat → α) (n i : Nat) : Prop where
  lt : i < n
  le : ∀ j < n, f i ≤ f j
  first : ∀ j < i, f i < f j

theorem Leftmost.one (f : Nat → α) : Leftmost f 1 0 where
  lt := Nat.one_pos
  le j hj := by rw [Nat.lt_one_iff.mp hj]
  first j hj := absurd hj (Nat.not_lt_zero j)

theorem Leftmost.keep (h : Leftmost f n i) (hn : f i ≤ f n) : Leftmost f (n + 1) i where
  lt := Nat.lt_succ_of_lt h.lt
  le j hj := by
    rcases Nat.lt_succ_iff_lt_or_eq.mp hj with hj | rfl
    · exact h.le j hj
    · exact hn
  first := h.first

theorem Leftmost.replace (h : Leftmost f n i) (hn : f n < f i) : Leftmost f (n + 1) n where
  lt := Nat.lt_succ_self n
  le j hj := by
    rcases Nat.lt_succ_iff_lt_or_eq.mp hj with hj | rfl
    · exact hn.le.trans (h.le j hj)
    · exact le_rfl
  first j hj := hn.trans_le (h.le j hj)

/-- Only the values below `n` matter. -/
theorem Leftmost.congr (h : Leftmost f n i) (hfg : ∀ j < n, f j = g j) : Leftmost g n i where
  lt := h.lt
  le j hj := by
    rw [← hfg i h.lt, ← hfg j hj]
    exact h.le j hj
  first j hj := by
    rw [← hfg i h.lt, ← hfg j (hj.trans h.lt)]
    exact h.first j hj

/-- The first minimum is not behind a party without load. -/
theorem Leftmost.le_of_eq_zero [Zero α] (h : Leftmost f n i) (hf : ∀ j < n, 0 ≤ f j) {j : Nat}
    (hzero : f j = 0) : i ≤ j := by
  by_contra hlt
  have hless := h.first j (Nat.not_le.mp hlt)
  rw [hzero] at hless
  exact absurd (hf i h.lt) (not_le.mpr hless)

end Leftmost

/-- Fewer than `n` units leave one of the first `n` parties without any. -/
theorem exists_eq_zero_of_sum_lt {load : Nat → Int} {n : Nat} (hload : ∀ j < n, 0 ≤ load j)
    (h : ∑ j ∈ Finset.range n, load j < n) : ∃ j < n, load j = 0 := by
  have hone : ∑ j ∈ Finset.range n, load j < ∑ _j ∈ Finset.range n, (1 : Int) := by simpa using h
  obtain ⟨j, hj, hlt⟩ := Finset.exists_lt_of_sum_lt hone
  rw [Finset.mem_range] at hj
  have := hload j hj
  exact ⟨j, hj, by omega⟩

/-! ## Proportional shares -/

section Balanced

variable {ι : Type} {s : Finset ι} {load weight : ι → Int} {i b : ι}

/-- With one unit less, no party is loaded above another. -/
def Balanced (s : Finset ι) (load weight : ι → Int) : Prop :=
  ∀ i ∈ s, ∀ j ∈ s, (load i - 1) * weight j ≤ load j * weight i

theorem balanced_zero (hw : ∀ i ∈ s, 0 ≤ weight i) : Balanced s (fun _ => 0) weight := by
  intro i _ j hj
  have := hw j hj
  simp only [zero_mul]
  linarith

variable [DecidableEq ι]

/-- A unit for a least loaded party. -/
theorem Balanced.bump (h : Balanced s load weight) (hw : ∀ i ∈ s, 0 ≤ weight i) (hb : b ∈ s)
    (hleast : ∀ j ∈ s, load b * weight j ≤ load j * weight b) :
    Balanced s (Function.update load b (load b + 1)) weight := by
  intro i hi j hj
  have hwi := hw i hi
  by_cases hib : i = b
  · subst hib
    by_cases hji : j = i
    · subst hji
      simp only [Function.update_self]
      linarith
    · rw [Function.update_self, Function.update_of_ne hji, add_sub_cancel_right]
      exact hleast j hj
  · rw [Function.update_of_ne hib]
    by_cases hjb : j = b
    · subst hjb
      have := h i hi j hj
      rw [Function.update_self, add_mul, one_mul]
      linarith
    · rw [Function.update_of_ne hjb]
      exact h i hi j hj

/-- No load is above its share by more than the other weights. -/
theorem Balanced.le_share (h : Balanced s load weight) (hi : i ∈ s) :
    load i * ∑ j ∈ s, weight j ≤ (∑ j ∈ s, load j) * weight i + (∑ j ∈ s, weight j - weight i) := by
  have hothers : (load i - 1) * ∑ j ∈ s.erase i, weight j ≤
      (∑ j ∈ s.erase i, load j) * weight i := by
    rw [Finset.mul_sum, Finset.sum_mul]
    apply Finset.sum_le_sum
    intro j hj
    exact h i hi j (Finset.mem_of_mem_erase hj)
  rw [← Finset.add_sum_erase s weight hi, ← Finset.add_sum_erase s load hi]
  linarith

/-- No load is below its share by more than its weight for each other party. -/
theorem Balanced.share_le (h : Balanced s load weight) (hi : i ∈ s) :
    (∑ j ∈ s, load j) * weight i - ((s.card : Int) - 1) * weight i ≤
      load i * ∑ j ∈ s, weight j := by
  have hothers : (∑ j ∈ s.erase i, (load j - 1)) * weight i ≤
      load i * ∑ j ∈ s.erase i, weight j := by
    rw [Finset.mul_sum, Finset.sum_mul]
    apply Finset.sum_le_sum
    intro j hj
    exact h j (Finset.mem_of_mem_erase hj) i hi
  have hcard : ((s.erase i).card : Int) = s.card - 1 := by
    have := Finset.card_erase_add_one hi
    omega
  rw [Finset.sum_sub_distrib, Finset.sum_const, nsmul_eq_mul, mul_one, hcard] at hothers
  rw [← Finset.add_sum_erase s weight hi, ← Finset.add_sum_erase s load hi]
  linarith

/-- A total that is a multiple of the total weight is shared out exactly. -/
theorem Balanced.eq_share (h : Balanced s load weight) (hw : ∀ i ∈ s, 0 < weight i) {k : Int}
    (htotal : ∑ j ∈ s, load j = k * ∑ j ∈ s, weight j) (hi : i ∈ s) : load i = k * weight i := by
  -- Every load is at most the share, and the sums agree.
  have hle : ∀ j ∈ s, load j ≤ k * weight j := by
    intro j hj
    have hpos : 0 < ∑ j ∈ s, weight j := Finset.sum_pos hw ⟨j, hj⟩
    have hshare := h.le_share hj
    have hwj := hw j hj
    rw [htotal] at hshare
    have hlt : load j * ∑ j ∈ s, weight j < (k * weight j + 1) * ∑ j ∈ s, weight j := by
      linarith
    exact Int.lt_add_one_iff.mp (lt_of_mul_lt_mul_right hlt hpos.le)
  rw [Finset.mul_sum] at htotal
  exact (Finset.sum_eq_sum_iff_of_le hle).mp htotal i hi

end Balanced

end Balance
