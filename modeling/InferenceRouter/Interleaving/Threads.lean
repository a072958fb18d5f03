import Mathlib.Algebra.BigOperators.Group.Finset.Basic
import Mathlib.Algebra.BigOperators.Group.List.Basic
import Mathlib.Algebra.Order.BigOperators.Group.Finset
import Mathlib.Tactic.Abel

/-!
# Tables of threads and condition variables

The threads of one kind are a list of local states, addressed by position.  A
step of thread `i` replaces the entry at `i`, and a new call is appended.  Most
invariants about such a table sum a weight over it: how many threads are at
some point of their code, or which resources they hold together.  `total` is
that sum, in any commutative monoid, and `total_set` is the one fact about it
that a step needs.

A *condition variable* is given by the local states that are asleep on it
without having been notified, and by what a notification makes of such a state.
`notifyOne` wakes one sleeper of the scheduler's choice, or nobody when nobody
sleeps; it never misses while somebody does.  `notifyAll` wakes every sleeper.
A spurious wakeup is a step of the sleeping thread itself and is not modelled
here.
-/

namespace Interleaving

variable {α : Type}

/-! ## Totals -/

/-- The sum of a weight over a table of threads. -/
def total {M : Type} [AddCommMonoid M] (f : α → M) (l : List α) : M := (l.map f).sum

section Total

variable {M : Type} [AddCommMonoid M] (f : α → M)

@[simp] theorem total_nil : total f [] = 0 := rfl

@[simp] theorem total_cons (a : α) (l : List α) : total f (a :: l) = f a + total f l := by
  simp [total]

@[simp] theorem total_append (l₁ l₂ : List α) :
    total f (l₁ ++ l₂) = total f l₁ + total f l₂ := by
  simp [total]

/-- Replacing an entry exchanges its weight for the new one. -/
theorem total_set {l : List α} {i : Nat} {a : α} (b : α) (h : l[i]? = some a) :
    total f (l.set i b) + f a = total f l + f b := by
  induction l generalizing i with
  | nil => simp at h
  | cons c l ih =>
      cases i with
      | zero =>
          simp only [List.getElem?_cons_zero, Option.some.injEq] at h
          subst h
          rw [List.set_cons_zero, total_cons, total_cons]
          abel
      | succ i =>
          rw [List.getElem?_cons_succ] at h
          rw [List.set_cons_succ, total_cons, total_cons, add_assoc, ih h, ← add_assoc]

/-- Replacing an entry by one of the same weight changes no total. -/
theorem total_set_of_eq {M : Type} [AddCancelCommMonoid M] (f : α → M) {l : List α} {i : Nat}
    {a b : α} (h : l[i]? = some a) (hab : f a = f b) : total f (l.set i b) = total f l := by
  have hset := total_set f b h
  rw [hab] at hset
  exact add_right_cancel hset

/-- Without one of the entries. -/
theorem total_eraseIdx {l : List α} {i : Nat} {a : α} (h : l[i]? = some a) :
    total f (l.eraseIdx i) + f a = total f l := by
  obtain ⟨hi, rfl⟩ := List.getElem?_eq_some_iff.mp h
  have hsum := ((List.getElem_cons_eraseIdx_perm hi).map f).sum_eq
  rw [List.map_cons, List.sum_cons, add_comm] at hsum
  exact hsum

theorem total_eq_zero {l : List α} (h : ∀ a ∈ l, f a = 0) : total f l = 0 := by
  induction l with
  | nil => rfl
  | cons a l ih =>
      rw [total_cons, h a (by simp), zero_add]
      exact ih (fun b hb => h b (by simp [hb]))

theorem total_congr {g : α → M} {l : List α} (h : ∀ a ∈ l, f a = g a) : total f l = total g l :=
  congrArg List.sum (List.map_congr_left h)

theorem total_add (g : α → M) (l : List α) :
    total (fun a => f a + g a) l = total f l + total g l := by
  induction l with
  | nil => simp
  | cons a l ih =>
      rw [total_cons, total_cons, total_cons, ih]
      abel

/-- Totals of several weights add up to the total of their sum. -/
theorem sum_total {ι : Type} (s : Finset ι) (f : ι → α → M) (l : List α) :
    ∑ i ∈ s, total (f i) l = total (fun a => ∑ i ∈ s, f i a) l := by
  induction l with
  | nil => simp
  | cons a l ih => simp only [total_cons, Finset.sum_add_distrib, ih]

end Total

/-- A weight of one counts the entries. -/
theorem total_eq_length {f : α → Nat} {l : List α} (h : ∀ a ∈ l, f a = 1) :
    total f l = l.length := by
  induction l with
  | nil => rfl
  | cons a l ih =>
      rw [total_cons, List.length_cons, h a (by simp), ih (fun b hb => h b (by simp [hb])),
        add_comm]

/-- A weight of at most one counts at most the entries. -/
theorem total_le_length {f : α → Nat} {l : List α} (h : ∀ a ∈ l, f a ≤ 1) :
    total f l ≤ l.length := by
  induction l with
  | nil => exact le_rfl
  | cons a l ih =>
      have hhead := h a (by simp)
      have htail := ih (fun b hb => h b (by simp [hb]))
      rw [total_cons, List.length_cons]
      omega

/-- An entry of positive weight makes the total positive. -/
theorem le_total (f : α → Nat) {l : List α} {a : α} (h : a ∈ l) : f a ≤ total f l := by
  induction l with
  | nil => simp at h
  | cons b l ih =>
      rw [total_cons]
      rcases List.mem_cons.mp h with rfl | h
      · omega
      · have := ih h
        omega

/-- A total of natural numbers is zero only when every entry is. -/
theorem eq_zero_of_total {f : α → Nat} {l : List α} (h : total f l = 0) {a : α} (ha : a ∈ l) :
    f a = 0 := by
  have := le_total f ha
  omega

/-- A total of integers that are natural numbers is one. -/
theorem natCast_total {f : α → Nat} {g : α → Int} {l : List α} (h : ∀ a ∈ l, (f a : Int) = g a) :
    ((total f l : Nat) : Int) = total g l := by
  induction l with
  | nil => rfl
  | cons a l ih =>
      rw [total_cons, total_cons, Nat.cast_add, h a (by simp), ih (fun b hb => h b (by simp [hb]))]

theorem total_eq_sum_range (f : α → Nat) (l : List α) :
    total f l = ∑ i ∈ Finset.range l.length, (l[i]?).elim 0 f := by
  induction l with
  | nil => rfl
  | cons a l ih =>
      rw [total_cons, List.length_cons, Finset.sum_range_succ', ih, add_comm]
      rfl

/-- A sum over threads of which one changes. -/
theorem sum_range_exchange {f g : Nat → Nat} {n i : Nat} (hi : i < n)
    (h : ∀ j, j ≠ i → g j = f j) :
    ∑ j ∈ Finset.range n, g j + f i = ∑ j ∈ Finset.range n, f j + g i := by
  have hmem := Finset.mem_range.mpr hi
  rw [← Finset.add_sum_erase _ g hmem, ← Finset.add_sum_erase _ f hmem,
    Finset.sum_congr rfl (fun j hj => h j (Finset.ne_of_mem_erase hj))]
  abel

/-- Every entry of `l` that weighs something has an entry of `m` of its own that weighs
as much. -/
theorem total_le_total {β : Type} {f : α → Nat} {g : β → Nat} {l : List α} {m : List β}
    (R : Nat → Nat → Prop)
    (hex : ∀ i a, l[i]? = some a → f a ≠ 0 → ∃ j b, m[j]? = some b ∧ f a ≤ g b ∧ R i j)
    (hinj : ∀ i i' j, R i j → R i' j → i = i') : total f l ≤ total g m := by
  classical
  -- positions of `l` that count, and where each of them is sent
  let S := (Finset.range l.length).filter (fun i => (l[i]?).elim 0 f ≠ 0)
  have hsend : ∀ i ∈ S, ∃ j, R i j ∧ j < m.length ∧ (l[i]?).elim 0 f ≤ (m[j]?).elim 0 g := by
    intro i hi
    obtain ⟨hlt, hne⟩ := Finset.mem_filter.mp hi
    have hget := List.getElem?_eq_getElem (Finset.mem_range.mp hlt)
    rw [hget] at hne ⊢
    obtain ⟨j, b, hj, hle, hR⟩ := hex i _ hget hne
    refine ⟨j, hR, (List.getElem?_eq_some_iff.mp hj).1, ?_⟩
    rw [hj]
    exact hle
  choose! φ hφ using hsend
  have hφinj : Set.InjOn φ S := by
    intro i hi i' hi' heq
    exact hinj i i' (φ i) (hφ i hi).1 (heq ▸ (hφ i' hi').1)
  calc total f l = ∑ i ∈ S, (l[i]?).elim 0 f := by
        rw [total_eq_sum_range, Finset.sum_filter_ne_zero]
    _ ≤ ∑ i ∈ S, (m[φ i]?).elim 0 g := Finset.sum_le_sum (fun i hi => (hφ i hi).2.2)
    _ = ∑ j ∈ S.image φ, (m[j]?).elim 0 g := by rw [Finset.sum_image hφinj]
    _ ≤ ∑ j ∈ Finset.range m.length, (m[j]?).elim 0 g := by
        apply Finset.sum_le_sum_of_subset
        intro j hj
        obtain ⟨i, hi, rfl⟩ := Finset.mem_image.mp hj
        exact Finset.mem_range.mpr (hφ i hi).2.1
    _ = total g m := (total_eq_sum_range g m).symm

/-! ## Single entries -/

theorem lt_of_getElem? {l : List α} {i : Nat} {a : α} (h : l[i]? = some a) : i < l.length :=
  (List.getElem?_eq_some_iff.mp h).1

/-- The table after a step of thread `i`: its own entry, and the others as before. -/
theorem getElem?_set_eq {l : List α} {i : Nat} {a : α} (b : α) (h : l[i]? = some a) (j : Nat) :
    (l.set i b)[j]? = if j = i then some b else l[j]? := by
  have hlt := lt_of_getElem? h
  rw [List.getElem?_set]
  by_cases hij : i = j
  · subst hij
    simp [hlt]
  · simp [hij, Ne.symm hij]

theorem getElem?_append_eq (l : List α) (b : α) (j : Nat) :
    (l ++ [b])[j]? = if j = l.length then some b else l[j]? := by
  rcases Nat.lt_trichotomy j l.length with hlt | rfl | hgt
  · rw [List.getElem?_append_left hlt, if_neg hlt.ne]
  · rw [List.getElem?_concat_length, if_pos rfl]
  · rw [if_neg hgt.ne', List.getElem?_eq_none hgt.le, List.getElem?_eq_none]
    rw [List.length_append, List.length_singleton]
    exact hgt

/-- What stands at a position after a new call: an old entry, or the new one. -/
theorem getElem?_append_single {l : List α} {i : Nat} {a b : α} (h : (l ++ [b])[i]? = some a) :
    l[i]? = some a ∨ (i = l.length ∧ a = b) := by
  rw [getElem?_append_eq] at h
  split at h
  next heq =>
    cases h
    exact .inr ⟨heq, rfl⟩
  next => exact .inl h

theorem forall_mem_set {P : α → Prop} {l : List α} {i : Nat} {b : α} (h : ∀ a ∈ l, P a)
    (hb : P b) : ∀ a ∈ l.set i b, P a := by
  intro a ha
  rcases List.mem_or_eq_of_mem_set ha with hmem | rfl
  · exact h a hmem
  · exact hb

/-- Some other entry survives a step of thread `i`, and so does the new one. -/
theorem exists_mem_set {P : α → Prop} {l : List α} {i : Nat} {a b : α} (hi : l[i]? = some a)
    (h : ∃ c ∈ l, P c) (hab : P a → P b) : ∃ c ∈ l.set i b, P c := by
  obtain ⟨c, hc, hPc⟩ := h
  obtain ⟨j, hj⟩ := List.mem_iff_getElem?.mp hc
  by_cases hji : j = i
  · subst hji
    rw [hi, Option.some.injEq] at hj
    subst hj
    exact ⟨b, List.mem_set (lt_of_getElem? hi) b, hab hPc⟩
  · refine ⟨c, ?_, hPc⟩
    apply List.mem_iff_getElem?.mpr
    exact ⟨j, by rw [getElem?_set_eq b hi, if_neg hji, hj]⟩

/-! ## Moves of the whole table -/

/-- Every thread has gone where `R` says that it may. -/
def Moves (R : α → α → Prop) (l l' : List α) : Prop :=
  l'.length = l.length ∧ ∀ (i : Nat) (a : α), l[i]? = some a → ∃ b, l'[i]? = some b ∧ R a b

section Moves

variable {R : α → α → Prop} {l l' : List α}

theorem Moves.refl (hrefl : ∀ a, R a a) (l : List α) : Moves R l l :=
  ⟨rfl, fun _ a hi => ⟨a, hi, hrefl a⟩⟩

theorem Moves.set (hrefl : ∀ a, R a a) {i : Nat} {a : α} (b : α) (hi : l[i]? = some a)
    (hab : R a b) : Moves R l (l.set i b) := by
  refine ⟨List.length_set, fun j c hj => ?_⟩
  rw [getElem?_set_eq b hi]
  by_cases hji : j = i
  · subst hji
    rw [hj, Option.some.injEq] at hi
    subst hi
    exact ⟨b, if_pos rfl, hab⟩
  · exact ⟨c, by rw [if_neg hji, hj], hrefl c⟩

/-- Where an entry comes from. -/
theorem Moves.source (h : Moves R l l') {i : Nat} {b : α} (hi : l'[i]? = some b) :
    ∃ a, l[i]? = some a ∧ R a b := by
  have hlt : i < l.length := h.1 ▸ lt_of_getElem? hi
  obtain ⟨b', hb', hR⟩ := h.2 i _ (List.getElem?_eq_getElem hlt)
  rw [hi, Option.some.injEq] at hb'
  subst hb'
  exact ⟨_, List.getElem?_eq_getElem hlt, hR⟩

end Moves

/-! ## Condition variables -/

/-- Which local states sleep un-notified on the variable, and what a notification
makes of one. -/
structure CondVar (α : Type) where
  asleep : α → Bool
  wake : α → α

namespace CondVar

variable (cv : CondVar α)

/-- `notify_one`: the scheduler picks a sleeper, and may pick nobody only when
nobody sleeps. -/
def notifyOne (l : List α) : Option Nat → Option (List α)
  | none => if l.any cv.asleep then none else some l
  | some j => (l[j]?).bind (fun a => if cv.asleep a then some (l.set j (cv.wake a)) else none)

/-- `notify_all`: every sleeper is woken. -/
def notifyAll (l : List α) : List α :=
  l.map (fun a => if cv.asleep a then cv.wake a else a)

/-- What `notifyOne` can do to a table. -/
inductive NotifiesOne (l : List α) : List α → Prop where
  | nobody : (∀ a ∈ l, cv.asleep a = false) → NotifiesOne l l
  | one {j : Nat} {a : α} : l[j]? = some a → cv.asleep a = true →
      NotifiesOne l (l.set j (cv.wake a))

variable {cv}

theorem notifyOne_cases {l l' : List α} {pick : Option Nat} (h : cv.notifyOne l pick = some l') :
    cv.NotifiesOne l l' := by
  cases pick with
  | none =>
      simp only [notifyOne] at h
      split at h
      next => cases h
      next hnone =>
        cases h
        refine .nobody (fun a ha => ?_)
        have hall : ¬ ∃ a ∈ l, cv.asleep a = true := by simpa using hnone
        by_contra hasleep
        exact hall ⟨a, ha, by simpa using hasleep⟩
  | some j =>
      simp only [notifyOne, Option.bind_eq_some_iff] at h
      obtain ⟨a, hj, ha⟩ := h
      split at ha
      next hasleep =>
        cases ha
        exact .one hj hasleep
      next => cases ha

theorem notifyOne_of_awake {l : List α} (h : ∀ a ∈ l, cv.asleep a = false) :
    cv.notifyOne l none = some l := by
  have hany : l.any cv.asleep = false := by simpa using h
  simp [notifyOne, hany]

/-- A notification is never stuck: there is a sleeper to pick, or nobody sleeps. -/
theorem exists_notifyOne (l : List α) : ∃ pick l', cv.notifyOne l pick = some l' := by
  cases hany : l.any cv.asleep with
  | false => exact ⟨none, l, by simp [notifyOne, hany]⟩
  | true =>
      obtain ⟨a, ha, hasleep⟩ := List.any_eq_true.mp hany
      obtain ⟨j, hj⟩ := List.mem_iff_getElem?.mp ha
      exact ⟨some j, l.set j (cv.wake a), by simp [notifyOne, hj, hasleep]⟩

/-- A weight that a notification does not change has the same total after it. -/
theorem NotifiesOne.total_eq {M : Type} [AddCancelCommMonoid M] {f : α → M} {l l' : List α}
    (h : cv.NotifiesOne l l') (hf : ∀ a, cv.asleep a = true → f (cv.wake a) = f a) :
    total f l' = total f l := by
  cases h with
  | nobody => rfl
  | one hj hasleep => exact total_set_of_eq f hj (hf _ hasleep).symm

/-- If somebody sleeps after a notification, somebody was woken. -/
theorem NotifiesOne.wakes {f : α → Nat} {l l' : List α} (h : cv.NotifiesOne l l')
    (hf : ∀ a, cv.asleep a = true → f (cv.wake a) = f a + 1) (hsome : l'.any cv.asleep = true) :
    l.any cv.asleep = true ∧ total f l' = total f l + 1 := by
  cases h with
  | nobody hnone =>
      obtain ⟨a, ha, hasleep⟩ := List.any_eq_true.mp hsome
      rw [hnone a ha] at hasleep
      cases hasleep
  | @one j a hj hasleep =>
      refine ⟨List.any_eq_true.mpr ⟨a, List.mem_of_getElem? hj, hasleep⟩, ?_⟩
      have htotal := total_set (f := f) (cv.wake a) hj
      have hwake := hf a hasleep
      omega

/-- A weight that a notification raises by at most one. -/
theorem NotifiesOne.total_le {f : α → Nat} {l l' : List α} (h : cv.NotifiesOne l l')
    (hf : ∀ a, cv.asleep a = true → f (cv.wake a) ≤ f a + 1) : total f l' ≤ total f l + 1 := by
  cases h with
  | nobody => omega
  | @one j a hj hasleep =>
      have htotal := total_set (f := f) (cv.wake a) hj
      have hwake := hf a hasleep
      omega

/-- A property that a notification keeps holds of the whole table after it. -/
theorem NotifiesOne.forall_mem {P : α → Prop} {l l' : List α} (h : cv.NotifiesOne l l')
    (hP : ∀ a ∈ l, P a) (hwake : ∀ a, cv.asleep a = true → P a → P (cv.wake a)) :
    ∀ a ∈ l', P a := by
  cases h with
  | nobody => exact hP
  | one hj hasleep => exact forall_mem_set hP (hwake _ hasleep (hP _ (List.mem_of_getElem? hj)))

theorem NotifiesOne.length_eq {l l' : List α} (h : cv.NotifiesOne l l') :
    l'.length = l.length := by
  cases h with
  | nobody => rfl
  | one => simp

/-- Entries that do not sleep are untouched by a notification. -/
theorem NotifiesOne.getElem?_eq {l l' : List α} (h : cv.NotifiesOne l l') {i : Nat} {a : α}
    (hi : l[i]? = some a) (hawake : cv.asleep a = false) : l'[i]? = some a := by
  cases h with
  | nobody => exact hi
  | @one j b hj hasleep =>
      rw [getElem?_set_eq _ hj]
      by_cases hij : i = j
      · subst hij
        rw [hi, Option.some.injEq] at hj
        subst hj
        simp [hawake] at hasleep
      · rw [if_neg hij, hi]

/-- What stands at a position after a notification: the same entry, or the woken
one. -/
theorem NotifiesOne.getElem?_inv {l l' : List α} (h : cv.NotifiesOne l l') {i : Nat} {b : α}
    (hi : l'[i]? = some b) :
    l[i]? = some b ∨ ∃ a, l[i]? = some a ∧ cv.asleep a = true ∧ b = cv.wake a := by
  cases h with
  | nobody => exact .inl hi
  | @one j a hj hasleep =>
      rw [getElem?_set_eq _ hj] at hi
      split at hi
      next heq =>
        subst heq
        cases hi
        exact .inr ⟨a, hj, hasleep, rfl⟩
      next => exact .inl hi

@[simp] theorem length_notifyAll (l : List α) : (cv.notifyAll l).length = l.length := by
  simp [notifyAll]

theorem getElem?_notifyAll (l : List α) (i : Nat) :
    (cv.notifyAll l)[i]? = l[i]?.map (fun a => if cv.asleep a then cv.wake a else a) := by
  simp [notifyAll]

theorem forall_mem_notifyAll {P : α → Prop} {l : List α} (hP : ∀ a ∈ l, P a)
    (hwake : ∀ a, cv.asleep a = true → P a → P (cv.wake a)) : ∀ a ∈ cv.notifyAll l, P a := by
  intro b hb
  obtain ⟨a, ha, rfl⟩ := List.mem_map.mp hb
  split
  next hasleep => exact hwake a hasleep (hP a ha)
  next => exact hP a ha

theorem total_notifyAll {M : Type} [AddCommMonoid M] {f : α → M} {l : List α}
    (hf : ∀ a, cv.asleep a = true → f (cv.wake a) = f a) :
    total f (cv.notifyAll l) = total f l := by
  induction l with
  | nil => rfl
  | cons a l ih =>
      have hhead : f (if cv.asleep a then cv.wake a else a) = f a := by
        split
        next hasleep => exact hf a hasleep
        next => rfl
      change total f ((if cv.asleep a then cv.wake a else a) :: cv.notifyAll l) = _
      rw [total_cons, total_cons, ih, hhead]

theorem total_notifyAll_le {f : α → Nat} {l : List α}
    (hf : ∀ a, cv.asleep a = true → f (cv.wake a) ≤ f a + 1) :
    total f (cv.notifyAll l) ≤ total f l + l.length := by
  induction l with
  | nil => exact le_rfl
  | cons a l ih =>
      have hhead : f (if cv.asleep a then cv.wake a else a) ≤ f a + 1 := by
        split
        next hasleep => exact hf a hasleep
        next => omega
      change total f ((if cv.asleep a then cv.wake a else a) :: cv.notifyAll l) ≤ _
      rw [total_cons, total_cons, List.length_cons]
      omega

/-- `notify_all` changes nothing when nobody sleeps. -/
theorem notifyAll_of_awake {l : List α} (h : ∀ a ∈ l, cv.asleep a = false) :
    cv.notifyAll l = l := by
  conv_rhs => rw [← List.map_id l]
  apply List.map_congr_left
  intro a ha
  simp [h a ha]

/-- Nobody sleeps after `notify_all`, when a woken thread no longer does. -/
theorem notifyAll_awake (hwake : ∀ a, cv.asleep (cv.wake a) = false) (l : List α) :
    ∀ a ∈ cv.notifyAll l, cv.asleep a = false := by
  intro b hb
  obtain ⟨a, -, rfl⟩ := List.mem_map.mp hb
  split
  next => exact hwake a
  next hawake => simpa using hawake

end CondVar

end Interleaving
