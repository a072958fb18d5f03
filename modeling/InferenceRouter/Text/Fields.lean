import Mathlib.Algebra.Ring.Nat
import Mathlib.Data.List.Basic

/-!
# Lines of fields

A *field* is a key, an equals sign and a number in decimal.  A *line* is a list of fields
with a blank between two.  A reader that cuts the line at its blanks and each word at its
first equals sign gets the fields back (`readLine_line`), if no key contains a blank or an
equals sign.
-/

namespace Fields

/-- The number in decimal, without leading zeros. -/
def decimal (n : Nat) : List Char := Nat.toDigits 10 n

def field (f : String × Nat) : List Char := f.1.toList ++ '=' :: decimal f.2

def line (fs : List (String × Nat)) : List Char := [' '].intercalate (fs.map field)

def readField (word : List Char) : String × Nat :=
  (String.ofList (word.takeWhile (· ≠ '=')),
    Nat.ofDigitChars 10 ((word.dropWhile (· ≠ '=')).drop 1) 0)

def readLine (text : List Char) : List (String × Nat) := (text.splitOn ' ').map readField

/-- The key can be told from what follows it. -/
def IsKey (key : String) : Prop := '=' ∉ key.toList ∧ ' ' ∉ key.toList

theorem isDigit_of_mem_decimal {n : Nat} {c : Char} (h : c ∈ decimal n) : c.isDigit = true :=
  Nat.isDigit_of_mem_toDigits (by decide) (by decide) h

theorem length_decimal_le {n k : Nat} (hk : 0 < k) (h : n < 10 ^ k) : (decimal n).length ≤ k :=
  (Nat.length_toDigits_le_iff (by decide) hk).mpr h

theorem readField_field {f : String × Nat} (h : IsKey f.1) : readField (field f) = f := by
  have hkey : ∀ c ∈ f.1.toList, decide (c ≠ '=') = true := by
    intro c hc
    rw [decide_eq_true_eq]
    rintro rfl
    exact h.1 hc
  have htake : (field f).takeWhile (· ≠ '=') = f.1.toList := by
    rw [field, List.takeWhile_append_of_pos hkey]
    simp
  have hdrop : (field f).dropWhile (· ≠ '=') = '=' :: decimal f.2 := by
    rw [field, List.dropWhile_append_of_pos hkey]
    simp
  rw [readField, htake, hdrop, List.drop_succ_cons, List.drop_zero, decimal,
    Nat.ofDigitChars_toDigits (by decide) (by decide), String.ofList_toList]

theorem blank_not_mem_field {f : String × Nat} (h : IsKey f.1) : ' ' ∉ field f := by
  intro hmem
  rcases List.mem_append.mp hmem with hkey | hrest
  · exact h.2 hkey
  · rcases List.mem_cons.mp hrest with heq | hdigit
    · cases heq
    · cases isDigit_of_mem_decimal hdigit

theorem readLine_line {fs : List (String × Nat)} (hne : fs ≠ []) (h : ∀ f ∈ fs, IsKey f.1) :
    readLine (line fs) = fs := by
  have hblank : ∀ word ∈ fs.map field, ' ' ∉ word := by
    intro word hword
    obtain ⟨f, hf, rfl⟩ := List.mem_map.mp hword
    exact blank_not_mem_field (h f hf)
  rw [readLine, line, List.splitOn_intercalate ' ' hblank (by simpa using hne), List.map_map]
  exact (List.map_congr_left (fun f hf => readField_field (h f hf))).trans (List.map_id _)

/-- A line is as long as its keys and numbers, with an equals sign and a blank for each. -/
theorem length_line_le {fs : List (String × Nat)} {k : Nat}
    (h : ∀ f ∈ fs, (decimal f.2).length ≤ k) :
    (line fs).length ≤ (fs.map (fun f => f.1.toList.length + k + 2)).sum := by
  induction fs with
  | nil => exact Nat.le_refl _
  | cons f fs ih =>
      have hf := h f List.mem_cons_self
      have hrest := ih (fun g hg => h g (List.mem_cons_of_mem _ hg))
      have hcons : (line (f :: fs)).length ≤ (field f).length + 1 + (line fs).length := by
        cases fs with
        | nil => simp [line]
        | cons g gs => simp [line, List.intercalate_cons_cons]; omega
      rw [List.map_cons, List.sum_cons]
      simp only [field, List.length_append, List.length_cons] at hcons
      omega

end Fields
