import InferenceRouter.Interleaving.Machine
import InferenceRouter.Interleaving.Prog
import InferenceRouter.Interleaving.Threads
import Mathlib.Data.Nat.Find

/-!
# How long a run can be

A machine that is left alone comes to rest when every step of its threads lowers
a rank.  The environment may raise the rank again: a new request, a spurious
wakeup.  `Machine.countP_le_rank` prices such events, so a run has no more steps
of the threads than its first state's rank and the prices of its events allow.

The rank of a thread that runs a program is the program's `depth`, the largest
number of calls on any of its paths.  Paths branch over results of any type, so
the depth is defined by the protocol that counts calls down, and not by
recursion.
-/

namespace Interleaving

/-! ## Depth of a program -/

/-- The protocol that allows a number of calls. -/
def countdown (Op : Type) (Ret : Op → Type) : Protocol Op Ret Nat where
  allowed n _ := 0 < n
  next n _ _ := n - 1
  final _ := True

@[simp] theorem countdown_allowed {Op : Type} {Ret : Op → Type} (n : Nat) (o : Op) :
    (countdown Op Ret).allowed n o ↔ 0 < n := Iff.rfl

@[simp] theorem countdown_next {Op : Type} {Ret : Op → Type} (n : Nat) (o : Op) (r : Ret o) :
    (countdown Op Ret).next n o r = n - 1 := rfl

@[simp] theorem countdown_final {Op : Type} {Ret : Op → Type} (n : Nat) :
    (countdown Op Ret).final n ↔ True := Iff.rfl

namespace Prog

variable {Op : Type} {Ret : Op → Type} {α : Type}

/-- Every path of the program has at most `n` calls. -/
def Within (p : Prog Op Ret α) (n : Nat) : Prop := p.Follows (countdown Op Ret) n

theorem within_call_iff {o : Op} {k : Ret o → Prog Op Ret α} {n : Nat} :
    (Prog.call o k).Within n ↔ 0 < n ∧ ∀ r, (k r).Within (n - 1) := Iff.rfl

open Classical in
/-- The most calls on a path, or zero when there is no bound. -/
noncomputable def depth (p : Prog Op Ret α) : Nat :=
  if h : ∃ n, p.Within n then Nat.find h else 0

theorem within_depth {p : Prog Op Ret α} {n : Nat} (h : p.Within n) : p.Within p.depth := by
  classical
  have hex : ∃ n, p.Within n := ⟨n, h⟩
  rw [depth, dif_pos hex]
  exact Nat.find_spec hex

theorem depth_le {p : Prog Op Ret α} {n : Nat} (h : p.Within n) : p.depth ≤ n := by
  classical
  rw [depth, dif_pos ⟨n, h⟩]
  exact Nat.find_min' _ h

/-- A call leaves fewer calls to make. -/
theorem depth_lt {o : Op} {k : Ret o → Prog Op Ret α} {n : Nat} (h : (Prog.call o k).Within n)
    (r : Ret o) : (k r).depth < (Prog.call o k).depth := by
  obtain ⟨hpos, hrest⟩ := within_call_iff.mp (within_depth h)
  have hle := depth_le (hrest r)
  omega

end Prog

/-! ## Steps that lower a rank -/

namespace Machine

variable {σ ε : Type} {m : Machine σ ε}

/-- If a step of kind `p` lowers the rank, up to the price of its event, as long as `W`
holds, then a schedule after which `W` still holds has no more of them than the rank it
started with and the prices of its events. -/
theorem countP_le_rank_while {I W : σ → Prop} {rank : σ → Nat} {p : ε → Bool} {price : ε → Nat}
    (hI : ∀ s e s', I s → m.step s e = some s' → I s')
    (hW : ∀ s e s', m.step s e = some s' → W s' → W s)
    (hrank : ∀ s e s', I s → W s' → m.step s e = some s' →
      (p e).toNat + rank s' ≤ rank s + price e)
    {es : List ε} {s s' : σ} (hs : I s) (h : m.exec s es = some s') (hend : W s') :
    W s ∧ es.countP p + rank s' ≤ rank s + total price es := by
  induction es generalizing s with
  | nil =>
      cases h
      exact ⟨hend, by simp⟩
  | cons e es ih =>
      obtain ⟨t, ht, hrest⟩ := exec_cons_iff.mp h
      obtain ⟨hWt, htail⟩ := ih (hI s e t hs ht) hrest
      have hhead := hrank s e t hs hWt ht
      refine ⟨hW s e t ht hWt, ?_⟩
      rw [List.countP_cons, total_cons]
      cases hp : p e with
      | true =>
          rw [hp, Bool.toNat_true] at hhead
          rw [if_pos rfl]
          omega
      | false =>
          rw [hp, Bool.toNat_false] at hhead
          rw [if_neg Bool.false_ne_true]
          omega

/-- If a step of kind `p` lowers the rank, up to the price of its event, a schedule has
no more of them than the rank it started with and the prices of its events. -/
theorem countP_le_rank {I : σ → Prop} {rank : σ → Nat} {p : ε → Bool} {price : ε → Nat}
    (hI : ∀ s e s', I s → m.step s e = some s' → I s')
    (hrank : ∀ s e s', I s → m.step s e = some s' → (p e).toNat + rank s' ≤ rank s + price e)
    {es : List ε} {s s' : σ} (hs : I s) (h : m.exec s es = some s') :
    es.countP p + rank s' ≤ rank s + total price es :=
  (countP_le_rank_while (W := fun _ => True) hI (fun _ _ _ _ _ => trivial)
    (fun s e s' hs _ hstep => hrank s e s' hs hstep) hs h trivial).2

end Machine

end Interleaving
