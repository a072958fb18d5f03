/-!
# Programs over operations and the protocols they follow

`Prog Op Ret α` is a program whose only effects are calls of operations `o : Op`
with results in `Ret o`.  It is a tree: a leaf returns, a node calls an operation
and continues with whatever result the environment chooses.  Straight-line code
with early returns is written with `do` and stays readable next to its source,
and a thread that runs it is given by the rest of the program alone.

A *protocol* is an automaton over the calls: which calls are allowed in a state,
and how a call and its result move it.  `Follows` says that a program makes only
allowed calls on every path and returns only in final states.  So a property of
all the calls of a program is proved once, by walking through its text, and
whoever interleaves such programs keeps only the automaton's state of each.
-/

namespace Interleaving

/-- A program over the operations `Op` with results `Ret`. -/
inductive Prog (Op : Type) (Ret : Op → Type) (α : Type) : Type where
  | pure (a : α)
  | call (o : Op) (k : Ret o → Prog Op Ret α)

namespace Prog

variable {Op : Type} {Ret : Op → Type} {α β : Type}

protected def bind : Prog Op Ret α → (α → Prog Op Ret β) → Prog Op Ret β
  | .pure a, f => f a
  | .call o k, f => .call o (fun r => (k r).bind f)

instance : Monad (Prog Op Ret) where
  pure := .pure
  bind := .bind

/-- The program that makes one call and returns its result. -/
def perform (o : Op) : Prog Op Ret (Ret o) := .call o .pure

@[simp] theorem pure_eq (a : α) : (Pure.pure a : Prog Op Ret α) = .pure a := rfl

@[simp] theorem perform_bind (o : Op) (f : Ret o → Prog Op Ret α) :
    perform o >>= f = .call o f := rfl

@[simp] theorem call_bind (o : Op) (k : Ret o → Prog Op Ret α) (f : α → Prog Op Ret β) :
    Prog.call o k >>= f = .call o (fun r => k r >>= f) := rfl

@[simp] theorem pure_bind (a : α) (f : α → Prog Op Ret β) : Prog.pure a >>= f = f a := rfl

/-- The program has returned. -/
def isPure : Prog Op Ret α → Bool
  | .pure _ => true
  | .call _ _ => false

/-- The call that comes next. -/
def nextCall : Prog Op Ret α → Option Op
  | .pure _ => none
  | .call o _ => some o

theorem nextCall_eq_some {p : Prog Op Ret α} {o : Op} :
    p.nextCall = some o ↔ ∃ k, p = .call o k := by
  cases p with
  | pure a => simp [nextCall]
  | call o' k =>
      simp only [nextCall, Option.some.injEq, call.injEq]
      constructor
      · rintro rfl
        exact ⟨k, rfl, HEq.rfl⟩
      · rintro ⟨k', rfl, -⟩
        rfl

end Prog

/-- An automaton over calls and their results. -/
structure Protocol (Op : Type) (Ret : Op → Type) (γ : Type) where
  allowed : γ → Op → Prop
  next : γ → (o : Op) → Ret o → γ
  final : γ → Prop

namespace Prog

variable {Op : Type} {Ret : Op → Type} {α γ : Type} {P : Protocol Op Ret γ}

/-- Every path of the program makes only calls that the protocol allows and ends
in a final state. -/
def Follows (P : Protocol Op Ret γ) : γ → Prog Op Ret α → Prop
  | g, .pure _ => P.final g
  | g, .call o k => P.allowed g o ∧ ∀ r, (k r).Follows P (P.next g o r)

@[simp] theorem follows_pure {g : γ} {a : α} :
    (Prog.pure a : Prog Op Ret α).Follows P g ↔ P.final g := Iff.rfl

@[simp] theorem follows_call {g : γ} {o : Op} {k : Ret o → Prog Op Ret α} :
    (Prog.call o k).Follows P g ↔ P.allowed g o ∧ ∀ r, (k r).Follows P (P.next g o r) := Iff.rfl

@[simp] theorem follows_perform {g : γ} {o : Op} :
    (perform o : Prog Op Ret (Ret o)).Follows P g ↔
      P.allowed g o ∧ ∀ r, P.final (P.next g o r) := Iff.rfl

@[simp] theorem follows_ite {g : γ} {c : Prop} [Decidable c] {p q : Prog Op Ret α} :
    (if c then p else q).Follows P g ↔ (c → p.Follows P g) ∧ (¬ c → q.Follows P g) := by
  split
  next h => simp [h]
  next h => simp [h]

end Prog

end Interleaving
