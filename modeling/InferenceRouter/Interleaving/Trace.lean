import InferenceRouter.Interleaving.Prog

/-!
# Programs and the environments they run in

An *environment* answers the calls of a program: it returns a result, says what was done
meanwhile, and goes on from another state.  `Prog.run` runs a program to its end and
collects what was done.  An environment without an answer is a call that never returns.

Two runs *agree* when the same value is returned in states that `R` relates, after acts
that `f` translates, or when neither run returns.  `Agrees.bind` composes that along two
programs, call by call.
-/

namespace Interleaving

/-- An environment for the operations `Op`, with a state `σ`. -/
abbrev Env (Op : Type) (Ret : Op → Type) (A σ : Type) := (o : Op) → σ → Option (Ret o × List A × σ)

namespace Prog

variable {Op : Type} {Ret : Op → Type} {A B σ σ' α β : Type} {env : Env Op Ret A σ}
  {env' : Env Op Ret B σ'}

/-- The value that the program returns, what was done, and the state it leaves. -/
def run (env : Env Op Ret A σ) : Prog Op Ret α → σ → Option (α × List A × σ)
  | .pure a, s => some (a, [], s)
  | .call o k, s =>
      match env o s with
      | none => none
      | some (r, acts, t) =>
          match (k r).run env t with
          | none => none
          | some (a, more, u) => some (a, acts ++ more, u)

@[simp] theorem run_pure (a : α) (s : σ) :
    (Prog.pure a : Prog Op Ret α).run env s = some (a, [], s) := rfl

theorem run_call_iff {o : Op} {k : Ret o → Prog Op Ret α} {s u : σ} {a : α} {tr : List A} :
    (Prog.call o k).run env s = some (a, tr, u) ↔
      ∃ r acts t more, env o s = some (r, acts, t) ∧ (k r).run env t = some (a, more, u) ∧
        tr = acts ++ more := by
  constructor
  · intro h
    simp only [run] at h
    split at h
    next => cases h
    next r acts t henv =>
      split at h
      next => cases h
      next a more u hrun =>
        cases h
        exact ⟨r, acts, t, more, henv, hrun, rfl⟩
  · rintro ⟨r, acts, t, more, henv, hrun, rfl⟩
    simp only [run, henv, hrun]

theorem run_perform (o : Op) (s : σ) :
    (perform o : Prog Op Ret (Ret o)).run env s = env o s := by
  simp only [perform, run]
  split
  next h => exact h.symm
  next r acts t h => rw [h, List.append_nil]

theorem run_bind (p : Prog Op Ret α) (f : α → Prog Op Ret β) (s : σ) :
    (p >>= f).run env s =
      match p.run env s with
      | none => none
      | some (a, acts, t) =>
          match (f a).run env t with
          | none => none
          | some (b, more, u) => some (b, acts ++ more, u) := by
  induction p generalizing s with
  | pure a =>
      rw [pure_bind]
      simp only [run, List.nil_append]
      split
      next h => exact h
      next h => exact h
  | call o k ih =>
      rw [call_bind]
      simp only [run]
      cases henv : env o s with
      | none => rfl
      | some answer =>
          obtain ⟨r, acts, t⟩ := answer
          simp only [ih r t]
          cases hk : (k r).run env t with
          | none => rfl
          | some result =>
              obtain ⟨a, more, u⟩ := result
              simp only
              cases hf : (f a).run env u with
              | none => rfl
              | some last => simp only [List.append_assoc]

theorem run_bind_iff {p : Prog Op Ret α} {f : α → Prog Op Ret β} {s u : σ} {b : β} {tr : List A} :
    (p >>= f).run env s = some (b, tr, u) ↔
      ∃ a acts t more, p.run env s = some (a, acts, t) ∧ (f a).run env t = some (b, more, u) ∧
        tr = acts ++ more := by
  rw [run_bind]
  constructor
  · intro h
    split at h
    next => cases h
    next a acts t hp =>
      split at h
      next => cases h
      next b more u hf =>
        cases h
        exact ⟨a, acts, t, more, hp, hf, rfl⟩
  · rintro ⟨a, acts, t, more, hp, hf, rfl⟩
    simp only [hp, hf]

/-- What follows a part that returned. -/
theorem run_bind_of {p : Prog Op Ret α} {f : α → Prog Op Ret β} {s t : σ} {a : α} {acts : List A}
    (h : p.run env s = some (a, acts, t)) :
    (p >>= f).run env s = ((f a).run env t).map (fun r => (r.1, acts ++ r.2.1, r.2.2)) := by
  rw [run_bind, h]
  simp only
  cases (f a).run env t <;> rfl

/-- The program returns. -/
def Returns (env : Env Op Ret A σ) (p : Prog Op Ret α) (s : σ) : Prop :=
  ∃ a tr t, p.run env s = some (a, tr, t)

/-- A program returns if its first part does and what follows returns from there. -/
theorem Returns.bind {p : Prog Op Ret α} {f : α → Prog Op Ret β} {s t : σ} {a : α} {acts : List A}
    (hp : p.run env s = some (a, acts, t)) (hf : (f a).Returns env t) :
    (p >>= f).Returns env s := by
  obtain ⟨b, more, u, hf⟩ := hf
  exact ⟨b, acts ++ more, u, run_bind_iff.mpr ⟨a, acts, t, more, hp, hf, rfl⟩⟩

/-! ## Agreement -/

/-- Both runs return the same, the second one after the acts of the first in
translation, or neither returns. -/
inductive Agree (f : A → List B) (R : σ → σ' → Prop) :
    Option (α × List A × σ) → Option (α × List B × σ') → Prop where
  | neither : Agree f R none none
  | both {a : α} {acts : List A} {s : σ} {s' : σ'} : R s s' →
      Agree f R (some (a, acts, s)) (some (a, acts.flatMap f, s'))

variable {f : A → List B} {R : σ → σ' → Prop}

/-- Acts in translation. -/
theorem Agree.of_eq {a : α} {acts : List A} {acts' : List B} {s : σ} {s' : σ'}
    (hacts : acts.flatMap f = acts') (hR : R s s') :
    Agree f R (some (a, acts, s)) (some (a, acts', s')) := by
  rw [← hacts]
  exact .both hR

theorem Agree.after {x : Option (α × List A × σ)} {x' : Option (α × List B × σ')}
    (h : Agree f R x x') {acts : List A} {acts' : List B} (hacts : acts.flatMap f = acts') :
    Agree f R (x.map (fun r => (r.1, acts ++ r.2.1, r.2.2)))
      (x'.map (fun r => (r.1, acts' ++ r.2.1, r.2.2))) := by
  cases h with
  | neither => exact .neither
  | both hR => exact .of_eq (by rw [List.flatMap_append, hacts]) hR

/-- The runs of two programs agree, from all states that `R` relates. -/
def Agrees (f : A → List B) (R : σ → σ' → Prop) (env : Env Op Ret A σ) (env' : Env Op Ret B σ')
    (p p' : Prog Op Ret α) : Prop :=
  ∀ s s', R s s' → Agree f R (p.run env s) (p'.run env' s')

/-- A part that agrees, followed by parts that agree for every value it can return. -/
theorem Agrees.bind {p p' : Prog Op Ret α} {k k' : α → Prog Op Ret β}
    (h : Agrees f R env env' p p')
    (hk : ∀ a, (∃ s acts t, p.run env s = some (a, acts, t)) → Agrees f R env env' (k a) (k' a)) :
    Agrees f R env env' (p >>= k) (p' >>= k') := by
  intro s s' hR
  have hfirst := h s s' hR
  cases hp : p.run env s with
  | none =>
      cases hp' : p'.run env' s' with
      | none =>
          rw [run_bind, run_bind, hp, hp']
          exact .neither
      | some r' =>
          rw [hp, hp'] at hfirst
          cases hfirst
  | some r =>
      obtain ⟨a, acts, t⟩ := r
      rw [hp] at hfirst
      cases hp' : p'.run env' s' with
      | none =>
          rw [hp'] at hfirst
          cases hfirst
      | some r' =>
          rw [hp'] at hfirst
          cases hfirst with
          | both hR' =>
              rw [run_bind_of hp, run_bind_of hp']
              exact (hk a ⟨s, acts, t, hp⟩ _ _ hR').after rfl

theorem Agrees.pure (a : α) :
    Agrees f R env env' (Prog.pure a : Prog Op Ret α) (Prog.pure a : Prog Op Ret α) :=
  fun _ _ hR => .both hR

end Prog

end Interleaving
