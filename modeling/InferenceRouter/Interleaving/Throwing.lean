import InferenceRouter.Interleaving.Trace

/-!
# Calls that throw

An environment may also throw out of a call.  Nothing of the program runs after that, so
what was done up to the call is all that was done.  `Prog.attempt` runs a program in such
an environment.  A run that returns is a run of `Prog.run` (`attempt_returned`).

The program's text does not say where a run ends, but the protocol it follows does: a run
that returns ends in a final state, and a run that throws ends in a state that allows the
call (`Follows.attempt`).
-/

namespace Interleaving

/-- How a run ends, with what it did and the state it leaves. -/
inductive Ending (α A σ : Type) where
  | returned (a : α) (acts : List A) (s : σ)
  | threw (acts : List A) (s : σ)

namespace Ending

variable {α A σ : Type}

def isThrow : Ending α A σ → Bool
  | .returned _ _ _ => false
  | .threw _ _ => true

/-- What a caller that catches everything finds done. -/
def acts : Ending α A σ → List A
  | .returned _ acts _ | .threw acts _ => acts

/-- The state in which such a caller goes on. -/
def state : Ending α A σ → σ
  | .returned _ _ s | .threw _ s => s

/-- The same ending, after earlier acts. -/
def after (before : List A) : Ending α A σ → Ending α A σ
  | .returned a acts s => .returned a (before ++ acts) s
  | .threw acts s => .threw (before ++ acts) s

@[simp] theorem isThrow_after (before : List A) (e : Ending α A σ) :
    (e.after before).isThrow = e.isThrow := by
  cases e <;> rfl

@[simp] theorem acts_after (before : List A) (e : Ending α A σ) :
    (e.after before).acts = before ++ e.acts := by
  cases e <;> rfl

@[simp] theorem state_after (before : List A) (e : Ending α A σ) :
    (e.after before).state = e.state := by
  cases e <;> rfl

end Ending

/-- An environment that may throw. -/
abbrev ThrowingEnv (Op : Type) (Ret : Op → Type) (A σ : Type) :=
  (o : Op) → σ → Option (Ending (Ret o) A σ)

namespace Prog

variable {Op : Type} {Ret : Op → Type} {A σ α γ : Type} {env : ThrowingEnv Op Ret A σ}
  {P : Protocol Op Ret γ}

/-- How the run of a program ends.  `none` is a run that does not end. -/
def attempt (env : ThrowingEnv Op Ret A σ) : Prog Op Ret α → σ → Option (Ending α A σ)
  | .pure a, s => some (.returned a [] s)
  | .call o k, s =>
      match env o s with
      | none => none
      | some (.threw acts t) => some (.threw acts t)
      | some (.returned r acts t) => ((k r).attempt env t).map (Ending.after acts)

/-- A call throws, or it returns and the rest of the program ends. -/
theorem attempt_call_cases {o : Op} {k : Ret o → Prog Op Ret α} {s : σ} {e : Ending α A σ}
    (h : (Prog.call o k).attempt env s = some e) :
    (∃ acts t, env o s = some (.threw acts t) ∧ e = .threw acts t) ∨
    ∃ r acts t e', env o s = some (.returned r acts t) ∧ (k r).attempt env t = some e' ∧
      e = e'.after acts := by
  simp only [attempt] at h
  split at h
  next => cases h
  next acts t henv =>
    cases h
    exact .inl ⟨acts, t, henv, rfl⟩
  next r acts t henv =>
    obtain ⟨e', he', rfl⟩ := Option.map_eq_some_iff.mp h
    exact .inr ⟨r, acts, t, e', henv, he', rfl⟩

/-- A run that returns is a run in any environment that answers in the same way where
this one returns. -/
theorem attempt_returned (answers : Env Op Ret A σ)
    (henv : ∀ o s r acts t, env o s = some (.returned r acts t) →
      answers o s = some (r, acts, t))
    {p : Prog Op Ret α} {s t : σ} {a : α} {tr : List A}
    (h : p.attempt env s = some (.returned a tr t)) : p.run answers s = some (a, tr, t) := by
  induction p generalizing s tr with
  | pure b =>
      cases h
      rfl
  | call o k ih =>
      rcases attempt_call_cases h with ⟨acts, u, -, he⟩ | ⟨r, acts, u, e', hcall, hrest, he⟩
      · cases he
      · cases e' with
        | threw => cases he
        | returned b more v =>
            cases he
            exact run_call_iff.mpr ⟨r, acts, u, more, henv o s r acts u hcall, ih r hrest, rfl⟩

/-- A run that keeps to a protocol.  `I` relates the state of the protocol to what was
done, and `Q` is what it gives for a call that throws. -/
theorem Follows.attempt {I : γ → List A → σ → Prop} {Q : List A → σ → Prop}
    (hstep : ∀ {g tr s o r acts t}, P.allowed g o → I g tr s →
      env o s = some (.returned r acts t) → I (P.next g o r) (tr ++ acts) t)
    (hthrow : ∀ {g tr s o acts t}, P.allowed g o → I g tr s → env o s = some (.threw acts t) →
      Q (tr ++ acts) t)
    {p : Prog Op Ret α} {g : γ} (hp : p.Follows P g) {tr : List A} {s : σ} (hI : I g tr s)
    {e : Ending α A σ} (h : p.attempt env s = some e) :
    (e.isThrow = false → ∃ g', P.final g' ∧ I g' (tr ++ e.acts) e.state) ∧
    (e.isThrow = true → Q (tr ++ e.acts) e.state) := by
  induction p generalizing g tr s e with
  | pure a =>
      cases h
      refine ⟨fun _ => ⟨g, hp, ?_⟩, nofun⟩
      simpa [Ending.acts, Ending.state] using hI
  | call o k ih =>
      rcases attempt_call_cases h with ⟨acts, t, hcall, rfl⟩ | ⟨r, acts, t, e', hcall, hrest, rfl⟩
      · exact ⟨nofun, fun _ => hthrow hp.1 hI hcall⟩
      · have hboth := ih r (hp.2 r) (hstep hp.1 hI hcall) hrest
        simpa using hboth

end Prog

end Interleaving
