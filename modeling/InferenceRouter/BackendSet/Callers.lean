import InferenceRouter.BackendSet.Accounting

/-!
# The set from outside

Whoever uses the set calls `borrow`, `release` and `shutdown`, and everything else
happens inside: `Event.inner` are the steps of the threads that are in the set already.
From outside, a caller is in one of five stages, and an inner step moves it along
(`stages_step`).
-/

namespace InferenceRouter.BackendSet

open Interleaving Handler

variable {cfg : Config} {s s' : State} {e : Event}

/-- The steps of the threads that are inside the set. -/
def Event.inner : Event → Bool
  | .clock _ | .borrow | .release _ _ | .shutdown => false
  | _ => true

/-- A caller as the code around the set sees it. -/
inductive Stage where
  | borrowing
  | held (h : Handle)
  | releasing (h : Handle)
  | returned (h : Handle)
  | failed

def Caller.stage : Caller → Stage
  | .entered | .locked | .picking _ | .picked _ | .borrowing _ _ | .borrowed _ _ _ | .refused _ =>
      .borrowing
  | .held h _ => .held h
  | .releasing h _ | .released h => .releasing h
  | .returned h => .returned h
  | .failed => .failed

/-- What may become of a caller by an inner step. -/
def Stage.Leads : Stage → Stage → Prop
  | .borrowing, .borrowing | .borrowing, .held _ | .borrowing, .failed => True
  | .releasing h, .releasing h' | .releasing h, .returned h' => h = h'
  | p, q => p = q

/-- The caller has nothing left to do. -/
def Stage.over : Stage → Bool
  | .returned _ | .failed => true
  | .borrowing | .held _ | .releasing _ => false

section Stage

variable {p q r : Stage}

theorem Stage.Leads.refl (p : Stage) : p.Leads p := by
  cases p with
  | borrowing => trivial
  | held | releasing | returned | failed => rfl

theorem Stage.Leads.trans (h : p.Leads q) (hqr : q.Leads r) : p.Leads r := by
  cases p <;> cases q <;> cases r <;> simp_all [Leads]

theorem Stage.Leads.eq_of_held {h : Handle} (hleads : (Stage.held h).Leads q) : q = .held h :=
  (show Stage.held h = q from hleads).symm

theorem Stage.Leads.over (h : p.Leads q) (hp : p.over = true) : q.over = true := by
  cases p <;> cases q <;> simp_all [Leads, Stage.over]

end Stage

/-- A caller that counts on a backend is not through. -/
theorem Caller.backend_of_over {c : Caller} (h : c.stage.over = true) : c.backend = none := by
  cases c <;> simp_all [stage, Stage.over, backend]

/-- The stage of caller `c`. -/
def State.stage (s : State) (c : Nat) : Option Stage := s.callers[c]?.map Caller.stage

theorem stages_step (h : Step cfg s e s') (hinner : e.inner = true) :
    Moves (fun c c' : Caller => c.stage.Leads c'.stage) s.callers s'.callers := by
  have hrefl : ∀ c : Caller, c.stage.Leads c.stage := fun c => .refl c.stage
  cases h with
  | borrowEmpty | borrow | releaseNothing | releaseInvalid | release => cases hinner
  | pickLock hc | pickFirst hc | pickNext hc | bump hc | poolBorrow hc | poolHeld hc
  | poolRefused hc | count hc | compensate hc => exact .set hrefl _ hc trivial
  | releaseReturn hc | decrement hc => exact .set hrefl _ hc rfl
  | clock | foreignOpen | foreignClose | pool | shutdown | shutdownCall | shutdownNext
  | shutdownReturn => exact .refl hrefl _

/-- A caller goes where its stage leads. -/
theorem stage_step (h : Step cfg s e s') (hinner : e.inner = true) {c : Nat} {p : Stage}
    (hp : s.stage c = some p) : ∃ q, s'.stage c = some q ∧ p.Leads q := by
  obtain ⟨a, ha, rfl⟩ := Option.map_eq_some_iff.mp hp
  obtain ⟨b, hb, hleads⟩ := (stages_step h hinner).2 c a ha
  exact ⟨b.stage, by rw [State.stage, hb, Option.map_some], hleads⟩

/-- And comes from where its stage is led from. -/
theorem stage_source (h : Step cfg s e s') (hinner : e.inner = true) {c : Nat} {q : Stage}
    (hq : s'.stage c = some q) : ∃ p, s.stage c = some p ∧ p.Leads q := by
  obtain ⟨b, hb, rfl⟩ := Option.map_eq_some_iff.mp hq
  obtain ⟨a, ha, hleads⟩ := (stages_step h hinner).source hb
  exact ⟨a.stage, by rw [State.stage, ha, Option.map_some], hleads⟩

/-- A handle that was borrowed has a descriptor. -/
theorem Accounted.fd_nonneg (ha : Accounted cfg s) {c : Nat} {h : Handle}
    (hheld : s.stage c = some (.held h)) : 0 ≤ h.fd := by
  obtain ⟨a, hc, hstage⟩ := Option.map_eq_some_iff.mp hheld
  have hplaced := ha.placed a (List.mem_of_getElem? hc)
  cases a with
  | held h' k =>
      cases hstage
      exact hplaced.1
  | entered | locked | picking | picked | borrowing | borrowed | refused | releasing | released
  | returned | failed => cases hstage

/-! ## Calls -/

/-- A call of `borrow` is a new caller. -/
theorem stage_borrow (h : Step cfg s .borrow s') :
    (∃ p, s'.stage s.callers.length = some p ∧ Stage.borrowing.Leads p) ∧
      ∀ c, c ≠ s.callers.length → s'.stage c = s.stage c := by
  have hnew : ∀ b : Caller, Stage.borrowing.Leads b.stage →
      (∃ p, ((s.callers ++ [b])[s.callers.length]?).map Caller.stage = some p ∧
        Stage.borrowing.Leads p) ∧
      ∀ c, c ≠ s.callers.length →
        ((s.callers ++ [b])[c]?).map Caller.stage = s.callers[c]?.map Caller.stage := by
    intro b hb
    refine ⟨⟨b.stage, by rw [List.getElem?_concat_length, Option.map_some], hb⟩, fun c hc => ?_⟩
    rw [getElem?_append_eq, if_neg hc]
  cases h with
  | borrowEmpty => exact hnew .failed trivial
  | borrow => exact hnew .entered trivial

/-- A call of `release` is one of the holder. -/
theorem stage_release {c : Nat} {ok : Bool} {h : Handle} (hstep : Step cfg s (.release c ok) s')
    (hheld : s.stage c = some (.held h)) :
    (∃ p, s'.stage c = some p ∧ (Stage.releasing h).Leads p) ∧
      ∀ d, d ≠ c → s'.stage d = s.stage d := by
  have hset : ∀ {h' : Handle} {k : Nat} (b : Caller), s.callers[c]? = some (.held h' k) →
      (Stage.releasing h').Leads b.stage →
      (∃ p, ((s.callers.set c b)[c]?).map Caller.stage = some p ∧ (Stage.releasing h).Leads p) ∧
      ∀ d, d ≠ c → ((s.callers.set c b)[d]?).map Caller.stage = s.callers[d]?.map Caller.stage := by
    intro h' k b hc hb
    rw [State.stage, hc, Option.map_some, Option.some.injEq] at hheld
    cases hheld
    refine ⟨⟨b.stage, by rw [getElem?_set_eq b hc, if_pos rfl, Option.map_some], hb⟩, ?_⟩
    intro d hd
    rw [getElem?_set_eq b hc, if_neg hd]
  cases hstep with
  | releaseNothing _ hc => exact hset _ hc rfl
  | releaseInvalid _ hc => exact hset _ hc rfl
  | release _ hc => exact hset _ hc rfl

end InferenceRouter.BackendSet
