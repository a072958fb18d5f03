import Mathlib.Data.List.Basic

/-!
# Machines and their runs

A *machine* is a state type with an initial state and a partial step function.
An event names one atomic step of one thread together with every choice the
environment makes in it: who is woken by a notification, what a system call
returned, how long a clock advanced.  `step s e = none` says that `e` is not
enabled in `s`.  A *schedule* is a list of events, so a statement about every
schedule is a statement about every interleaving.

The module packages the inductions that the developments below use.

* `Reachable.invariant`: what holds initially and is kept by every step holds in
  every reachable state.
* `exec_invariant`: the same along a schedule from any state, for properties
  relating the first state to the last one.
* `Meets.invariant`: the same for the schedules whose every step meets a
  condition on the state it is taken from.
* `exists_reaches_of_rank`: a goal that every state without it can come closer to
  is within reach.
* `Projection.reachable`: a map of states that sends every step to a schedule of
  another machine sends reachable states to reachable states.
-/

namespace Interleaving

/-- An initial state and a partial step function. -/
structure Machine (σ ε : Type) where
  init : σ
  step : σ → ε → Option σ

namespace Machine

variable {σ ε : Type} (m : Machine σ ε)

/-- The state after a schedule, when each of its events was enabled in turn. -/
def exec : σ → List ε → Option σ
  | s, [] => some s
  | s, e :: es => (m.step s e).bind (fun s' => exec s' es)

/-- The state after a schedule from the initial state. -/
def run (es : List ε) : Option σ := m.exec m.init es

/-- A state that some schedule reaches from the initial state. -/
def Reachable (s : σ) : Prop := ∃ es, m.run es = some s

/-- Every state of the schedule, the first and the last included, satisfies `P`. -/
def Always (P : σ → Prop) : σ → List ε → Prop
  | s, [] => P s
  | s, e :: es => P s ∧ ∀ s', m.step s e = some s' → Always P s' es

/-- Every step of the schedule is taken from a state that meets `ok` for it. -/
def Meets (ok : σ → ε → Prop) : σ → List ε → Prop
  | _, [] => True
  | s, e :: es => ok s e ∧ ∀ s', m.step s e = some s' → Meets ok s' es

variable {m}

/-! ## Schedules -/

@[simp] theorem exec_nil (s : σ) : m.exec s [] = some s := rfl

theorem exec_cons_iff {s s' : σ} {e : ε} {es : List ε} :
    m.exec s (e :: es) = some s' ↔ ∃ t, m.step s e = some t ∧ m.exec t es = some s' := by
  rw [exec, Option.bind_eq_some_iff]

theorem exec_append_iff {s s' : σ} {es₁ es₂ : List ε} :
    m.exec s (es₁ ++ es₂) = some s' ↔
      ∃ t, m.exec s es₁ = some t ∧ m.exec t es₂ = some s' := by
  induction es₁ generalizing s with
  | nil => simp
  | cons e es ih =>
      rw [List.cons_append, exec_cons_iff]
      constructor
      · rintro ⟨t, hstep, hrest⟩
        obtain ⟨u, hu, hlast⟩ := ih.mp hrest
        exact ⟨u, exec_cons_iff.mpr ⟨t, hstep, hu⟩, hlast⟩
      · rintro ⟨u, hu, hlast⟩
        obtain ⟨t, hstep, hrest⟩ := exec_cons_iff.mp hu
        exact ⟨t, hstep, ih.mpr ⟨u, hrest, hlast⟩⟩

theorem exec_single_iff {s s' : σ} {e : ε} :
    m.exec s [e] = some s' ↔ m.step s e = some s' := by
  rw [exec_cons_iff]
  simp

theorem Reachable.init : m.Reachable m.init := ⟨[], rfl⟩

theorem Reachable.exec {s s' : σ} {es : List ε} (hs : m.Reachable s)
    (h : m.exec s es = some s') : m.Reachable s' := by
  obtain ⟨es₀, h₀⟩ := hs
  exact ⟨es₀ ++ es, exec_append_iff.mpr ⟨s, h₀, h⟩⟩

theorem Reachable.step {s s' : σ} {e : ε} (hs : m.Reachable s)
    (h : m.step s e = some s') : m.Reachable s' :=
  hs.exec (exec_single_iff.mpr h)

/-! ## Invariants -/

/-- A relation between the first and the current state that every step extends
holds along every schedule. -/
theorem exec_invariant {P : σ → Prop} (hstep : ∀ s e s', P s → m.step s e = some s' → P s') :
    ∀ {es : List ε} {s s' : σ}, P s → m.exec s es = some s' → P s'
  | [], s, s', hs, h => by
      rw [exec_nil, Option.some.injEq] at h
      exact h ▸ hs
  | _ :: _, _, _, hs, h => by
      obtain ⟨t, ht, hrest⟩ := exec_cons_iff.mp h
      exact exec_invariant hstep (hstep _ _ _ hs ht) hrest

/-- What holds initially and is kept by every step holds in every reachable
state. -/
theorem Reachable.invariant {P : σ → Prop} (hinit : P m.init)
    (hstep : ∀ s e s', P s → m.step s e = some s' → P s') {s : σ} (h : m.Reachable s) : P s := by
  obtain ⟨es, h⟩ := h
  exact exec_invariant hstep hinit h

/-- A step may use an invariant that is already known of reachable states. -/
theorem Reachable.invariant_with {P Q : σ → Prop} (hQ : ∀ s, m.Reachable s → Q s)
    (hinit : P m.init) (hstep : ∀ s e s', Q s → P s → m.step s e = some s' → P s')
    {s : σ} (h : m.Reachable s) : P s := by
  have hboth : m.Reachable s ∧ P s := by
    refine Reachable.invariant (P := fun t => m.Reachable t ∧ P t) ⟨.init, hinit⟩ ?_ h
    intro t e t' ⟨hr, hp⟩ ht
    exact ⟨hr.step ht, hstep t e t' (hQ t hr) hp ht⟩
  exact hboth.2

/-- If a step of kind `p` costs one, unless the machine stops with it, a schedule after which
the machine still runs has no more of them than the rank it started with. -/
theorem countP_add_rank_le {R : σ → Prop} {f : σ → Nat} {p : ε → Bool}
    (hrun : ∀ s e s', m.step s e = some s' → R s)
    (hrank : ∀ s e s', m.step s e = some s' → R s' → (p e).toNat + f s' ≤ f s)
    {es : List ε} {s s' : σ} (h : m.exec s es = some s') (hs' : R s') :
    es.countP p + f s' ≤ f s := by
  induction es generalizing s with
  | nil =>
      cases h
      simp
  | cons e es ih =>
      obtain ⟨t, ht, hrest⟩ := exec_cons_iff.mp h
      have htail := ih hrest
      have hrunning : R t := by
        cases es with
        | nil =>
            cases hrest
            exact hs'
        | cons e' es =>
            obtain ⟨u, hu, -⟩ := exec_cons_iff.mp hrest
            exact hrun t e' u hu
      have hhead := hrank s e t ht hrunning
      rw [List.countP_cons]
      cases hp : p e with
      | true =>
          rw [hp, Bool.toNat_true] at hhead
          rw [if_pos rfl]
          omega
      | false =>
          rw [hp, Bool.toNat_false] at hhead
          rw [if_neg Bool.false_ne_true]
          omega

/-! ## Schedules under a condition on their steps -/

@[simp] theorem meets_nil (ok : σ → ε → Prop) (s : σ) : m.Meets ok s [] := trivial

theorem meets_cons_iff {ok : σ → ε → Prop} {s t : σ} {e : ε} {es : List ε}
    (h : m.step s e = some t) : m.Meets ok s (e :: es) ↔ ok s e ∧ m.Meets ok t es := by
  constructor
  · rintro ⟨hok, hrest⟩
    exact ⟨hok, hrest t h⟩
  · rintro ⟨hok, hrest⟩
    refine ⟨hok, fun s' hs' => ?_⟩
    rw [h, Option.some.injEq] at hs'
    exact hs' ▸ hrest

/-- A condition that holds wherever a prefix of the schedule leads. -/
theorem meets_of_initial {ok : σ → ε → Prop} :
    ∀ {es : List ε} {s : σ},
      (∀ es₁ e t, es₁ ++ [e] <+: es → m.exec s es₁ = some t → ok t e) → m.Meets ok s es
  | [], _, _ => trivial
  | e :: es, s, h => by
      refine ⟨h [] e s (by simp) rfl, fun t ht => meets_of_initial ?_⟩
      intro es₁ e' u hinitial hu
      apply h (e :: es₁) e' u
      · simpa using hinitial
      · exact exec_cons_iff.mpr ⟨t, ht, hu⟩

theorem always_cons_iff {P : σ → Prop} {s t : σ} {e : ε} {es : List ε}
    (h : m.step s e = some t) : m.Always P s (e :: es) ↔ P s ∧ m.Always P t es := by
  constructor
  · rintro ⟨hp, hrest⟩
    exact ⟨hp, hrest t h⟩
  · rintro ⟨hp, hrest⟩
    refine ⟨hp, fun s' hs' => ?_⟩
    rw [h, Option.some.injEq] at hs'
    exact hs' ▸ hrest

theorem Always.head {P : σ → Prop} {s : σ} : ∀ {es : List ε}, m.Always P s es → P s
  | [], h => h
  | _ :: _, h => h.1

instance decidableMeets {ok : σ → ε → Prop} [∀ s e, Decidable (ok s e)] :
    ∀ (s : σ) (es : List ε), Decidable (m.Meets ok s es)
  | _, [] => .isTrue trivial
  | s, e :: es =>
      match h : m.step s e with
      | none => decidable_of_iff (ok s e) ⟨fun hok => ⟨hok, by simp [h]⟩, And.left⟩
      | some t =>
          have : Decidable (m.Meets ok t es) := decidableMeets t es
          decidable_of_iff (ok s e ∧ m.Meets ok t es) (meets_cons_iff h).symm

/-- A property that no step restores holds all along a schedule exactly when it
holds at its end. -/
theorem always_iff_last {P : σ → Prop} (hback : ∀ s e s', m.step s e = some s' → P s' → P s) :
    ∀ {es : List ε} {s s' : σ}, m.exec s es = some s' → (m.Always P s es ↔ P s')
  | [], s, s', h => by
      rw [exec_nil, Option.some.injEq] at h
      subst h
      exact Iff.rfl
  | _ :: _, s, s', h => by
      obtain ⟨t, ht, hrest⟩ := exec_cons_iff.mp h
      rw [always_cons_iff ht, always_iff_last hback hrest]
      constructor
      · rintro ⟨-, hlast⟩
        exact hlast
      · intro hlast
        have htail := (always_iff_last hback hrest).mpr hlast
        exact ⟨hback _ _ _ ht htail.head, hlast⟩

/-- What every step that meets the condition keeps, holds after every schedule
whose steps all meet it. -/
theorem Meets.invariant {ok : σ → ε → Prop} {P : σ → Prop}
    (hstep : ∀ s e s', P s → ok s e → m.step s e = some s' → P s') :
    ∀ {es : List ε} {s s' : σ}, m.Meets ok s es → P s → m.exec s es = some s' → P s'
  | [], s, s', _, hs, h => by
      rw [exec_nil, Option.some.injEq] at h
      exact h ▸ hs
  | _ :: _, _, _, hmeets, hs, h => by
      obtain ⟨t, ht, hrest⟩ := exec_cons_iff.mp h
      obtain ⟨hok, htail⟩ := (meets_cons_iff ht).mp hmeets
      exact Meets.invariant hstep htail (hstep _ _ _ hs hok ht) hrest

/-- What follows from such an invariant holds all along the schedule. -/
theorem Meets.always {ok : σ → ε → Prop} {I P : σ → Prop} (hI : ∀ s, I s → P s)
    (hstep : ∀ s e s', I s → ok s e → m.step s e = some s' → I s') :
    ∀ {es : List ε} {s s' : σ}, m.Meets ok s es → I s → m.exec s es = some s' → m.Always P s es
  | [], s, _, _, hs, _ => hI s hs
  | _ :: _, s, _, hmeets, hs, h => by
      obtain ⟨t, ht, hrest⟩ := exec_cons_iff.mp h
      obtain ⟨hok, htail⟩ := (meets_cons_iff ht).mp hmeets
      exact (always_cons_iff ht).mpr
        ⟨hI s hs, Meets.always hI hstep htail (hstep _ _ _ hs hok ht) hrest⟩

/-- And so does what it makes of the condition on the steps. -/
theorem Meets.meets {ok good : σ → ε → Prop} {I : σ → Prop}
    (hgood : ∀ s e, I s → ok s e → good s e)
    (hstep : ∀ s e s', I s → ok s e → m.step s e = some s' → I s') :
    ∀ {es : List ε} {s s' : σ}, m.Meets ok s es → I s → m.exec s es = some s' → m.Meets good s es
  | [], _, _, _, _, _ => trivial
  | _ :: _, s, _, hmeets, hs, h => by
      obtain ⟨t, ht, hrest⟩ := exec_cons_iff.mp h
      obtain ⟨hok, htail⟩ := (meets_cons_iff ht).mp hmeets
      exact (meets_cons_iff ht).mpr
        ⟨hgood _ _ hs hok, Meets.meets hgood hstep htail (hstep _ _ _ hs hok ht) hrest⟩

/-- A property that no step keeps unless it meets the condition. -/
theorem Always.meets {ok : σ → ε → Prop} {P : σ → Prop}
    (hok : ∀ s e s', P s → m.step s e = some s' → P s' → ok s e) :
    ∀ {es : List ε} {s s' : σ}, m.Always P s es → m.exec s es = some s' → m.Meets ok s es
  | [], _, _, _, _ => trivial
  | _ :: _, _, _, halways, h => by
      obtain ⟨t, ht, hrest⟩ := exec_cons_iff.mp h
      obtain ⟨hs, htail⟩ := (always_cons_iff ht).mp halways
      exact (meets_cons_iff ht).mpr ⟨hok _ _ _ hs ht htail.head, htail.meets hok hrest⟩

/-- Under an invariant, a property of states holds all along a schedule exactly
when every step meets the condition, if the condition on a step decides whether
the property survives it. -/
theorem always_iff_meets {ok : σ → ε → Prop} {I P : σ → Prop}
    (hI : ∀ s e s', I s → m.step s e = some s' → I s')
    (hiff : ∀ s e s', I s → P s → m.step s e = some s' → (P s' ↔ ok s e)) :
    ∀ {es : List ε} {s s' : σ}, I s → P s → m.exec s es = some s' →
      (m.Always P s es ↔ m.Meets ok s es)
  | [], _, _, _, hp, _ => by simp [Always, hp]
  | _ :: _, s, _, hi, hp, h => by
      obtain ⟨t, ht, hrest⟩ := exec_cons_iff.mp h
      rw [always_cons_iff ht, meets_cons_iff ht]
      have hkey := hiff _ _ _ hi hp ht
      constructor
      · rintro ⟨-, htail⟩
        have hpt := htail.head
        exact ⟨hkey.mp hpt, (always_iff_meets hI hiff (hI _ _ _ hi ht) hpt hrest).mp htail⟩
      · rintro ⟨hok, htail⟩
        have hpt := hkey.mpr hok
        exact ⟨hp, (always_iff_meets hI hiff (hI _ _ _ hi ht) hpt hrest).mpr htail⟩

/-! ## Goals within reach -/

/-- Some schedule of allowed events leads from the one state to the other. -/
def Reaches (m : Machine σ ε) (allowed : ε → Prop) (s s' : σ) : Prop :=
  ∃ es, (∀ e ∈ es, allowed e) ∧ m.exec s es = some s'

theorem Reaches.refl {allowed : ε → Prop} (s : σ) : m.Reaches allowed s s := ⟨[], by simp, rfl⟩

theorem Reaches.single {allowed : ε → Prop} {s s' : σ} {e : ε} (he : allowed e)
    (h : m.step s e = some s') : m.Reaches allowed s s' :=
  ⟨[e], by simpa using he, exec_single_iff.mpr h⟩

theorem Reaches.trans {allowed : ε → Prop} {s t u : σ} (h₁ : m.Reaches allowed s t)
    (h₂ : m.Reaches allowed t u) : m.Reaches allowed s u := by
  obtain ⟨es₁, hall₁, hexec₁⟩ := h₁
  obtain ⟨es₂, hall₂, hexec₂⟩ := h₂
  refine ⟨es₁ ++ es₂, ?_, exec_append_iff.mpr ⟨t, hexec₁, hexec₂⟩⟩
  intro e he
  rcases List.mem_append.mp he with he | he
  · exact hall₁ e he
  · exact hall₂ e he

/-- The steps of an allowed schedule keep what every allowed step keeps. -/
theorem Reaches.invariant {allowed : ε → Prop} {P : σ → Prop}
    (hstep : ∀ s e s', P s → allowed e → m.step s e = some s' → P s') {s s' : σ}
    (h : m.Reaches allowed s s') (hs : P s) : P s' := by
  obtain ⟨es, hall, hexec⟩ := h
  induction es generalizing s with
  | nil =>
      cases hexec
      exact hs
  | cons e es ih =>
      obtain ⟨t, ht, hrest⟩ := exec_cons_iff.mp hexec
      have hkept := hstep s e t hs (hall e List.mem_cons_self) ht
      exact ih hkept (fun e he => hall e (List.mem_cons_of_mem _ he)) hrest

/-- A goal is within reach of every state from which, unless it is there already,
a state of lower rank is. -/
theorem exists_reaches_of_rank {allowed : ε → Prop} {P goal : σ → Prop} (rank : σ → Nat)
    (hP : ∀ s e s', P s → allowed e → m.step s e = some s' → P s')
    (hlower : ∀ s, P s → ¬ goal s → ∃ s', m.Reaches allowed s s' ∧ rank s' < rank s) {s : σ}
    (hs : P s) : ∃ s', m.Reaches allowed s s' ∧ goal s' := by
  by_cases hgoal : goal s
  · exact ⟨s, .refl s, hgoal⟩
  · obtain ⟨t, ht, hlt⟩ := hlower s hs hgoal
    obtain ⟨u, hu, hgoal⟩ := exists_reaches_of_rank rank hP hlower (ht.invariant hP hs)
    exact ⟨u, ht.trans hu, hgoal⟩
termination_by rank s

/-! ## Projections -/

/-- A map of states under which every step of `m` is a schedule of `m'`, possibly
an empty one. -/
structure Projection {σ' ε' : Type} (m : Machine σ ε) (m' : Machine σ' ε') (f : σ → σ') : Prop where
  init : f m.init = m'.init
  step : ∀ s e s', m.step s e = some s' → ∃ es', m'.exec (f s) es' = some (f s')

/-- Projections send reachable states to reachable states, so an invariant of the
component holds of the whole. -/
theorem Projection.reachable {σ' ε' : Type} {m : Machine σ ε} {m' : Machine σ' ε'} {f : σ → σ'}
    (p : Projection m m' f) {s : σ} (h : m.Reachable s) : m'.Reachable (f s) := by
  refine Reachable.invariant (P := fun t => m'.Reachable (f t)) ?_ ?_ h
  · rw [p.init]
    exact .init
  · intro t e t' ht hstep
    obtain ⟨es', hes⟩ := p.step t e t' hstep
    exact ht.exec hes

/-- If every allowed step of `m` can be taken by `n` with some event of its own, every allowed
schedule can. -/
theorem exec_simulates {ε' : Type} {n : Machine σ ε'} {A : ε → Prop} {B : ε' → Prop} {I : σ → Prop}
    (hstep : ∀ s e s', I s → A e → m.step s e = some s' →
      ∃ e', B e' ∧ n.step s e' = some s' ∧ I s')
    {es : List ε} (hall : ∀ e ∈ es, A e) {s s' : σ} (hs : I s) (h : m.exec s es = some s') :
    ∃ es', es'.length = es.length ∧ (∀ e' ∈ es', B e') ∧ n.exec s es' = some s' ∧ I s' := by
  induction es generalizing s with
  | nil =>
      cases h
      exact ⟨[], rfl, by simp, rfl, hs⟩
  | cons e es ih =>
      obtain ⟨t, ht, hrest⟩ := exec_cons_iff.mp h
      obtain ⟨e', he', hstep', hkept⟩ := hstep s e t hs (hall e List.mem_cons_self) ht
      obtain ⟨es', hlen, hall', hexec, hlast⟩ :=
        ih (fun e he => hall e (List.mem_cons_of_mem _ he)) hkept hrest
      refine ⟨e' :: es', by simp [hlen], ?_, exec_cons_iff.mpr ⟨t, hstep', hexec⟩, hlast⟩
      intro e'' he''
      rcases List.mem_cons.mp he'' with rfl | he''
      · exact he'
      · exact hall' e'' he''

/-! ## History variables -/

/-- The machine with a record of what has happened, which no step reads. -/
def withHistory {η : Type} (m : Machine σ ε) (start : η) (record : η → σ → ε → η) :
    Machine (σ × η) ε where
  init := (m.init, start)
  step s e := (m.step s.1 e).map (fun s' => (s', record s.2 s.1 e))

theorem withHistory_step_iff {η : Type} {start : η} {record : η → σ → ε → η} {s s' : σ × η}
    {e : ε} :
    (m.withHistory start record).step s e = some s' ↔
      m.step s.1 e = some s'.1 ∧ s'.2 = record s.2 s.1 e := by
  obtain ⟨t, h⟩ := s
  obtain ⟨t', h'⟩ := s'
  simp only [withHistory, Option.map_eq_some_iff, Prod.mk.injEq]
  constructor
  · rintro ⟨t, ht, rfl, rfl⟩
    exact ⟨ht, rfl⟩
  · rintro ⟨ht, rfl⟩
    exact ⟨t', ht, rfl, rfl⟩

theorem withHistory_projection {η : Type} (m : Machine σ ε) (start : η) (record : η → σ → ε → η) :
    Projection (m.withHistory start record) m Prod.fst where
  init := rfl
  step _ e _ h := ⟨[e], exec_single_iff.mpr (withHistory_step_iff.mp h).1⟩

/-- A schedule that leaves the record as it is. -/
theorem withHistory_exec_unchanged {η : Type} {start a : η} {record : η → σ → ε → η}
    {A : ε → Prop} {P : σ → Prop}
    (hstep : ∀ s e s', P s → A e → m.step s e = some s' → P s' ∧ record a s e = a)
    {es : List ε} (hall : ∀ e ∈ es, A e) {s s' : σ} (hs : P s) (h : m.exec s es = some s') :
    (m.withHistory start record).exec (s, a) es = some (s', a) := by
  induction es generalizing s with
  | nil =>
      cases h
      rfl
  | cons e es ih =>
      obtain ⟨t, ht, hrest⟩ := exec_cons_iff.mp h
      obtain ⟨hkept, hsame⟩ := hstep s e t hs (hall e List.mem_cons_self) ht
      have htail := ih (fun e he => hall e (List.mem_cons_of_mem _ he)) hkept hrest
      exact exec_cons_iff.mpr ⟨(t, a), withHistory_step_iff.mpr ⟨ht, hsame.symm⟩, htail⟩

end Machine

end Interleaving
