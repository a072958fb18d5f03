import InferenceRouter.Shutdown.Model

/-!
# When a signal deadlocks the process

A handler that interrupts the thread which has `mu_` waits for it forever, and
the thread never goes on to release it.  So the process is safe exactly as long
as every delivery interrupts a thread without `mu_`.  Under that condition the
invariant `Safe` holds: only the code on top of a thread can have `mu_`.  It
leaves no deadlock, and from every state after a signal main can reach the drain
phase without a further one: let go of `mu_`, let the handlers return, and let
main finish its `wait`.
-/

namespace InferenceRouter.Shutdown

open Interleaving

variable {s s' : State} {e : Event}

/-- The handler that runs on a thread. -/
def State.top (s : State) (t : Nat) : Option Frame := (s.frames[t]?).bind List.head?

/-- The code that runs on a thread has `mu_`. -/
def State.HasMutex (s : State) (t : Nat) : Prop :=
  (t = 0 ∧ s.main.holds = true) ∨ ∃ f, s.top t = some f ∧ f.holds = true

structure Safe (s : State) : Prop where
  threads : 0 < s.frames.length
  owner_iff : ∀ t, s.owner = some t ↔ s.HasMutex t
  below : ∀ (t : Nat) (f : Frame) (rest : List Frame), s.frames[t]? = some (f :: rest) →
    (∀ g ∈ rest, g.holds = false) ∧ (t = 0 → s.main.holds = false)
  stored : ∀ (t : Nat) (fs : List Frame), s.frames[t]? = some fs → ∀ f ∈ fs, f.pc ≠ .store →
    s.requested = true

theorem top_of_getElem? {t : Nat} {f : Frame} {rest : List Frame}
    (h : s.frames[t]? = some (f :: rest)) : s.top t = some f := by
  simp [State.top, h]

/-- The handlers on top after the frames of one thread change. -/
theorem head?_set {frames : List (List Frame)} {t : Nat} {old : List Frame} (new : List Frame)
    (h : frames[t]? = some old) (u : Nat) :
    ((frames.set t new)[u]?).bind List.head? =
      if u = t then new.head? else (frames[u]?).bind List.head? := by
  rw [getElem?_set_eq new h]
  split <;> rfl

theorem Safe.not_deadlocked (hs : Safe s) : ¬ s.Deadlocked := by
  rintro ⟨t, f, rest, ht, hpc, howner⟩
  rcases (hs.owner_iff t).mp howner with ⟨rfl, hmain⟩ | ⟨g, hg, hholds⟩
  · rw [(hs.below 0 f rest ht).2 rfl] at hmain
    cases hmain
  · rw [top_of_getElem? ht, Option.some.injEq] at hg
    subst hg
    simp [Frame.holds, hpc] at hholds

theorem Main.holds_notify (m : Main) : m.notify.holds = m.holds := by
  cases m <;> rfl

/-- What the top frame of a thread does to the invariant, when it neither takes
nor releases `mu_`. -/
theorem Safe.setTop (hs : Safe s) {t : Nat} {f f' : Frame} {rest : List Frame}
    (ht : s.frames[t]? = some (f :: rest)) (hholds : f'.holds = f.holds) {requested : Bool}
    {m : Main} (hreq : s.requested = true → requested = true)
    (hstored : f'.pc ≠ .store → requested = true) (hm : m.holds = s.main.holds) :
    Safe { s with requested := requested, main := m, frames := s.frames.set t (f' :: rest) } where
  threads := by
    rw [List.length_set]
    exact hs.threads
  owner_iff := by
    intro u
    rw [hs.owner_iff u]
    simp only [State.HasMutex, State.top, hm]
    rw [head?_set (f' :: rest) ht u]
    by_cases hu : u = t
    · subst hu
      simp [ht, hholds]
    · simp [hu]
  below := by
    intro u g grest hu
    rw [getElem?_set_eq _ ht] at hu
    rw [hm]
    split at hu
    next heq =>
      subst heq
      cases hu
      exact hs.below u f rest ht
    next => exact hs.below u g grest hu
  stored := by
    intro u fs hu g hg hpc
    rw [getElem?_set_eq _ ht] at hu
    split at hu
    next heq =>
      cases hu
      rcases List.mem_cons.mp hg with rfl | hrest
      · exact hstored hpc
      · exact hreq (hs.stored t _ ht g (List.mem_cons_of_mem _ hrest) hpc)
    next => exact hreq (hs.stored u fs hu g hg hpc)

/-- A thread that does not have `mu_` is interrupted. -/
theorem Safe.deliver (hs : Safe s) {t : Nat} {fs : List Frame} (ht : s.frames[t]? = some fs)
    (signo : Signo) (hfree : s.owner ≠ some t) :
    Safe { s with frames := s.frames.set t (⟨signo, .store⟩ :: fs) } := by
  have hnot : ¬ s.HasMutex t := fun hhas => hfree ((hs.owner_iff t).mpr hhas)
  refine ⟨?_, ?_, ?_, ?_⟩
  · rw [List.length_set]
    exact hs.threads
  · intro u
    rw [hs.owner_iff u]
    simp only [State.HasMutex, State.top]
    rw [head?_set (⟨signo, .store⟩ :: fs) ht u]
    by_cases hu : u = t
    · subst hu
      constructor
      · intro hhas
        exact absurd hhas hnot
      · rintro (hmain | ⟨f, hf, hholds⟩)
        · exact .inl hmain
        · rw [if_pos rfl] at hf
          cases hf
          cases hholds
    · simp [hu]
  · intro u g grest hu
    rw [getElem?_set_eq _ ht] at hu
    split at hu
    next heq =>
      subst heq
      cases hu
      constructor
      · intro g hg
        by_contra hholds
        cases fs with
        | nil => cases hg
        | cons f rest =>
            rcases List.mem_cons.mp hg with rfl | hrest
            · exact hnot (.inr ⟨g, top_of_getElem? ht, by simpa using hholds⟩)
            · exact hholds ((hs.below u f rest ht).1 g hrest)
      · intro hzero
        by_contra hmain
        exact hnot (.inl ⟨hzero, by simpa using hmain⟩)
    next => exact hs.below u g grest hu
  · intro u gs hu g hg hpc
    rw [getElem?_set_eq _ ht] at hu
    split at hu
    next heq =>
      cases hu
      rcases List.mem_cons.mp hg with rfl | hrest
      · exact absurd rfl hpc
      · exact hs.stored t fs ht g hrest hpc
    next => exact hs.stored u gs hu g hg hpc

/-- Nobody has a free mutex. -/
theorem Safe.not_hasMutex (hs : Safe s) (hfree : s.owner = none) (t : Nat) : ¬ s.HasMutex t := by
  intro hhas
  rw [(hs.owner_iff t).mpr hhas] at hfree
  cases hfree

/-- Nobody but its owner has a taken mutex. -/
theorem Safe.eq_of_hasMutex (hs : Safe s) {t u : Nat} (ht : s.HasMutex t) (hu : s.HasMutex u) :
    t = u := by
  have htaken := (hs.owner_iff t).mpr ht
  rw [(hs.owner_iff u).mpr hu] at htaken
  exact (Option.some.inj htaken).symm

/-- The invariant after a change of the owner, given who has the mutex then. -/
theorem Safe.setOwner (hs : Safe s) {t : Nat} {f f' : Frame} {rest : List Frame}
    (ht : s.frames[t]? = some (f :: rest)) (hf : f.pc ≠ .store) {owner : Option Nat}
    (howner : ∀ u, owner = some u ↔
      State.HasMutex { s with frames := s.frames.set t (f' :: rest) } u) :
    Safe { s with owner := owner, frames := s.frames.set t (f' :: rest) } where
  threads := by
    rw [List.length_set]
    exact hs.threads
  owner_iff := howner
  below := by
    intro u g grest hu
    rw [getElem?_set_eq _ ht] at hu
    split at hu
    next heq =>
      subst heq
      cases hu
      exact hs.below u f rest ht
    next => exact hs.below u g grest hu
  stored := by
    intro u fs hu g hg hpc
    rw [getElem?_set_eq _ ht] at hu
    split at hu
    next => exact hs.stored t _ ht f List.mem_cons_self hf
    next => exact hs.stored u fs hu g hg hpc

/-- Who has the mutex when the handler on top of thread `t` has become `f'`. -/
theorem hasMutex_set {t : Nat} {f f' : Frame} {rest : List Frame}
    (ht : s.frames[t]? = some (f :: rest)) (u : Nat) :
    State.HasMutex { s with frames := s.frames.set t (f' :: rest) } u ↔
      (u = 0 ∧ s.main.holds = true) ∨
        (if u = t then f'.holds = true else ∃ g, s.top u = some g ∧ g.holds = true) := by
  simp only [State.HasMutex, State.top]
  rw [head?_set (f' :: rest) ht u]
  by_cases hu : u = t
  · simp [hu]
  · simp [hu]

theorem Safe.lock (hs : Safe s) {t : Nat} {f : Frame} {rest : List Frame}
    (ht : s.frames[t]? = some (f :: rest)) (hpc : f.pc = .lock) (hfree : s.owner = none) :
    Safe { s with
      owner := some t, frames := s.frames.set t ({ f with pc := .notify } :: rest) } := by
  refine hs.setOwner ht (by simp [hpc]) ?_
  intro u
  have hnot := hs.not_hasMutex hfree u
  rw [hasMutex_set ht]
  by_cases hu : u = t
  · simp [hu, Frame.holds]
  · have hne : t ≠ u := fun heq => hu heq.symm
    simp only [Option.some.injEq, hne, hu, if_false, false_iff]
    exact hnot

theorem Safe.unlock (hs : Safe s) {t : Nat} {f : Frame} {rest : List Frame}
    (ht : s.frames[t]? = some (f :: rest)) (hpc : f.pc = .unlock) :
    Safe { s with owner := none, frames := s.frames.set t ({ f with pc := .ret } :: rest) } := by
  have hhas : s.HasMutex t := .inr ⟨f, top_of_getElem? ht, by simp [Frame.holds, hpc]⟩
  refine hs.setOwner ht (by simp [hpc]) ?_
  intro u
  rw [hasMutex_set ht]
  simp only [reduceCtorEq, false_iff]
  by_cases hu : u = t
  · subst hu
    rintro (⟨hzero, hmain⟩ | htop)
    · rw [(hs.below u f rest ht).2 hzero] at hmain
      cases hmain
    · rw [if_pos rfl] at htop
      cases htop
  · rw [if_neg hu]
    intro hother
    exact hu (hs.eq_of_hasMutex hother hhas)

/-- The handler returns to the code below, which does not have the mutex. -/
theorem Safe.ret (hs : Safe s) {t : Nat} {f : Frame} {rest : List Frame}
    (ht : s.frames[t]? = some (f :: rest)) (hpc : f.pc = .ret) :
    Safe { s with frames := s.frames.set t rest } := by
  obtain ⟨hrest, hmain⟩ := hs.below t f rest ht
  refine ⟨?_, ?_, ?_, ?_⟩
  · rw [List.length_set]
    exact hs.threads
  · intro u
    rw [hs.owner_iff u]
    simp only [State.HasMutex, State.top]
    rw [head?_set rest ht u]
    by_cases hu : u = t
    · subst hu
      have hnone : ¬ ∃ g, rest.head? = some g ∧ g.holds = true := by
        rintro ⟨g, hg, hholds⟩
        rw [hrest g (List.mem_of_head? hg)] at hholds
        cases hholds
      have htop : ¬ ∃ g, (s.frames[u]?).bind List.head? = some g ∧ g.holds = true := by
        simp [ht, Frame.holds, hpc]
      rw [if_pos rfl, or_iff_left hnone, or_iff_left htop]
    · simp [hu]
  · intro u g grest hu
    rw [getElem?_set_eq _ ht] at hu
    split at hu
    next heq =>
      subst heq
      cases hu
      exact ⟨fun x hx => hrest x (List.mem_cons_of_mem _ hx), hmain⟩
    next => exact hs.below u g grest hu
  · intro u fs hu g hg hpc
    rw [getElem?_set_eq _ ht] at hu
    split at hu
    next heq =>
      cases hu
      exact hs.stored t _ ht g (List.mem_cons_of_mem _ hg) hpc
    next => exact hs.stored u fs hu g hg hpc

/-- Main's own code takes or releases the mutex, with no handler on top of it. -/
theorem Safe.setMain (hs : Safe s) (hframes : s.frames[0]? = some []) {owner : Option Nat}
    {m : Main} (howner : ∀ u, owner = some u ↔ State.HasMutex { s with main := m } u) :
    Safe { s with owner := owner, main := m } where
  threads := hs.threads
  owner_iff := howner
  below := by
    intro t f rest ht
    refine ⟨(hs.below t f rest ht).1, ?_⟩
    rintro rfl
    rw [show s.frames[0]? = some (f :: rest) from ht] at hframes
    cases hframes
  stored := hs.stored

/-- The condition on a step: a delivery interrupts a thread that does not have
`mu_`. -/
def Spares (s : State) : Event → Prop
  | .deliver t _ => s.owner ≠ some t
  | _ => True

instance decidableSpares (s : State) : ∀ e, Decidable (Spares s e)
  | .deliver t _ => inferInstanceAs (Decidable (s.owner ≠ some t))
  | .clock _ | .handler _ | .main | .timeout | .spurious => .isTrue trivial

theorem safe_step (h : Step s e s') (hok : Spares s e) (hs : Safe s) : Safe s' := by
  cases h with
  | clock => exact ⟨hs.threads, hs.owner_iff, hs.below, hs.stored⟩
  | deliver ht => exact hs.deliver ht _ hok
  | store ht hpc =>
      exact hs.setTop ht (by simp [Frame.holds, hpc]) (fun _ => rfl) (fun _ => rfl) rfl
  | lock ht hpc hfree => exact hs.lock ht hpc hfree
  | notify ht hpc =>
      refine hs.setTop ht (by simp [Frame.holds, hpc]) id ?_ (Main.holds_notify _)
      intro _
      exact hs.stored _ _ ht _ List.mem_cons_self (by simp [hpc])
  | unlock ht hpc => exact hs.unlock ht hpc
  | ret ht hpc => exact hs.ret ht hpc
  | mainLock hframes _ hfree =>
      refine hs.setMain hframes ?_
      intro u
      have hnot := hs.not_hasMutex hfree u
      by_cases hu : u = 0
      · simp [hu, State.HasMutex, Main.holds]
      · have hne : (0 : Nat) ≠ u := fun heq => hu heq.symm
        simp only [State.HasMutex, hu, false_and, false_or] at hnot ⊢
        simp only [Option.some.injEq, hne, false_iff]
        exact hnot
  | mainUnlock hframes hmain hm =>
      refine hs.setMain hframes ?_
      intro u
      simp only [reduceCtorEq, false_iff]
      rintro (⟨-, hmain'⟩ | ⟨f, hf, hholds⟩)
      · rw [hm] at hmain'
        cases hmain'
      · have hzero : u = 0 := hs.eq_of_hasMutex (.inr ⟨f, hf, hholds⟩) (.inl ⟨rfl, hmain⟩)
        subst hzero
        simp [State.top, hframes] at hf
  | mainMove _ hm =>
      refine ⟨hs.threads, ?_, ?_, hs.stored⟩
      · intro u
        simp only [State.HasMutex, hm]
        exact hs.owner_iff u
      · intro t f rest ht
        rw [hm]
        exact hs.below t f rest ht

theorem safe_init (others : Nat) : Safe (machine others).init := by
  have hempty : ∀ {t : Nat} {fs : List Frame},
      (List.replicate (others + 1) ([] : List Frame))[t]? = some fs → fs = [] := by
    intro t fs ht
    exact List.eq_of_mem_replicate (List.mem_of_getElem? ht)
  refine ⟨by simp [machine], ?_, ?_, ?_⟩
  · intro t
    simp only [machine, reduceCtorEq, false_iff]
    rintro (⟨-, hmain⟩ | ⟨f, hf, -⟩)
    · cases hmain
    · obtain ⟨fs, hfs, hhead⟩ := Option.bind_eq_some_iff.mp hf
      rw [hempty hfs] at hhead
      cases hhead
  · intro t f rest ht
    cases hempty ht
  · intro t fs ht f hf
    rw [hempty ht] at hf
    cases hf

/-! ## A thread interrupted while it has the mutex -/

/-- Thread `t` has `mu_` in code that waits below a handler, and the handler is
on its way to wait for `mu_`. -/
structure Doomed (t : Nat) (s : State) : Prop where
  owner : s.owner = some t
  waits : ∃ f rest, s.frames[t]? = some (f :: rest) ∧ (f.pc = .store ∨ f.pc = .lock)
  others : ∀ (u : Nat) (fs : List Frame), s.frames[u]? = some fs → u ≠ t →
    ∀ f ∈ fs, f.holds = false
  main : t ≠ 0 → s.main.holds = false

variable {t : Nat}

theorem Safe.doomed (hs : Safe s) {signo : Signo} (h : Step s (.deliver t signo) s')
    (howner : s.owner = some t) : Doomed t s' := by
  have hother : ∀ u, u ≠ t → ¬ s.HasMutex u := fun u hu hhas =>
    hu (hs.eq_of_hasMutex hhas ((hs.owner_iff t).mp howner))
  cases h with
  | @deliver _ _ frames ht =>
      refine ⟨howner, ⟨⟨signo, .store⟩, frames, ?_, .inl rfl⟩, ?_, ?_⟩
      · rw [getElem?_set_eq _ ht, if_pos rfl]
      · intro u fs hu hut f hf
        rw [getElem?_set_eq _ ht, if_neg hut] at hu
        cases fs with
        | nil => cases hf
        | cons g rest =>
            rcases List.mem_cons.mp hf with rfl | hrest
            · by_contra hholds
              exact hother u hut (.inr ⟨f, top_of_getElem? hu, by simpa using hholds⟩)
            · exact (hs.below u g rest hu).1 f hrest
      · intro hzero
        by_contra hmain
        exact hother 0 (Ne.symm hzero) (.inl ⟨rfl, by simpa using hmain⟩)
  | mainMove hne => exact absurd rfl (hne _ _)

/-- The handler on top of a doomed thread does not have the mutex. -/
theorem Doomed.top_waits (hd : Doomed t s) {f : Frame} {rest : List Frame}
    (ht : s.frames[t]? = some (f :: rest)) : f.pc = .store ∨ f.pc = .lock := by
  obtain ⟨g, grest, hg, hpc⟩ := hd.waits
  rw [ht] at hg
  cases hg
  exact hpc

/-- Another thread's frames change without taking the mutex. -/
theorem Doomed.setOther (hd : Doomed t s) {u : Nat} {old new : List Frame}
    (hu : s.frames[u]? = some old) (hut : u ≠ t) (hnew : ∀ f ∈ new, f.holds = false)
    (requested : Bool) :
    Doomed t { s with requested := requested, frames := s.frames.set u new } := by
  obtain ⟨f, rest, ht, hpc⟩ := hd.waits
  refine ⟨hd.owner, ⟨f, rest, ?_, hpc⟩, ?_, hd.main⟩
  · rw [getElem?_set_eq _ hu, if_neg (Ne.symm hut), ht]
  · intro v fs hv hvt g hg
    rw [getElem?_set_eq _ hu] at hv
    split at hv
    next =>
      cases hv
      exact hnew g hg
    next => exact hd.others v fs hv hvt g hg

/-- The doomed thread's own frames change, and a waiting one stays on top. -/
theorem Doomed.setSelf (hd : Doomed t s) {f : Frame} {old rest : List Frame}
    (ht : s.frames[t]? = some old) (hpc : f.pc = .store ∨ f.pc = .lock) (requested : Bool) :
    Doomed t { s with requested := requested, frames := s.frames.set t (f :: rest) } := by
  refine ⟨hd.owner, ⟨f, rest, ?_, hpc⟩, ?_, hd.main⟩
  · rw [getElem?_set_eq _ ht, if_pos rfl]
  · intro v fs hv hvt
    rw [getElem?_set_eq _ ht, if_neg hvt] at hv
    exact hd.others v fs hv hvt

/-- There is no way out. -/
theorem doomed_step (h : Step s e s') (hd : Doomed t s) : Doomed t s' := by
  -- A handler that has the mutex or returns is not on top of the doomed thread.
  have hwaits : ∀ {u : Nat} {f : Frame} {rest : List Frame}, s.frames[u]? = some (f :: rest) →
      f.pc ≠ .store → f.pc ≠ .lock → u ≠ t := by
    rintro u f rest hu hstore hlock rfl
    rcases hd.top_waits hu with hpc | hpc
    · exact hstore hpc
    · exact hlock hpc
  -- No other handler has the mutex.
  have hholds : ∀ {u : Nat} {f : Frame} {rest : List Frame}, s.frames[u]? = some (f :: rest) →
      f.pc ≠ .store → f.pc ≠ .lock → f.holds = false := fun hu hstore hlock =>
    hd.others _ _ hu (hwaits hu hstore hlock) _ List.mem_cons_self
  cases h with
  | clock => exact ⟨hd.owner, hd.waits, hd.others, hd.main⟩
  | @deliver u signo frames hu =>
      by_cases hut : u = t
      · subst hut
        exact hd.setSelf hu (.inl rfl) _
      · refine hd.setOther hu hut ?_ _
        intro f hf
        rcases List.mem_cons.mp hf with rfl | hrest
        · rfl
        · exact hd.others u frames hu hut f hrest
  | @store u f rest hu hpc =>
      by_cases hut : u = t
      · subst hut
        exact hd.setSelf hu (.inr rfl) _
      · refine hd.setOther hu hut ?_ _
        intro g hg
        rcases List.mem_cons.mp hg with rfl | hrest
        · rfl
        · exact hd.others u _ hu hut g (List.mem_cons_of_mem _ hrest)
  | lock _ _ hfree | mainLock _ _ hfree =>
      rw [hd.owner] at hfree
      cases hfree
  | @notify u f rest hu hpc =>
      have hnot := hholds hu (by simp [hpc]) (by simp [hpc])
      simp [Frame.holds, hpc] at hnot
  | @unlock u f rest hu hpc =>
      have hnot := hholds hu (by simp [hpc]) (by simp [hpc])
      simp [Frame.holds, hpc] at hnot
  | @ret u f rest hu hpc =>
      have hut := hwaits hu (by simp [hpc]) (by simp [hpc])
      refine hd.setOther hu hut ?_ _
      intro g hg
      exact hd.others u _ hu hut g (List.mem_cons_of_mem _ hg)
  | mainUnlock hframes hmain =>
      have hzero : t = 0 := by
        by_contra hzero
        rw [hd.main hzero] at hmain
        cases hmain
      obtain ⟨f, rest, ht, -⟩ := hd.waits
      rw [hzero, hframes] at ht
      cases ht
  | mainMove _ hm => exact ⟨hd.owner, hd.waits, hd.others, fun hzero => hm ▸ hd.main hzero⟩

/-- Main does not get past the code that a handler of a doomed main interrupted. -/
theorem Doomed.main_holds_step (hd : Doomed 0 s) (h : Step s e s') :
    s'.main.holds = s.main.holds := by
  cases h with
  | clock | deliver | store | lock | unlock | ret => rfl
  | notify => exact Main.holds_notify _
  | mainLock _ _ hfree =>
      rw [hd.owner] at hfree
      cases hfree
  | mainUnlock hframes =>
      obtain ⟨f, rest, ht, -⟩ := hd.waits
      rw [hframes] at ht
      cases ht
  | mainMove _ hm => exact hm

/-! ## Runs without a further signal -/

def Event.delivers : Event → Bool
  | .deliver _ _ => true
  | _ => false

theorem spares_of_not_delivers (h : e.delivers = false) : Spares s e := by
  cases e with
  | deliver => cases h
  | clock | handler | main | timeout | spurious => trivial

/-- The process gets from the one state to the other without a further signal. -/
def Unsignalled (others : Nat) (s s' : State) : Prop :=
  (machine others).Reaches (fun e => e.delivers = false) s s'

theorem Unsignalled.single {others : Nat} (h : step s e = some s') (he : e.delivers = false) :
    Unsignalled others s s' :=
  ⟨[e], by simpa using he, Machine.exec_single_iff.mpr h⟩

theorem Doomed.deadlocks (hd : Doomed t s) (others : Nat) :
    ∃ s', Unsignalled others s s' ∧ s'.Deadlocked := by
  obtain ⟨f, rest, ht, hpc | hpc⟩ := hd.waits
  · have hstore : step s (.handler t) = some { s with
        requested := true, frames := s.frames.set t ({ f with pc := .lock } :: rest) } := by
      simp only [step, ht, State.handlerStep, hpc]
    refine ⟨_, .single hstore rfl, t, { f with pc := .lock }, rest, ?_, rfl, hd.owner⟩
    rw [getElem?_set_eq _ ht, if_pos rfl]
  · exact ⟨s, .refl s, t, f, rest, ht, hpc, hd.owner⟩

/-- A run is safe as long as it spares the threads that have the mutex, and doomed
from the first delivery on that does not. -/
theorem safe_or_doomed {others : Nat} {es : List Event} (hs : Safe s)
    (h : (machine others).exec s es = some s') :
    ((machine others).Meets Spares s es ∧ Safe s') ∨
      (¬ (machine others).Meets Spares s es ∧ ∃ t, Doomed t s') := by
  induction es generalizing s with
  | nil =>
      cases h
      exact .inl ⟨trivial, hs⟩
  | cons e es ih =>
      obtain ⟨u, hu, hrest⟩ := Machine.exec_cons_iff.mp h
      rw [Machine.meets_cons_iff hu]
      by_cases hok : Spares s e
      · simp only [hok, true_and]
        exact ih (safe_step (step_cases hu) hok hs) hrest
      · refine .inr ⟨fun hboth => hok hboth.1, ?_⟩
        cases e with
        | deliver t signo =>
            have hdoomed := hs.doomed (step_cases hu) (not_not.mp hok)
            exact ⟨t, Machine.exec_invariant (P := Doomed t)
              (fun _ _ _ hd hstep => doomed_step (step_cases hstep) hd) hdoomed hrest⟩
        | clock | handler | main | timeout | spurious => exact absurd trivial hok

/-! ## The way to the drain phase -/

theorem signalled_step (h : Step s e s') (hs : Safe s) (hsig : s.Signalled) : s'.Signalled := by
  rcases hsig with hreq | hsome
  · cases h with
    | store => exact .inl rfl
    | clock | deliver | lock | notify | unlock | ret | mainLock | mainUnlock | mainMove =>
        exact .inl hreq
  · cases h with
    | store => exact .inl rfl
    | clock | mainLock | mainUnlock | mainMove => exact .inr hsome
    | deliver ht =>
        exact .inr (exists_mem_set ht hsome (fun _ => List.cons_ne_nil _ _))
    | lock ht _ _ | notify ht _ | unlock ht _ =>
        exact .inr (exists_mem_set ht hsome (fun _ => List.cons_ne_nil _ _))
    | ret ht hpc => exact .inl (hs.stored _ _ ht _ List.mem_cons_self (by simp [hpc]))

/-- How many steps a handler is from its return. -/
def Frame.steps (f : Frame) : Nat :=
  match f.pc with
  | .store => 5
  | .lock => 4
  | .notify => 3
  | .unlock => 2
  | .ret => 1

/-- How many steps main is from the drain phase, once the flag is set. -/
def Main.steps : Main → Nat
  | .asleep _ => 6
  | .lock | .woken _ _ => 5
  | .predicate _ _ => 4
  | .load => 3
  | .unlock => 2
  | .check => 1
  | .draining => 0

/-- The steps of main and of every handler together. -/
def State.steps (s : State) : Nat := s.main.steps + total (total Frame.steps) s.frames

theorem Main.steps_notify_le (m : Main) : m.notify.steps ≤ m.steps := by
  cases m <;> simp [Main.notify, Main.steps]

/-- A handler with the mutex in reach takes a step. -/
theorem handler_progress {f : Frame} {rest : List Frame} (ht : s.frames[t]? = some (f :: rest))
    (hlock : f.pc = .lock → s.owner = none) :
    ∃ s', step s (.handler t) = some s' ∧ s'.steps < s.steps := by
  have hset : ∀ f' : Frame, total (total Frame.steps) (s.frames.set t (f' :: rest)) + f.steps =
      total (total Frame.steps) s.frames + f'.steps := by
    intro f'
    have hset := total_set (total Frame.steps) (f' :: rest) ht
    rw [total_cons, total_cons] at hset
    omega
  have hnotify := s.main.steps_notify_le
  cases hpc : f.pc with
  | store =>
      refine ⟨_, by simp only [step, ht, State.handlerStep, hpc]; rfl, ?_⟩
      have := hset { f with pc := .lock }
      simp only [State.steps, Frame.steps, hpc] at this ⊢
      omega
  | lock =>
      refine ⟨_, by simp only [step, ht, State.handlerStep, hpc, hlock hpc]; rfl, ?_⟩
      have := hset { f with pc := .notify }
      simp only [State.steps, Frame.steps, hpc] at this ⊢
      omega
  | notify =>
      refine ⟨_, by simp only [step, ht, State.handlerStep, hpc]; rfl, ?_⟩
      have := hset { f with pc := .unlock }
      simp only [State.steps, Frame.steps, hpc] at this ⊢
      omega
  | unlock =>
      refine ⟨_, by simp only [step, ht, State.handlerStep, hpc]; rfl, ?_⟩
      have := hset { f with pc := .ret }
      simp only [State.steps, Frame.steps, hpc] at this ⊢
      omega
  | ret =>
      refine ⟨_, by simp only [step, ht, State.handlerStep, hpc]; rfl, ?_⟩
      have := total_set (total Frame.steps) rest ht
      simp only [State.steps, total_cons, Frame.steps, hpc] at this ⊢
      omega

/-- With the flag set and no handler on top, main takes a step towards the drain
phase; one that sleeps waits for the timeout. -/
theorem main_progress {others : Nat} (ht : s.frames[0]? = some []) (hreq : s.requested = true)
    (hfree : s.main.holds = false → s.owner = none) (hmain : s.main ≠ .draining) :
    ∃ s', Unsignalled others s s' ∧ s'.steps < s.steps := by
  have hstep : ∀ {s'}, s.mainStep = some s' → Unsignalled others s s' := by
    intro s' h
    exact .single (e := .main) (by simp only [step, ht, h]) rfl
  have hlower : ∀ {m : Main} {owner : Option Nat}, m.steps < s.main.steps →
      ({ s with owner := owner, main := m } : State).steps < s.steps := by
    intro m owner hlt
    simp only [State.steps]
    omega
  cases hpc : s.main with
  | check =>
      refine ⟨_, hstep (by simp only [State.mainStep, hpc, hreq, if_true]; rfl), hlower ?_⟩
      simp [hpc, Main.steps]
  | lock =>
      have hnone := hfree (by rw [hpc]; rfl)
      refine ⟨_, hstep (by simp only [State.mainStep, hpc, hnone]; rfl), hlower ?_⟩
      simp [hpc, Main.steps]
  | predicate deadline timedOut =>
      refine ⟨_, hstep (by simp only [State.mainStep, hpc, hreq, true_or, if_true]; rfl), hlower ?_⟩
      simp [hpc, Main.steps]
  | asleep deadline =>
      let late : State := { s with now := s.now + (deadline - s.now).toNat }
      have hclock : Unsignalled others s late := .single (e := .clock _) rfl rfl
      have htimeout : step late .timeout = some { late with main := .woken deadline true } := by
        have hdue : deadline ≤ late.now := by
          simp only [late]
          omega
        have hasleep : late.main = .asleep deadline := hpc
        simp only [step, hasleep, hdue, if_true]
      refine ⟨_, hclock.trans (Unsignalled.single htimeout rfl), ?_⟩
      simp [State.steps, late, hpc, Main.steps]
  | woken deadline timedOut =>
      have hnone := hfree (by rw [hpc]; rfl)
      refine ⟨_, hstep (by simp only [State.mainStep, hpc, hnone]; rfl), hlower ?_⟩
      simp [hpc, Main.steps]
  | load =>
      refine ⟨_, hstep (by simp only [State.mainStep, hpc]; rfl), hlower ?_⟩
      simp [hpc, Main.steps]
  | unlock =>
      refine ⟨_, hstep (by simp only [State.mainStep, hpc]; rfl), hlower ?_⟩
      simp [hpc, Main.steps]
  | draining => exact absurd hpc hmain

/-- In a safe state after a signal, somebody can take a step: the thread that has
the mutex, or else any handler, or else main. -/
theorem Safe.progress {others : Nat} (hs : Safe s) (hsig : s.Signalled)
    (hmain : s.main ≠ .draining) : ∃ s', Unsignalled others s s' ∧ s'.steps < s.steps := by
  by_cases hframes : ∃ (t : Nat) (f : Frame) (rest : List Frame),
      s.frames[t]? = some (f :: rest) ∧ (f.pc = .lock → s.owner = none)
  · obtain ⟨t, f, rest, ht, hlock⟩ := hframes
    obtain ⟨s', hstep, hlt⟩ := handler_progress ht hlock
    exact ⟨s', .single hstep rfl, hlt⟩
  -- Every handler waits for the mutex, so main has it, or there is no handler.
  have hwaits : ∀ {t : Nat} {f : Frame} {rest : List Frame}, s.frames[t]? = some (f :: rest) →
      f.pc = .lock ∧ s.owner ≠ none := by
    intro t f rest ht
    by_contra hnot
    refine hframes ⟨t, f, rest, ht, fun hpc => ?_⟩
    by_contra hfree
    exact hnot ⟨hpc, hfree⟩
  have howner : ∀ {t : Nat}, s.owner = some t → t = 0 ∧ s.main.holds = true := by
    intro t howner
    rcases (hs.owner_iff t).mp howner with hzero | ⟨f, hf, hholds⟩
    · exact hzero
    · obtain ⟨fs, hfs, hhead⟩ := Option.bind_eq_some_iff.mp hf
      obtain ⟨rest, rfl⟩ := List.head?_eq_some_iff.mp hhead
      simp [Frame.holds, (hwaits hfs).1] at hholds
  have hreq : s.requested = true := by
    rcases hsig with hreq | ⟨fs, hfs, hne⟩
    · exact hreq
    · obtain ⟨t, ht⟩ := List.mem_iff_getElem?.mp hfs
      obtain ⟨f, rest, rfl⟩ := List.exists_cons_of_ne_nil hne
      exact hs.stored t _ ht f List.mem_cons_self (by simp [(hwaits ht).1])
  have hzero : s.frames[0]? = some [] := by
    obtain ⟨fs, hfs⟩ : ∃ fs, s.frames[0]? = some fs := ⟨_, List.getElem?_eq_getElem hs.threads⟩
    cases fs with
    | nil => exact hfs
    | cons f rest =>
        obtain ⟨t, ht⟩ := Option.ne_none_iff_exists'.mp (hwaits hfs).2
        have hholds := (howner ht).2
        rw [(hs.below 0 f rest hfs).2 rfl] at hholds
        cases hholds
  refine main_progress hzero hreq ?_ hmain
  intro hholds
  by_contra htaken
  obtain ⟨t, ht⟩ := Option.ne_none_iff_exists'.mp htaken
  rw [(howner ht).2] at hholds
  cases hholds

theorem Safe.drains {others : Nat} (hs : Safe s) (hsig : s.Signalled) :
    ∃ s', Unsignalled others s s' ∧ s'.main = .draining := by
  refine Machine.exists_reaches_of_rank (P := fun s => Safe s ∧ s.Signalled) State.steps ?_ ?_
    ⟨hs, hsig⟩
  · intro s e s' ⟨hs, hsig⟩ he hstep
    have h := step_cases hstep
    exact ⟨safe_step h (spares_of_not_delivers he) hs, signalled_step h hs hsig⟩
  · intro s ⟨hs, hsig⟩ hmain
    exact hs.progress hsig hmain

/-! ## The condition on deliveries -/

/-- A run whose deliveries all spare the thread that has `mu_` ends in a state
without a deadlock, and if there was a signal, main can reach the drain phase
without a further one.  No other run is safe: it leads to a deadlock without a
further signal. -/
theorem no_deadlock_iff (others : Nat) {es : List Event} {s : State}
    (h : (machine others).run es = some s) :
    ((machine others).Meets Spares (machine others).init es ↔
        ∀ s', Unsignalled others s s' → ¬ s'.Deadlocked) ∧
      ((machine others).Meets Spares (machine others).init es →
        ¬ s.Deadlocked ∧
          (s.Signalled → ∃ s', Unsignalled others s s' ∧ s'.main = .draining)) := by
  rcases safe_or_doomed (safe_init others) h with ⟨hmeets, hs⟩ | ⟨hnot, t, hd⟩
  · have hsafe : ∀ s', Unsignalled others s s' → Safe s' := by
      intro s' hreaches
      refine Machine.Reaches.invariant ?_ hreaches hs
      intro u e u' hu he hstep
      exact safe_step (step_cases hstep) (spares_of_not_delivers he) hu
    refine ⟨iff_of_true hmeets ?_, fun _ => ⟨hs.not_deadlocked, hs.drains⟩⟩
    intro s' hreaches
    exact (hsafe s' hreaches).not_deadlocked
  · refine ⟨iff_of_false hnot ?_, fun hmeets => absurd hmeets hnot⟩
    intro hall
    obtain ⟨s', hreaches, hdead⟩ := hd.deadlocks others
    exact hall s' hreaches hdead

/-- SIGTERM interrupts main in its sleep, and SIGINT interrupts the handler before
it takes `mu_`. -/
def signalledAsleep : List Event :=
  [.main, .main, .main, .deliver 0 .sigterm, .handler 0, .deliver 0 .sigint, .handler 0,
    .handler 0, .handler 0]

theorem no_deadlock_signalledAsleep : ∃ s,
    (machine 2).run signalledAsleep = some s ∧
      (machine 2).Meets Spares (machine 2).init signalledAsleep ∧ s.Signalled ∧
      ¬ s.Deadlocked ∧ ∃ s', Unsignalled 2 s s' ∧ s'.main = .draining := by
  have hmeets : (machine 2).Meets Spares (machine 2).init signalledAsleep := by decide
  refine ⟨_, rfl, hmeets, .inl rfl, ?_⟩
  obtain ⟨hnot, hdrains⟩ := (@no_deadlock_iff 2 signalledAsleep _ rfl).2 hmeets
  exact ⟨hnot, hdrains (.inl rfl)⟩

/-- SIGTERM interrupts main in `wait`, with `mu_` taken for the predicate. -/
def signalledInWait : List Event :=
  [.main, .main, .deliver 0 .sigterm, .handler 0]

/-- The handler waits for `mu_`, which main has and can no longer release. -/
theorem deadlock_signalledInWait : ∃ s,
    (machine 0).run signalledInWait = some s ∧ s.Deadlocked ∧ s.main = .predicate 1000 false ∧
      step s (.handler 0) = none ∧ step s .main = none ∧
      ∀ s', Unsignalled 0 s s' → s'.main ≠ .draining := by
  refine ⟨_, rfl, ⟨0, ⟨.sigterm, .lock⟩, [], rfl, rfl, rfl⟩, rfl, rfl, rfl, ?_⟩
  intro s' hreaches hdraining
  have hstuck : Doomed 0 s' ∧ s'.main.holds = true := by
    refine Machine.Reaches.invariant (P := fun u => Doomed 0 u ∧ u.main.holds = true) ?_ hreaches
      ⟨⟨rfl, ⟨⟨.sigterm, .lock⟩, [], rfl, .inr rfl⟩, ?_, by simp⟩, rfl⟩
    · intro u e u' ⟨hd, hholds⟩ _ hstep
      have h := step_cases hstep
      exact ⟨doomed_step h hd, (hd.main_holds_step h).trans hholds⟩
    · intro u fs hu hne
      cases u with
      | zero => exact absurd rfl hne
      | succ u => cases hu
  rw [hdraining] at hstuck
  cases hstuck.2

end InferenceRouter.Shutdown
