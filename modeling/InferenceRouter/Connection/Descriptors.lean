import InferenceRouter.Interleaving.Machine
import InferenceRouter.Interleaving.Threads

/-!
# Descriptor numbers

`safe_close` of `connection.cpp`, on a table of descriptors that every thread of the process
uses.  A descriptor is a number, and a number names an open file for a while and another one
later.  On Linux `close` gives the number back whatever it returns, so the retry after `EINTR`
is a second `close` of a number that is no longer the caller's.

A file is known by the order in which it was opened.  Whoever opened it owns it, and makes one
call of `safe_close` for it.  As long as no retry finds its number in use again, every call
closes the file it was made for and nothing else, and closing is one step (`files_run`): the
other models rely on that when they have a `safe_close` in one event and a name of its own for
every descriptor.
-/

namespace InferenceRouter.Connection

open Interleaving

/-! ## The table -/

/-- Where the owner of a file is with its call of `safe_close`. -/
inductive Closing where
  | owned
  /-- In the loop. -/
  | closing
  | done
  deriving DecidableEq

/-- A file that was opened. -/
structure OwnedFile where
  /-- The number that its owner has. -/
  fd : Int
  call : Closing := .owned
  /-- The file that the number named when the call began. -/
  named : Option Nat := none
  /-- The files that the call has closed. -/
  closed : List Nat := []
  deriving DecidableEq

structure Descriptors where
  /-- The open file that a number names. -/
  table : Int → Option Nat
  /-- All files, in the order in which they were opened. -/
  handles : List OwnedFile

/-- What `close` returns, and `errno`. -/
inductive CloseResult where
  | ok
  | eintr
  | ebadf
  | eio
  deriving DecidableEq

inductive DescriptorEvent where
  /-- A thread obtains a number that names nothing, with `accept4` or `socket`. -/
  | open (fd : Int)
  /-- The owner of the file calls `safe_close`. -/
  | call (i : Nat)
  /-- One `close` in the loop of that call. -/
  | close (i : Nat) (result : CloseResult)

/-- The check at the top of `safe_close`. -/
def OwnedFile.begin (entry : Option Nat) (h : OwnedFile) : OwnedFile :=
  if h.fd < 0 then { h with call := .done, named := entry }
  else { h with call := .closing, named := entry }

/-- A `close` that has closed `file`. -/
def OwnedFile.close (file : Nat) (result : CloseResult) (h : OwnedFile) : OwnedFile :=
  { h with
    call := if result = .eintr then .closing else .done
    closed := h.closed ++ [file] }

/-- A `close` of a number that names nothing. -/
def OwnedFile.giveUp (h : OwnedFile) : OwnedFile := { h with call := .done }

def Descriptors.step (s : Descriptors) : DescriptorEvent → Option Descriptors
  | .open fd =>
      if 0 ≤ fd ∧ s.table fd = none then
        some {
          table := Function.update s.table fd (some s.handles.length)
          handles := s.handles ++ [{ fd := fd }] }
      else none
  | .call i =>
      match s.handles[i]? with
      | some h =>
          if h.call = .owned then
            some { s with handles := s.handles.set i (h.begin (s.table h.fd)) }
          else none
      | none => none
  | .close i result =>
      match s.handles[i]? with
      | some h =>
          if h.call = .closing then
            match s.table h.fd with
            | none =>
                if result = .ebadf then some { s with handles := s.handles.set i h.giveUp }
                else none
            -- the number is free again, whatever the result is
            | some file =>
                if result = .ebadf then none
                else some {
                  table := Function.update s.table h.fd none
                  handles := s.handles.set i (h.close file result) }
          else none
      | none => none

/-- Any number of threads that open and close descriptors. -/
def descriptors : Machine Descriptors DescriptorEvent where
  init := { table := fun _ => none, handles := [] }
  step := Descriptors.step

/-- What a step can do. -/
inductive DescriptorStep (s : Descriptors) : DescriptorEvent → Descriptors → Prop where
  | open {fd : Int} (hfd : 0 ≤ fd) (hfree : s.table fd = none) :
      DescriptorStep s (.open fd) {
        table := Function.update s.table fd (some s.handles.length)
        handles := s.handles ++ [{ fd := fd }] }
  | call {i : Nat} {h : OwnedFile} (hi : s.handles[i]? = some h) (howned : h.call = .owned) :
      DescriptorStep s (.call i) { s with handles := s.handles.set i (h.begin (s.table h.fd)) }
  | giveUp {i : Nat} {h : OwnedFile} (hi : s.handles[i]? = some h) (hclosing : h.call = .closing)
      (hfree : s.table h.fd = none) :
      DescriptorStep s (.close i .ebadf) { s with handles := s.handles.set i h.giveUp }
  | close {i file : Nat} {h : OwnedFile} {result : CloseResult} (hi : s.handles[i]? = some h)
      (hclosing : h.call = .closing) (hfile : s.table h.fd = some file)
      (hresult : result ≠ .ebadf) :
      DescriptorStep s (.close i result) {
        table := Function.update s.table h.fd none
        handles := s.handles.set i (h.close file result) }

variable {s s' : Descriptors} {e : DescriptorEvent}

theorem Descriptors.step_cases (h : s.step e = some s') : DescriptorStep s e s' := by
  cases e with
  | «open» fd =>
      simp only [Descriptors.step] at h
      split at h
      next hfree =>
        cases h
        exact .open hfree.1 hfree.2
      next => cases h
  | call i =>
      simp only [Descriptors.step] at h
      split at h
      next hi =>
        split at h
        next howned =>
          cases h
          exact .call hi howned
        next => cases h
      next => cases h
  | close i result =>
      simp only [Descriptors.step] at h
      split at h
      next hi =>
        split at h
        next hclosing =>
          split at h
          next hfree =>
            split at h
            next hresult =>
              cases h
              subst hresult
              exact .giveUp hi hclosing hfree
            next => cases h
          next hfile =>
            split at h
            next => cases h
            next hresult =>
              cases h
              exact .close hi hclosing hfile hresult
        next => cases h
      next => cases h

/-! ## Exact closing -/

/-- A call has closed nothing but the file that its number named when it began, which is its
owner's, and once it has returned it has closed that one. -/
def OwnedFile.Exact (i : Nat) (h : OwnedFile) : Prop :=
  (h.closed = [] ∨ h.closed = [i] ∧ h.named = some i) ∧ (h.call = .done → h.closed = [i])

def Descriptors.Exact (s : Descriptors) : Prop :=
  ∀ (i : Nat) (h : OwnedFile), s.handles[i]? = some h → h.Exact i

/-- A `close` after the first one finds its number not in use. -/
def Descriptors.unused (s : Descriptors) : DescriptorEvent → Bool
  | .close i _ => s.handles[i]?.all (fun h => h.closed.isEmpty || (s.table h.fd).isNone)
  | .open _ | .call _ => true

/-- What the owner of a file may count on. -/
def OwnedFile.Sound (i : Nat) (entry : Option Nat) (h : OwnedFile) : Prop :=
  0 ≤ h.fd ∧
    match h.call with
    | .owned => h.closed = [] ∧ entry = some i
    | .closing => h.named = some i ∧ (h.closed = [] ∧ entry = some i ∨ h.closed = [i])
    | .done => h.named = some i ∧ h.closed = [i]

/-- Every file has its number until it is closed, and every number in use is its owner's. -/
structure Descriptors.Sound (s : Descriptors) : Prop where
  handle : ∀ (i : Nat) (h : OwnedFile), s.handles[i]? = some h → h.Sound i (s.table h.fd)
  entry : ∀ fd i, s.table fd = some i → ∃ h, s.handles[i]? = some h ∧ h.fd = fd ∧ h.closed = []

theorem OwnedFile.Sound.exact {i : Nat} {entry : Option Nat} {h : OwnedFile}
    (hs : h.Sound i entry) :
    h.Exact i := by
  obtain ⟨-, hcall⟩ := hs
  cases hc : h.call with
  | owned =>
      rw [hc] at hcall
      exact ⟨.inl hcall.1, by rw [hc]; nofun⟩
  | closing =>
      rw [hc] at hcall
      obtain ⟨hnamed, ⟨hclosed, -⟩ | hclosed⟩ := hcall
      · exact ⟨.inl hclosed, by rw [hc]; nofun⟩
      · exact ⟨.inr ⟨hclosed, hnamed⟩, by rw [hc]; nofun⟩
  | done =>
      rw [hc] at hcall
      exact ⟨.inr ⟨hcall.2, hcall.1⟩, fun _ => hcall.2⟩

/-- An entry of the table matters only to the owner of the file. -/
theorem OwnedFile.Sound.of_ne {i : Nat} {entry entry' : Option Nat} {h : OwnedFile}
    (hs : h.Sound i entry) (hne : entry ≠ some i) : h.Sound i entry' := by
  obtain ⟨hfd, hcall⟩ := hs
  refine ⟨hfd, ?_⟩
  cases hc : h.call with
  | owned =>
      rw [hc] at hcall
      exact absurd hcall.2 hne
  | closing =>
      rw [hc] at hcall
      obtain ⟨hnamed, ⟨-, hentry⟩ | hclosed⟩ := hcall
      · exact absurd hentry hne
      · exact ⟨hnamed, .inr hclosed⟩
  | done =>
      rw [hc] at hcall
      exact hcall

theorem Descriptors.sound_open (h : s.Sound) {fd : Int} (hfd : 0 ≤ fd) (hfree : s.table fd = none) :
    Descriptors.Sound {
      table := Function.update s.table fd (some s.handles.length)
      handles := s.handles ++ [{ fd := fd }] } := by
  constructor
  case handle =>
    intro i k hi
    rcases getElem?_append_single hi with hi | ⟨rfl, rfl⟩
    · have hk := h.handle i k hi
      by_cases hsame : k.fd = fd
      · rw [hsame, hfree] at hk
        exact hk.of_ne nofun
      · simp only [Function.update_of_ne hsame]
        exact hk
    · simp only [Function.update_self]
      exact ⟨hfd, rfl, rfl⟩
  case entry =>
    intro fd' i hentry
    by_cases hsame : fd' = fd
    · subst hsame
      simp only [Function.update_self] at hentry
      cases hentry
      exact ⟨{ fd := fd' }, by simp, rfl, rfl⟩
    · simp only [Function.update_of_ne hsame] at hentry
      obtain ⟨k, hi, hrest⟩ := h.entry fd' i hentry
      exact ⟨k, by rw [List.getElem?_append_left (lt_of_getElem? hi), hi], hrest⟩

/-- A step of one call that leaves the table as it is. -/
theorem Descriptors.Sound.set (h : s.Sound) {i : Nat} {k k' : OwnedFile}
    (hi : s.handles[i]? = some k) (hfd : k'.fd = k.fd) (hclosed : k'.closed = k.closed)
    (hk' : k'.Sound i (s.table k.fd)) :
    Descriptors.Sound { s with handles := s.handles.set i k' } := by
  constructor
  case handle =>
    intro j l hj
    rw [getElem?_set_eq _ hi] at hj
    split at hj
    next hji =>
      cases hj
      subst hji
      rw [hfd]
      exact hk'
    next => exact h.handle j l hj
  case entry =>
    intro fd j hentry
    obtain ⟨l, hj, hlfd, hlclosed⟩ := h.entry fd j hentry
    by_cases hji : j = i
    · subst hji
      rw [hi] at hj
      cases hj
      exact ⟨k', by rw [getElem?_set_eq _ hi, if_pos rfl], hfd.trans hlfd, hclosed.trans hlclosed⟩
    · exact ⟨l, by rw [getElem?_set_eq _ hi, if_neg hji, hj], hlfd, hlclosed⟩

/-- The file of a call is closed. -/
theorem Descriptors.Sound.close (h : s.Sound) {i : Nat} {k k' : OwnedFile}
    (hi : s.handles[i]? = some k) (hfile : s.table k.fd = some i) (hfd : k'.fd = k.fd)
    (hk' : k'.Sound i none) :
    Descriptors.Sound {
      table := Function.update s.table k.fd none
      handles := s.handles.set i k' } := by
  constructor
  case handle =>
    intro j l hj
    rw [getElem?_set_eq _ hi] at hj
    split at hj
    next hji =>
      cases hj
      subst hji
      simp only [hfd, Function.update_self]
      exact hk'
    next hji =>
      have hl := h.handle j l hj
      by_cases hsame : l.fd = k.fd
      · rw [hsame, hfile] at hl
        exact hl.of_ne (fun heq => hji (Option.some.inj heq).symm)
      · simp only [Function.update_of_ne hsame]
        exact hl
  case entry =>
    intro fd j hentry
    by_cases hsame : fd = k.fd
    · subst hsame
      simp only [Function.update_self] at hentry
      cases hentry
    · simp only [Function.update_of_ne hsame] at hentry
      obtain ⟨l, hj, hlfd, hlclosed⟩ := h.entry fd j hentry
      have hji : j ≠ i := by
        rintro rfl
        rw [hi] at hj
        cases hj
        exact hsame hlfd.symm
      exact ⟨l, by rw [getElem?_set_eq _ hi, if_neg hji, hj], hlfd, hlclosed⟩

/-- The first `close` of a call meets the file of its owner. -/
theorem OwnedFile.Sound.first {i file : Nat} {k : OwnedFile} (h : k.Sound i (some file))
    (hclosing : k.call = .closing) (hclosed : k.closed = []) : file = i ∧ k.named = some i := by
  obtain ⟨-, hcall⟩ := h
  rw [hclosing] at hcall
  obtain ⟨hnamed, ⟨-, hentry⟩ | hone⟩ := hcall
  · exact ⟨Option.some.inj hentry, hnamed⟩
  · rw [hone] at hclosed
    cases hclosed

theorem Descriptors.Sound.step (hstep : DescriptorStep s e s') (h : s.Sound)
    (hunused : s.unused e = true) : s'.Sound := by
  cases hstep with
  | «open» hfd hfree => exact Descriptors.sound_open h hfd hfree
  | @call i k hi howned =>
      obtain ⟨hfd, hcall⟩ := h.handle i k hi
      rw [howned] at hcall
      have hbegin : k.begin (s.table k.fd) = { k with call := .closing, named := s.table k.fd } :=
        if_neg (by omega)
      rw [hbegin]
      exact h.set hi rfl rfl ⟨hfd, hcall.2, .inl hcall⟩
  | @giveUp i k hi hclosing hfree =>
      have hk := h.handle i k hi
      obtain ⟨hfd, hcall⟩ := hk
      rw [hclosing, hfree] at hcall
      obtain ⟨hnamed, ⟨-, hentry⟩ | hone⟩ := hcall
      · cases hentry
      · exact h.set hi rfl rfl ⟨hfd, hnamed, hone⟩
  | @close i file k result hi hclosing hfile hresult =>
      have hk := h.handle i k hi
      have hempty : k.closed = [] := by
        simpa [Descriptors.unused, hi, hfile] using hunused
      rw [hfile] at hk
      obtain ⟨rfl, hnamed⟩ := hk.first hclosing hempty
      refine h.close hi hfile rfl ⟨hk.1, ?_⟩
      simp only [OwnedFile.close, hempty, List.nil_append]
      by_cases heintr : result = .eintr
      · simp only [heintr, if_true]
        exact ⟨hnamed, .inr trivial⟩
      · simp only [heintr, if_false]
        exact ⟨hnamed, trivial⟩

theorem descriptors_init : descriptors.init.Sound where
  handle i h hi := by simp [descriptors] at hi
  entry fd i hentry := by simp [descriptors] at hentry

/-- A second file is one too many. -/
theorem Descriptors.unused_of_exact (hstep : DescriptorStep s e s') (h : s'.Exact) :
    s.unused e = true := by
  cases hstep with
  | «open» | call => rfl
  | giveUp hi hclosing hfree => simp [Descriptors.unused, hi, hfree]
  | @close i file k result hi hclosing hfile hresult =>
      obtain ⟨hclosed, -⟩ := h i (k.close file result) (by rw [getElem?_set_eq _ hi, if_pos rfl])
      have hempty : k.closed = [] := by
        rcases hclosed with hnil | ⟨hone, -⟩
        · simp [OwnedFile.close] at hnil
        · have hlen := congrArg List.length hone
          simp only [OwnedFile.close, List.length_append, List.length_singleton] at hlen
          exact List.length_eq_zero_iff.mp (by omega)
      simp [Descriptors.unused, hi, hempty]

theorem safe_close_exact_iff {es : List DescriptorEvent} {s : Descriptors}
    (h : descriptors.run es = some s) :
    descriptors.Always Descriptors.Exact descriptors.init es ↔
      descriptors.Meets (fun t e => t.unused e = true) descriptors.init es := by
  constructor
  · intro halways
    refine halways.meets ?_ h
    intro t e t' _ hstep hexact
    exact Descriptors.unused_of_exact (Descriptors.step_cases hstep) hexact
  · intro hmeets
    refine hmeets.always (I := Descriptors.Sound) ?_ ?_ descriptors_init h
    · intro t ht i k hi
      exact (ht.handle i k hi).exact
    · intro t e t' ht hunused hstep
      exact ht.step (Descriptors.step_cases hstep) hunused

/-- A `close` is interrupted, and its number is in use again only when the call has
returned. -/
def interruptedOnce : List DescriptorEvent :=
  [.open 7, .open 8, .call 0, .call 1, .close 0 .eintr, .close 1 .ok, .open 8, .close 0 .ebadf,
    .open 7]

theorem exact_interruptedOnce : ∃ s, descriptors.run interruptedOnce = some s ∧
    s.handles.map (·.closed) = [[0], [1], [], []] ∧
    descriptors.Always Descriptors.Exact descriptors.init interruptedOnce := by
  refine ⟨_, rfl, rfl, ?_⟩
  exact (safe_close_exact_iff rfl).mpr (by decide)

/-- Another thread obtains the number between a `close` and its retry. -/
def closedTwice : List DescriptorEvent :=
  [.open 7, .call 0, .close 0 .eintr, .open 7, .close 0 .ok]

theorem inexact_closedTwice : ∃ s, descriptors.run closedTwice = some s ∧ ¬ s.Exact ∧
    s.handles = [{ fd := 7, call := .done, named := some 0, closed := [0, 1] }, { fd := 7 }] ∧
    s.table 7 = none := by
  refine ⟨_, rfl, ?_, rfl, rfl⟩
  intro hexact
  obtain ⟨-, hdone⟩ := hexact 0 _ rfl
  exact absurd (hdone rfl) (by decide)

/-! ## One step -/

/-- Which files are open, if closing one is one step. -/
inductive FileEvent where
  | open
  | close (i : Nat)

def files : Machine (List Bool) FileEvent where
  init := []
  step l
    | .open => some (l ++ [true])
    | .close i => if l[i]? = some true then some (l.set i false) else none

/-- The files that have not been closed. -/
def Descriptors.files (s : Descriptors) : List Bool := s.handles.map (fun h => h.closed.isEmpty)

theorem Descriptors.files_set {i : Nat} {k k' : OwnedFile} (hi : s.handles[i]? = some k)
    (hclosed : k'.closed = k.closed) :
    Descriptors.files { s with handles := s.handles.set i k' } = s.files := by
  apply List.ext_getElem?
  intro j
  simp only [Descriptors.files, List.getElem?_map, getElem?_set_eq _ hi]
  split
  next hji =>
    subst hji
    simp [hi, hclosed]
  next => rfl

theorem Descriptors.files_step (hstep : DescriptorStep s e s') (hunused : s.unused e = true) :
    ∃ es, Connection.files.exec s.files es = some s'.files := by
  cases hstep with
  | «open» hfd hfree =>
      refine ⟨[.open], ?_⟩
      simp [Machine.exec, Connection.files, Descriptors.files]
  | @call i k hi howned =>
      refine ⟨[], ?_⟩
      rw [Machine.exec_nil, Descriptors.files_set hi]
      simp only [OwnedFile.begin]
      split <;> rfl
  | @giveUp i k hi hclosing hfree =>
      refine ⟨[], ?_⟩
      have hsame : k.giveUp.closed = k.closed := rfl
      rw [Machine.exec_nil, Descriptors.files_set hi hsame]
  | @close i file k result hi hclosing hfile hresult =>
      have hempty : k.closed = [] := by
        simpa [Descriptors.unused, hi, hfile] using hunused
      have hopen : s.files[i]? = some true := by simp [Descriptors.files, hi, hempty]
      refine ⟨[.close i], Machine.exec_single_iff.mpr ?_⟩
      simp only [Connection.files, hopen, if_true]
      simp [Descriptors.files, OwnedFile.close, hempty]

/-- If no retry finds its number in use, the calls close their files one by one, each in one
step, and a number names a file exactly as long as it is open. -/
theorem files_run {es : List DescriptorEvent} (h : descriptors.run es = some s)
    (hmeets : descriptors.Meets (fun t e => t.unused e = true) descriptors.init es) :
    Connection.files.Reachable s.files ∧
      ∀ i, s.files[i]? = some true ↔ ∃ fd, s.table fd = some i := by
  have hboth : s.Sound ∧ Connection.files.Reachable s.files := by
    refine hmeets.invariant (P := fun t => t.Sound ∧ Connection.files.Reachable t.files) ?_
      ⟨descriptors_init, .init⟩ h
    rintro t e t' ⟨ht, hreach⟩ hunused hstep
    obtain ⟨fs, hfs⟩ := Descriptors.files_step (Descriptors.step_cases hstep) hunused
    exact ⟨ht.step (Descriptors.step_cases hstep) hunused, hreach.exec hfs⟩
  obtain ⟨hsound, hreach⟩ := hboth
  refine ⟨hreach, fun i => ?_⟩
  constructor
  · intro hopen
    obtain ⟨k, hi, hempty⟩ : ∃ k, s.handles[i]? = some k ∧ k.closed = [] := by
      simpa [Descriptors.files] using hopen
    obtain ⟨-, hcall⟩ := hsound.handle i k hi
    refine ⟨k.fd, ?_⟩
    cases hc : k.call with
    | owned =>
        rw [hc] at hcall
        exact hcall.2
    | closing =>
        rw [hc] at hcall
        obtain ⟨-, ⟨-, hentry⟩ | hone⟩ := hcall
        · exact hentry
        · rw [hempty] at hone
          cases hone
    | done =>
        rw [hc, hempty] at hcall
        cases hcall.2
  · rintro ⟨fd, hfd⟩
    obtain ⟨k, hi, -, hempty⟩ := hsound.entry fd i hfd
    simp [Descriptors.files, hi, hempty]

end InferenceRouter.Connection
