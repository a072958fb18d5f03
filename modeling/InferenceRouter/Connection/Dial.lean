import InferenceRouter.Connection.Descriptors
import InferenceRouter.Connection.Turns

/-!
# Dialling and listening

`dial_tcp` and `listen_tcp` of `connection.cpp`.  Both go through the addresses that
`getaddrinfo` found, and `fd` lives across the turns of the loop: a turn that fails has to close
its socket and to set `fd` back before the next one, on each of its ways out.

What the system calls return for an address is the environment's choice.  `errno` and the texts
of the addresses do not appear.  The calls are recorded, and replayed on the table of
descriptors to see which sockets are open in the end.  A `close` of a number that is free, or
that names the file of another, is counted (`strays`).
-/

namespace InferenceRouter.Connection

open Interleaving

/-! ## The calls -/

/-- A system call on a descriptor, or `socket` with the number it returned. -/
inductive SocketCall where
  | socket (fd : Int)
  | getFl (fd : Int)
  | setFl (fd : Int)
  | connect (fd : Int)
  | waitFor (fd : Int)
  | getsockopt (fd : Int)
  | setsockopt (fd : Int)
  | bind (fd : Int)
  | listen (fd : Int)
  | close (fd : Int)
  deriving DecidableEq

/-- The value of `fd` after `socket`. -/
def socketFd : Option Nat → Int
  | some fd => fd
  | none => -1

/-- What the two calls of `fcntl` in `set_nonblocking` return. -/
structure Fcntl where
  getFl : Bool := true
  setFl : Bool := true

/-- `set_nonblocking`: the calls, and what it returns. -/
def setNonblocking (fd : Int) (r : Fcntl) : List SocketCall × Bool :=
  if r.getFl = false then ([.getFl fd], false) else ([.getFl fd, .setFl fd], r.setFl)

/-- How a turn of the loop over the addresses ends. -/
inductive Turn where
  | «continue» (fd : Int)
  | «break» (fd : Int)

/-- The loop over the addresses, from a value of `fd`; `none` if a turn never ends. -/
def addressLoop {ρ : Type} (turn : ρ → Option (List SocketCall × Turn)) :
    Int → List ρ → Option (List SocketCall × Int)
  | fd, [] => some ([], fd)
  | _, e :: es =>
      match turn e with
      | none => none
      | some (calls, .break fd) => some (calls, fd)
      | some (calls, .continue fd) =>
          (addressLoop turn fd es).map (fun r => (calls ++ r.1, r.2))

/-! ## `dial_tcp` -/

/-- What `connect` returned. -/
inductive Connect where
  | ok
  | inProgress
  | failed

/-- What the calls return for an address. -/
structure DialEntry where
  socket : Option Nat
  nonblocking : Fcntl := {}
  connect : Connect := .ok
  polls : List Poll := [.ready]
  /-- The value of `SO_ERROR`, if `getsockopt` succeeds. -/
  soError : Option Int := some 0
  blocking : Fcntl := {}

/-- A turn of the loop of `dial_tcp`. -/
def DialEntry.turn (connectTimeoutMs : Int) (e : DialEntry) : Option (List SocketCall × Turn) :=
  let fd := socketFd e.socket
  if fd < 0 then some ([.socket fd], .continue fd)
  else
    let (fcntl, ok) := setNonblocking fd e.nonblocking
    if ok = false then some (.socket fd :: fcntl ++ [.close fd], .continue (-1))
    else
      let calls := .socket fd :: fcntl ++ [.connect fd]
      match e.connect with
      | .ok => some (calls ++ (setNonblocking fd e.blocking).1, .break fd)
      | .failed => some (calls ++ [.close fd], .continue (-1))
      | .inProgress =>
          let calls := calls ++ [.waitFor fd]
          match waitFor connectTimeoutMs e.polls with
          | none => none
          | some .timeout | some .error => some (calls ++ [.close fd], .continue (-1))
          | some .ready =>
              let calls := calls ++ [.getsockopt fd]
              if e.soError = some 0 then
                some (calls ++ (setNonblocking fd e.blocking).1, .break fd)
              else some (calls ++ [.close fd], .continue (-1))

/-- `dial_tcp`, with what `getaddrinfo` found. -/
def dialTcp (connectTimeoutMs : Int) (res : Option (List DialEntry)) :
    Option (List SocketCall × Int) :=
  match res with
  | none => some ([], -1)
  | some es =>
      (addressLoop (DialEntry.turn connectTimeoutMs) (-1) es).map (fun r =>
        (if 0 ≤ r.2 then r.1 ++ [.setsockopt r.2] else r.1, r.2))

/-! ## `listen_tcp` -/

structure ListenEntry where
  socket : Option Nat
  bind : Bool := true
  listen : Bool := true

/-- A turn of the loop of `listen_tcp`. -/
def ListenEntry.turn (e : ListenEntry) : Option (List SocketCall × Turn) :=
  let fd := socketFd e.socket
  if fd < 0 then some ([.socket fd], .continue fd)
  else
    let calls := [.socket fd, .setsockopt fd, .setsockopt fd, .bind fd]
    if e.bind = false then some (calls ++ [.close fd], .continue (-1))
    else if e.listen = false then some (calls ++ [.listen fd, .close fd], .continue (-1))
    else some (calls ++ [.listen fd], .break fd)

/-- `listen_tcp`, with what `getaddrinfo` found. -/
def listenTcp (res : Option (List ListenEntry)) : Option (List SocketCall × Int) :=
  match res with
  | none => some ([], -1)
  | some es => addressLoop ListenEntry.turn (-1) es

/-! ## Sockets -/

/-- A caller on the table that all threads use. -/
structure Holder where
  files : Descriptors
  /-- The files that it has opened. -/
  own : List Nat := []
  /-- How often it has closed a number that named nothing, or the file of another. -/
  strays : Nat := 0

/-- It obtains a number. -/
def Holder.open (s : Holder) (fd : Int) : Holder :=
  { s with
    files := {
      table := Function.update s.files.table fd (some s.files.handles.length)
      handles := s.files.handles ++ [{ fd := fd }] }
    own := s.own ++ [s.files.handles.length] }

/-- A call on the table.  `safe_close` goes to whatever the number names, and `close` succeeds
if it names something.  Only of a file of its own the caller is the one to close it. -/
def Holder.replay (s : Holder) : SocketCall → Option Holder
  | .socket fd =>
      if fd < 0 then some s
      else if s.files.table fd = none then some (s.open fd) else none
  | .close fd =>
      match s.files.table fd with
      | some i =>
          if i ∈ s.own then
            ((s.files.step (.call i)).bind (fun t => t.step (.close i .ok))).map (fun t =>
              { s with files := t })
          else
            some { s with
              files := { s.files with table := Function.update s.files.table fd none }
              strays := s.strays + 1 }
      | none => some { s with strays := s.strays + 1 }
  | .getFl _ | .setFl _ | .connect _ | .waitFor _ | .getsockopt _ | .setsockopt _ | .bind _
  | .listen _ => some s

/-- The calls of a function, from the table as it was when it began. -/
def Holder.replayAll (s : Holder) : List SocketCall → Option Holder
  | [] => some s
  | c :: cs => (s.replay c).bind (fun t => t.replayAll cs)

/-- Neither `socket` nor `close`. -/
def SocketCall.neutral : SocketCall → Bool
  | .socket _ | .close _ => false
  | .getFl _ | .setFl _ | .connect _ | .waitFor _ | .getsockopt _ | .setsockopt _ | .bind _
  | .listen _ => true

/-- An entry that was tried has called `socket`. -/
def SocketCall.tries : SocketCall → Bool
  | .socket _ => true
  | _ => false

/-- The file of a socket that was closed once. -/
def closedSocket (i : Nat) (fd : Int) : OwnedFile :=
  { fd := fd, call := .done, named := some i, closed := [i] }

variable {s s' t : Holder} {fd : Int}

theorem Holder.replayAll_append (cs ds : List SocketCall) :
    s.replayAll (cs ++ ds) = (s.replayAll cs).bind (fun t => t.replayAll ds) := by
  induction cs generalizing s with
  | nil => rfl
  | cons c cs ih =>
      rw [List.cons_append, Holder.replayAll, Holder.replayAll, Option.bind_assoc]
      congr 1
      funext t
      exact ih

theorem Holder.replayAll_neutral {cs : List SocketCall} (h : ∀ c ∈ cs, c.neutral = true) :
    s.replayAll cs = some s := by
  induction cs with
  | nil => rfl
  | cons c cs ih =>
      have hc : s.replay c = some s := by
        have hneutral := h c List.mem_cons_self
        cases c <;> first | rfl | cases hneutral
      rw [Holder.replayAll, hc, Option.bind_some]
      exact ih (fun d hd => h d (List.mem_cons_of_mem _ hd))

theorem Holder.replay_socket (hfd : 0 ≤ fd) (h : s.replay (.socket fd) = some s') :
    s.files.table fd = none ∧ s' = s.open fd := by
  rw [Holder.replay, if_neg (by omega)] at h
  split at h
  next hfree =>
    cases h
    exact ⟨hfree, rfl⟩
  next => cases h

/-- A socket that is kept. -/
theorem Holder.replayAll_open (hfd : 0 ≤ fd) {cs : List SocketCall}
    (hcs : ∀ c ∈ cs, c.neutral = true) (h : s.replayAll (.socket fd :: cs) = some s') :
    s.files.table fd = none ∧ s' = s.open fd := by
  obtain ⟨t, ht, hrest⟩ := Option.bind_eq_some_iff.mp h
  rw [Holder.replayAll_neutral hcs, Option.some.injEq] at hrest
  subst hrest
  exact Holder.replay_socket hfd ht

/-- A socket that was closed. -/
def Holder.openClosed (s : Holder) (fd : Int) : Holder :=
  { s with
    files := {
      s.files with
      handles := s.files.handles ++ [closedSocket s.files.handles.length fd] }
    own := s.own ++ [s.files.handles.length] }

theorem Holder.replayAll_close (hfd : 0 ≤ fd) {cs : List SocketCall}
    (hcs : ∀ c ∈ cs, c.neutral = true)
    (h : s.replayAll (.socket fd :: cs ++ [.close fd]) = some s') : s' = s.openClosed fd := by
  rw [Holder.replayAll_append] at h
  obtain ⟨t, ht, hrest⟩ := Option.bind_eq_some_iff.mp h
  obtain ⟨hfree, rfl⟩ := Holder.replayAll_open hfd hcs ht
  have hneg : ¬ fd < 0 := by omega
  have htable : Function.update s.files.table fd none = s.files.table := by
    rw [← hfree, Function.update_eq_self]
  simp [Holder.replayAll, Holder.replay, Holder.open, Descriptors.step, OwnedFile.begin, hneg,
    OwnedFile.close, htable] at hrest
  rw [← hrest]
  rfl

/-- The sockets opened since are all closed, each of them once and by the call that was made
for it; nothing else was closed, and every number names what it named before. -/
structure Dropped (s s' : Holder) : Prop where
  old : s.files.handles <+: s'.files.handles
  own : ∀ i, i ∈ s'.own ↔
    i ∈ s.own ∨ s.files.handles.length ≤ i ∧ i < s'.files.handles.length
  closed : ∀ (i : Nat) (h : OwnedFile), s.files.handles.length ≤ i →
    s'.files.handles[i]? = some h → h.call = .done ∧ h.closed = [i]
  table : s'.files.table = s.files.table
  strays : s'.strays = s.strays

/-- So are all but the last, which has the number `fd` and belongs to the caller. -/
def Kept (s s' : Holder) (fd : Int) : Prop :=
  ∃ t, Dropped s t ∧ t.files.table fd = none ∧ s' = t.open fd

theorem Dropped.refl (s : Holder) : Dropped s s where
  old := List.prefix_refl _
  own i := ⟨.inl, fun h => h.resolve_right (by omega)⟩
  closed i h hle hi := absurd (lt_of_getElem? hi) (by omega)
  table := rfl
  strays := rfl

theorem Dropped.trans (h : Dropped s t) (h' : Dropped t s') : Dropped s s' where
  old := h.old.trans h'.old
  own := by
    intro i
    have hle := h.old.length_le
    have hle' := h'.old.length_le
    rw [h'.own, h.own, or_assoc]
    exact or_congr_right (by omega)
  closed := by
    intro i k hle hi
    by_cases hnew : t.files.handles.length ≤ i
    · exact h'.closed i k hnew hi
    · obtain ⟨more, hmore⟩ := h'.old
      rw [← hmore, List.getElem?_append_left (by omega)] at hi
      exact h.closed i k hle hi
  table := h'.table.trans h.table
  strays := h'.strays.trans h.strays

theorem dropped_openClosed (s : Holder) (fd : Int) : Dropped s (s.openClosed fd) where
  old := List.prefix_append _ _
  own := by
    intro i
    simp only [Holder.openClosed, List.mem_append, List.mem_singleton, List.length_append,
      List.length_singleton]
    exact or_congr_right (by omega)
  closed := by
    intro i h hle hi
    rcases getElem?_append_single hi with hi | ⟨rfl, rfl⟩
    · exact absurd (lt_of_getElem? hi) (by omega)
    · exact ⟨rfl, rfl⟩
  table := rfl
  strays := rfl

theorem Dropped.kept (h : Dropped s t) (h' : Kept t s' fd) : Kept s s' fd := by
  obtain ⟨u, hu, hrest⟩ := h'
  exact ⟨u, h.trans hu, hrest⟩

/-! ## Turns -/

/-- A turn leaves the loop with the socket, if that works, and otherwise goes on without
one. -/
inductive TidyTurn (socket : Option Nat) (works : Prop) : List SocketCall → Turn → Prop where
  | noSocket (hsocket : socket = none) (hworks : ¬ works) :
      TidyTurn socket works [.socket (-1)] (.continue (-1))
  | closed {fd : Nat} (cs : List SocketCall) (hsocket : socket = some fd) (hworks : ¬ works)
      (hcs : ∀ c ∈ cs, c.neutral = true) :
      TidyTurn socket works (.socket fd :: cs ++ [.close fd]) (.continue (-1))
  | kept {fd : Nat} (cs : List SocketCall) (hsocket : socket = some fd) (hworks : works)
      (hcs : ∀ c ∈ cs, c.neutral = true) :
      TidyTurn socket works (.socket fd :: cs) (.break fd)

/-- `connect` completed, at once or when `poll` said so, and `SO_ERROR` was zero then. -/
def DialEntry.Works (e : DialEntry) : Prop :=
  e.socket.isSome = true ∧ (e.nonblocking.getFl = true ∧ e.nonblocking.setFl = true) ∧
    (e.connect = .ok ∨
      e.connect = .inProgress ∧ pollLoop e.polls = some .ready ∧ e.soError = some 0)

/-- `bind` and `listen` succeeded. -/
def ListenEntry.Works (e : ListenEntry) : Prop :=
  e.socket.isSome = true ∧ e.bind = true ∧ e.listen = true

theorem setNonblocking_neutral (fd : Int) (r : Fcntl) :
    ∀ c ∈ (setNonblocking fd r).1, c.neutral = true := by
  simp only [setNonblocking]
  split <;> simp [SocketCall.neutral]

theorem setNonblocking_iff (fd : Int) (r : Fcntl) :
    (setNonblocking fd r).2 = true ↔ r.getFl = true ∧ r.setFl = true := by
  simp only [setNonblocking]
  split <;> simp_all

theorem neutral_concat {cs : List SocketCall} {d : SocketCall}
    (hcs : ∀ c ∈ cs, c.neutral = true) (hd : d.neutral = true) :
    ∀ c ∈ cs ++ [d], c.neutral = true :=
  List.forall_mem_append.mpr ⟨hcs, List.forall_mem_singleton.mpr hd⟩

theorem DialEntry.turn_tidy {connectTimeoutMs : Int} {e : DialEntry} {calls : List SocketCall}
    {turn : Turn} (htimeout : 0 ≤ connectTimeoutMs)
    (h : e.turn connectTimeoutMs = some (calls, turn)) :
    TidyTurn e.socket e.Works calls turn := by
  cases hsocket : e.socket with
  | none =>
      simp only [DialEntry.turn, hsocket, socketFd] at h
      cases h
      exact .noSocket rfl (by simp [DialEntry.Works, hsocket])
  | some fd =>
      have hpos : ¬ (fd : Int) < 0 := by omega
      have hwait : waitFor connectTimeoutMs e.polls = pollLoop e.polls := if_neg (by omega)
      have hset := setNonblocking_neutral fd e.nonblocking
      have hconnect := neutral_concat (d := .connect fd) hset rfl
      have hpoll := neutral_concat (d := .waitFor fd) hconnect rfl
      have hget := neutral_concat (d := .getsockopt fd) hpoll rfl
      have hclear := setNonblocking_neutral fd e.blocking
      have hiff := setNonblocking_iff fd e.nonblocking
      simp only [DialEntry.turn, hsocket, socketFd, hpos, if_false, hwait] at h
      -- one case for every way out of the turn
      split at h
      next hfcntl =>
        cases h
        refine .closed _ rfl ?_ hset
        rintro ⟨-, hworks, -⟩
        rw [hiff.mpr hworks] at hfcntl
        cases hfcntl
      next hfcntl =>
        have hnonblocking := hiff.mp (Bool.eq_true_of_not_eq_false hfcntl)
        split at h
        next hok =>
          cases h
          exact .kept _ rfl ⟨by simp [hsocket], hnonblocking, .inl hok⟩
            (List.forall_mem_append.mpr ⟨hconnect, hclear⟩)
        next hfailed =>
          cases h
          exact .closed _ rfl (by simp [DialEntry.Works, hfailed]) hconnect
        next hprogress =>
          split at h
          next => cases h
          next hlate =>
            cases h
            exact .closed _ rfl (by simp [DialEntry.Works, hprogress, hlate]) hpoll
          next herror =>
            cases h
            exact .closed _ rfl (by simp [DialEntry.Works, hprogress, herror]) hpoll
          next hready =>
            split at h
            next hzero =>
              cases h
              exact .kept _ rfl
                ⟨by simp [hsocket], hnonblocking, .inr ⟨hprogress, hready, hzero⟩⟩
                (List.forall_mem_append.mpr ⟨hget, hclear⟩)
            next hzero =>
              cases h
              exact .closed _ rfl (by simp [DialEntry.Works, hprogress, hzero]) hget

theorem ListenEntry.turn_tidy {e : ListenEntry} {calls : List SocketCall} {turn : Turn}
    (h : e.turn = some (calls, turn)) : TidyTurn e.socket e.Works calls turn := by
  cases hsocket : e.socket with
  | none =>
      simp only [ListenEntry.turn, hsocket, socketFd] at h
      cases h
      exact .noSocket rfl (by simp [ListenEntry.Works, hsocket])
  | some fd =>
      have hpos : ¬ (fd : Int) < 0 := by omega
      simp only [ListenEntry.turn, hsocket, socketFd, hpos, if_false] at h
      split at h
      next hbind =>
        cases h
        exact .closed [.setsockopt fd, .setsockopt fd, .bind fd] rfl
          (by simp [ListenEntry.Works, hbind]) (by simp [SocketCall.neutral])
      next hbind =>
        split at h
        next hlisten =>
          cases h
          exact .closed [.setsockopt fd, .setsockopt fd, .bind fd, .listen fd] rfl
            (by simp [ListenEntry.Works, hlisten]) (by simp [SocketCall.neutral])
        next hlisten =>
          cases h
          exact .kept [.setsockopt fd, .setsockopt fd, .bind fd, .listen fd] rfl
            ⟨by simp [hsocket], Bool.eq_true_of_not_eq_false hbind,
              Bool.eq_true_of_not_eq_false hlisten⟩ (by simp [SocketCall.neutral])

/-! ## The loop -/

/-- What a call that went through the entries `es` and returned `fd` leaves behind. -/
structure Tidy {ρ : Type} (socket : ρ → Option Nat) (Works : ρ → Prop) (es : List ρ)
    (calls : List SocketCall) (fd : Int) : Prop where
  succeeds : 0 ≤ fd ↔ ∃ e ∈ es, Works e
  /-- The socket of the first entry that works; no later one was tried. -/
  first : 0 ≤ fd → ∃ pre e post, es = pre ++ e :: post ∧ (∀ x ∈ pre, ¬ Works x) ∧ Works e ∧
    socketFd (socket e) = fd ∧ calls.countP SocketCall.tries = pre.length + 1
  /-- It is open, all others have been closed once, and nothing else was closed. -/
  kept : 0 ≤ fd → ∀ s s' : Holder, s.replayAll calls = some s' → Kept s s' fd
  /-- Without such an entry nothing stays open. -/
  dropped : ¬ 0 ≤ fd → fd = -1 ∧
    ∀ s s' : Holder, s.replayAll calls = some s' → Dropped s s'

section Loop

variable {ρ : Type} {socket : ρ → Option Nat} {Works : ρ → Prop} {es : List ρ} {e : ρ}
  {calls cs : List SocketCall}

theorem countP_tries_neutral (h : ∀ c ∈ cs, c.neutral = true) : cs.countP SocketCall.tries = 0 := by
  rw [List.countP_eq_zero]
  intro c hc
  have hneutral := h c hc
  cases c with
  | socket fd => cases hneutral
  | getFl | setFl | connect | waitFor | getsockopt | setsockopt | bind | listen | close => nofun

theorem tidy_nil : Tidy socket Works [] [] (-1) where
  succeeds := by simp
  first h := absurd h (by decide)
  kept h := absurd h (by decide)
  dropped _ := ⟨rfl, fun s s' h => by cases h; exact .refl s⟩

/-- A turn that goes on leaves the rest to decide. -/
theorem Tidy.cons (h : Tidy socket Works es calls fd) (hworks : ¬ Works e)
    (htries : cs.countP SocketCall.tries = 1)
    (hdropped : ∀ s s' : Holder, s.replayAll cs = some s' → Dropped s s') :
    Tidy socket Works (e :: es) (cs ++ calls) fd where
  succeeds := by
    rw [h.succeeds]
    simp [hworks]
  first := by
    intro hfd
    obtain ⟨pre, e', post, rfl, hpre, hrest, hsocket, hcount⟩ := h.first hfd
    refine ⟨e :: pre, e', post, rfl, ?_, hrest, hsocket, ?_⟩
    · intro x hx
      rcases List.mem_cons.mp hx with rfl | hx
      · exact hworks
      · exact hpre x hx
    · rw [List.countP_append, htries, hcount, List.length_cons]
      omega
  kept := by
    intro hfd s s' hs
    rw [Holder.replayAll_append] at hs
    obtain ⟨t, ht, hrest⟩ := Option.bind_eq_some_iff.mp hs
    exact (hdropped s t ht).kept (h.kept hfd t s' hrest)
  dropped := by
    intro hfd
    obtain ⟨hminus, hrest⟩ := h.dropped hfd
    refine ⟨hminus, ?_⟩
    intro s s' hs
    rw [Holder.replayAll_append] at hs
    obtain ⟨t, ht, hu⟩ := Option.bind_eq_some_iff.mp hs
    exact (hdropped s t ht).trans (hrest t s' hu)

theorem TidyTurn.tidy_break {fd : Int} (h : TidyTurn (socket e) (Works e) calls (.break fd)) :
    Tidy socket Works (e :: es) calls fd := by
  cases h with
  | @kept fd cs hsocket hworks hcs =>
      have hfd : (0 : Int) ≤ fd := by omega
      constructor
      case succeeds => exact ⟨fun _ => ⟨e, List.mem_cons_self, hworks⟩, fun _ => hfd⟩
      case first =>
        intro _
        refine ⟨[], e, es, rfl, by simp, hworks, by rw [hsocket]; rfl, ?_⟩
        rw [List.countP_cons, countP_tries_neutral hcs]
        rfl
      case kept =>
        intro _ s s' hs
        obtain ⟨hfree, rfl⟩ := Holder.replayAll_open hfd hcs hs
        exact ⟨s, .refl s, hfree, rfl⟩
      case dropped =>
        intro hneg
        exact absurd hfd hneg

theorem TidyTurn.tidy_continue {fd : Int} (h : TidyTurn (socket e) (Works e) cs (.continue fd)) :
    fd = -1 ∧ ∀ {calls : List SocketCall} {fd' : Int}, Tidy socket Works es calls fd' →
      Tidy socket Works (e :: es) (cs ++ calls) fd' := by
  cases h with
  | noSocket hsocket hworks =>
      refine ⟨rfl, fun hrest => hrest.cons hworks rfl ?_⟩
      intro s s' hs
      cases hs
      exact .refl s
  | @closed fd cs hsocket hworks hcs =>
      refine ⟨rfl, fun hrest => hrest.cons hworks ?_ ?_⟩
      · rw [List.countP_append, List.countP_cons, countP_tries_neutral hcs]
        rfl
      · intro s s' hs
        rw [Holder.replayAll_close (by omega) hcs hs]
        exact dropped_openClosed s fd

/-- If every turn tidies up, so does the loop. -/
theorem addressLoop_tidy {turn : ρ → Option (List SocketCall × Turn)}
    (hturn : ∀ e calls t, turn e = some (calls, t) → TidyTurn (socket e) (Works e) calls t)
    (h : addressLoop turn (-1) es = some (calls, fd)) : Tidy socket Works es calls fd := by
  induction es generalizing calls with
  | nil =>
      cases h
      exact tidy_nil
  | cons e es ih =>
      simp only [addressLoop] at h
      split at h
      next => cases h
      next cs fd' hbreak =>
        cases h
        exact (hturn e _ _ hbreak).tidy_break
      next cs fd' hcontinue =>
        obtain ⟨rfl, hcons⟩ := (hturn e _ _ hcontinue).tidy_continue
        obtain ⟨⟨calls', fd''⟩, hrest, heq⟩ := Option.map_eq_some_iff.mp h
        cases heq
        exact hcons (ih hrest)

/-- A call at the end that opens and closes nothing. -/
theorem Tidy.append (h : Tidy socket Works es calls fd) (hcs : ∀ c ∈ cs, c.neutral = true) :
    Tidy socket Works es (calls ++ cs) fd := by
  have hreplay : ∀ s : Holder, s.replayAll (calls ++ cs) = s.replayAll calls := by
    intro s
    rw [Holder.replayAll_append]
    simp only [Holder.replayAll_neutral hcs]
    exact Option.bind_fun_some _
  have hcount : (calls ++ cs).countP SocketCall.tries = calls.countP SocketCall.tries := by
    rw [List.countP_append, countP_tries_neutral hcs, Nat.add_zero]
  constructor
  case succeeds => exact h.succeeds
  case first =>
    rw [hcount]
    exact h.first
  case kept =>
    simp only [hreplay]
    exact h.kept
  case dropped =>
    simp only [hreplay]
    exact h.dropped

end Loop

/-! ## Both functions -/

theorem dialTcp_tidy {connectTimeoutMs : Int} (htimeout : 0 ≤ connectTimeoutMs)
    {res : Option (List DialEntry)} {calls : List SocketCall}
    (h : dialTcp connectTimeoutMs res = some (calls, fd)) :
    Tidy DialEntry.socket DialEntry.Works (res.getD []) calls fd := by
  cases res with
  | none =>
      cases h
      exact tidy_nil
  | some es =>
      simp only [dialTcp] at h
      obtain ⟨⟨calls', fd'⟩, hloop, heq⟩ := Option.map_eq_some_iff.mp h
      have htidy := addressLoop_tidy (fun e calls t ht => DialEntry.turn_tidy htimeout ht) hloop
      simp only [Prod.mk.injEq] at heq
      obtain ⟨hcalls, rfl⟩ := heq
      rw [← hcalls]
      split
      next => exact htidy.append (by simp [SocketCall.neutral])
      next => exact htidy

/-- A loop whose turns end comes to an end. -/
theorem addressLoop_isSome {ρ : Type} {turn : ρ → Option (List SocketCall × Turn)} {es : List ρ}
    (h : ∀ e ∈ es, (turn e).isSome = true) (fd : Int) : (addressLoop turn fd es).isSome = true := by
  induction es generalizing fd with
  | nil => rfl
  | cons e es ih =>
      have hrest := ih (fun e' he' => h e' (List.mem_cons_of_mem _ he'))
      obtain ⟨⟨cs, turn'⟩, hturn⟩ := Option.isSome_iff_exists.mp (h e List.mem_cons_self)
      simp only [addressLoop, hturn]
      cases turn' with
      | «break» fd' => rfl
      | «continue» fd' => rw [Option.isSome_map, hrest fd']

theorem DialEntry.turn_isSome {connectTimeoutMs : Int} {e : DialEntry}
    (h : (waitFor connectTimeoutMs e.polls).isSome = true) :
    (e.turn connectTimeoutMs).isSome = true := by
  simp only [DialEntry.turn]
  repeat' split
  all_goals first | rfl | simp_all

theorem ListenEntry.turn_isSome (e : ListenEntry) : e.turn.isSome = true := by
  simp only [ListenEntry.turn]
  repeat' split
  all_goals rfl

theorem listenTcp_isSome (res : Option (List ListenEntry)) : (listenTcp res).isSome = true := by
  cases res with
  | none => rfl
  | some es => exact addressLoop_isSome (fun e _ => ListenEntry.turn_isSome e) (-1)

theorem listenTcp_tidy {res : Option (List ListenEntry)} {calls : List SocketCall}
    (h : listenTcp res = some (calls, fd)) :
    Tidy ListenEntry.socket ListenEntry.Works (res.getD []) calls fd := by
  cases res with
  | none =>
      cases h
      exact tidy_nil
  | some es => exact addressLoop_tidy (fun e calls t => ListenEntry.turn_tidy) h

theorem dial_listen_tidy (connectTimeoutMs : Int) (htimeout : 0 ≤ connectTimeoutMs) :
    (∀ res calls fd, dialTcp connectTimeoutMs res = some (calls, fd) →
      Tidy DialEntry.socket DialEntry.Works (res.getD []) calls fd) ∧
    (∀ es, (∀ e ∈ es, (waitFor connectTimeoutMs e.polls).isSome = true) →
      (dialTcp connectTimeoutMs (some es)).isSome = true) ∧
    ∀ res, ∃ calls fd, listenTcp res = some (calls, fd) ∧
      Tidy ListenEntry.socket ListenEntry.Works (res.getD []) calls fd := by
  refine ⟨fun res calls fd h => dialTcp_tidy htimeout h, ?_, ?_⟩
  · intro es hwaits
    have hloop := addressLoop_isSome
      (fun e he => DialEntry.turn_isSome (hwaits e he)) (-1)
    simpa [dialTcp] using hloop
  · intro res
    obtain ⟨⟨calls, fd⟩, hlisten⟩ := Option.isSome_iff_exists.mp (listenTcp_isSome res)
    exact ⟨calls, fd, hlisten, listenTcp_tidy hlisten⟩

/-- The first address refuses the connection after a while, and the second one takes it at
once. -/
def secondAddress : List DialEntry :=
  [{ socket := some 5, connect := .inProgress, soError := some 111 }, { socket := some 5 },
    { socket := some 6 }]

/-- The number of the first socket is given to the second one.  On an empty table, that is one
file which was closed, and one which was not. -/
theorem dial_listen_tidy_secondAddress : ∃ calls s',
    dialTcp 2000 (some secondAddress) = some (calls, 5) ∧
      Tidy DialEntry.socket DialEntry.Works secondAddress calls 5 ∧
      Holder.replayAll { files := descriptors.init } calls = some s' ∧
      s'.files.handles = [closedSocket 0 5, { fd := 5 }] ∧ s'.own = [0, 1] ∧ s'.strays = 0 ∧
      Kept { files := descriptors.init } s' 5 := by
  have htidy := (dial_listen_tidy 2000 (by decide)).1 (some secondAddress) _ 5 rfl
  exact ⟨_, _, rfl, htidy, rfl, rfl, rfl, rfl, htidy.kept (by decide) _ _ rfl⟩

end InferenceRouter.Connection
