import InferenceRouter.Connection.Dial

/-!
# The descriptors of the acceptor

`Acceptor::start`, `Acceptor::stop` and the destructor of `acceptor.cpp`, on the table of
descriptors.  `start` opens a listening socket, an `eventfd` and an `epoll` descriptor, one after
the other, and returns as soon as something fails.  `stop` closes what the members name, but
only if `running_` is set or there is a thread to join, and both come last in `start`.

So a `start` that fails after `listen_tcp` leaves the descriptors to nobody: `stop` and the
destructor return at once.  The other threads of the process open and close descriptors of their
own meanwhile.
-/

namespace InferenceRouter.Lifecycle

open Interleaving Connection

/-! ## `start` and `stop` -/

/-- The members of `Acceptor` that change. -/
structure Acceptor where
  listenFd : Int := -1
  wakeFd : Int := -1
  epollFd : Int := -1
  /-- `thread_.joinable()`. -/
  joinable : Bool := false
  running : Bool := false
  /-- `stop_`. -/
  stopFlag : Bool := false
  deriving DecidableEq

inductive Call where
  /-- A call of `connection.cpp`. -/
  | socket (c : SocketCall)
  | eventfd (fd : Int)
  | epollCreate1 (fd : Int)
  | epollCtl (epfd fd : Int)
  | thread
  | write (fd : Int)
  | join
  deriving DecidableEq

/-- What the calls of `start` return. -/
structure StartCalls where
  /-- In `listen_tcp`. -/
  addresses : Option (List ListenEntry)
  nonblocking : Fcntl := {}
  eventfd : Option Nat
  epollCreate1 : Option Nat
  addListen : Bool := true
  addWake : Bool := true
  /-- The constructor of `std::thread` does not throw. -/
  thread : Bool := true

/-- How `start` ends. -/
inductive StartResult where
  | returned (ok : Bool)
  | threw
  deriving DecidableEq

/-- `start`: the calls, the members afterwards, and the end. -/
def Acceptor.start (r : StartCalls) (a : Acceptor) : Option (List Call × Acceptor × StartResult) :=
  match listenTcp r.addresses with
  | none => none
  | some (listen, fd) =>
      let calls := listen.map .socket
      let a := { a with listenFd := fd }
      if fd < 0 then some (calls, a, .returned false)
      else
        let (fcntl, ok) := setNonblocking fd r.nonblocking
        let calls := calls ++ fcntl.map .socket
        if ok = false then some (calls, a, .returned false)
        else
          let wake := socketFd r.eventfd
          let calls := calls ++ [.eventfd wake]
          let a := { a with wakeFd := wake }
          if wake < 0 then some (calls, a, .returned false)
          else
            let epoll := socketFd r.epollCreate1
            let calls := calls ++ [.epollCreate1 epoll]
            let a := { a with epollFd := epoll }
            if epoll < 0 then some (calls, a, .returned false)
            else
              let calls := calls ++ [.epollCtl epoll fd]
              if r.addListen = false then some (calls, a, .returned false)
              else
                let calls := calls ++ [.epollCtl epoll wake]
                if r.addWake = false then some (calls, a, .returned false)
                else
                  let calls := calls ++ [.thread]
                  let a := { a with running := true }
                  if r.thread = false then some (calls, a, .threw)
                  else some (calls, { a with joinable := true }, .returned true)

/-- A member is closed and set back, if it is a descriptor. -/
def closeMember (fd : Int) : List Call × Int :=
  if 0 ≤ fd then ([.socket (.close fd)], -1) else ([], fd)

/-- `stop`, and the destructor. -/
def Acceptor.stop (a : Acceptor) : List Call × Acceptor :=
  if a.running = false ∧ a.joinable = false then ([], a)
  else
    let wake := if 0 ≤ a.wakeFd then [.write a.wakeFd] else []
    let join := if a.joinable = true then [.join] else []
    let (closeEpoll, epollFd) := closeMember a.epollFd
    let (closeListen, listenFd) := closeMember a.listenFd
    let (closeWake, wakeFd) := closeMember a.wakeFd
    (wake ++ join ++ closeEpoll ++ closeListen ++ closeWake,
      { listenFd := listenFd, wakeFd := wakeFd, epollFd := epollFd, stopFlag := true })

/-! ## The object -/

/-- What a call means to the table. -/
def Call.onTable : Call → List SocketCall
  | .socket c => [c]
  | .eventfd fd | .epollCreate1 fd => [.socket fd]
  | .epollCtl .. | .thread | .write _ | .join => []

structure State where
  acceptor : Acceptor := {}
  /-- The table, and what the acceptor has opened and closed. -/
  held : Holder
  started : Option StartCalls := none
  destroyed : Bool := false

inductive Event where
  | start (r : StartCalls)
  | stop
  | destroy
  /-- Another thread opens a descriptor, or closes one of its own. -/
  | other (e : DescriptorEvent)

/-- The file that an event of another thread is about. -/
def ownFile : DescriptorEvent → Option Nat
  | .open _ => none
  | .call i | .close i _ => some i

/-- `stop` on the table. -/
def State.stop (s : State) : Option State :=
  (s.held.replayAll (s.acceptor.stop.1.flatMap Call.onTable)).map (fun t =>
    { s with acceptor := s.acceptor.stop.2, held := t })

def step (s : State) : Event → Option State
  | .start r =>
      if s.started = none ∧ s.destroyed = false then
        match s.acceptor.start r with
        | none => none
        | some (calls, a, _) =>
            (s.held.replayAll (calls.flatMap Call.onTable)).map (fun t =>
              { s with acceptor := a, held := t, started := some r })
      else none
  | .stop => if s.destroyed = false then s.stop else none
  | .destroy =>
      if s.destroyed = false then s.stop.map (fun s' => { s' with destroyed := true }) else none
  | .other e =>
      -- no other thread closes a number again that is in use by now
      if (∀ i ∈ ownFile e, i ∉ s.held.own) ∧ s.held.files.unused e = true then
        (s.held.files.step e).map (fun t => { s with held := { s.held with files := t } })
      else none

/-- An acceptor from its constructor to its destructor. -/
def lifecycle : Machine State Event where
  init := { held := { files := descriptors.init } }
  step := step

/-! ## What is released -/

/-- The call of `safe_close` that was made for a file has closed it, and no other call has. -/
def ClosedOnce (t : Descriptors) (i : Nat) : Prop :=
  (∃ h, t.handles[i]? = some h ∧ h.closed = [i]) ∧
    ∀ j h, j ≠ i → t.handles[j]? = some h → i ∉ h.closed

/-- Every file that `start` has opened is closed once, and the acceptor has closed nothing
else: no number a second time, and no file of another thread. -/
def State.Released (s : State) : Prop :=
  (∀ i ∈ s.held.own, ClosedOnce s.held.files i) ∧ s.held.strays = 0

/-- `listen_tcp` returns a socket. -/
def StartCalls.Listens (r : StartCalls) : Prop := ∃ e ∈ r.addresses.getD [], ListenEntry.Works e

/-- What comes after `listen_tcp` succeeds, up to the thread. -/
def StartCalls.Completes (r : StartCalls) : Prop :=
  (r.nonblocking.getFl = true ∧ r.nonblocking.setFl = true) ∧ r.eventfd.isSome = true ∧
    r.epollCreate1.isSome = true ∧ r.addListen = true ∧ r.addWake = true

instance (r : StartCalls) : Decidable r.Completes := inferInstanceAs (Decidable (_ ∧ _))

/-! ## Files -/

/-- The file is open, under its number, and its owner has not begun to close it. -/
def Owned (t : Descriptors) (i : Nat) (fd : Int) : Prop :=
  t.handles[i]? = some { fd := fd }

/-- The file was closed by its owner. -/
def Done (t : Descriptors) (i : Nat) : Prop :=
  ∃ h, t.handles[i]? = some h ∧ h.call = .done ∧ h.closed = [i]

section Files

variable {t t' : Descriptors} {u u' : Holder} {i : Nat} {fd : Int} {e : DescriptorEvent}

theorem Done.closedOnce (ht : t.Sound) (h : Done t i) : ClosedOnce t i := by
  obtain ⟨k, hi, -, hclosed⟩ := h
  refine ⟨⟨k, hi, hclosed⟩, ?_⟩
  intro j l hne hj hmem
  obtain ⟨hnil | ⟨hone, -⟩, -⟩ := (ht.handle j l hj).exact
  · rw [hnil] at hmem
    cases hmem
  · rw [hone] at hmem
    exact hne (List.mem_singleton.mp hmem).symm

theorem Owned.not_closedOnce (h : Owned t i fd) : ¬ ClosedOnce t i := by
  rintro ⟨⟨k, hi, hclosed⟩, -⟩
  rw [Owned] at h
  rw [h] at hi
  cases hi
  cases hclosed

/-- An event that is not about a file leaves it as it is. -/
theorem getElem?_step (hstep : DescriptorStep t e t') (he : i ∉ ownFile e) {k : OwnedFile}
    (hi : t.handles[i]? = some k) : t'.handles[i]? = some k := by
  cases hstep with
  | «open» => rw [List.getElem?_append_left (lt_of_getElem? hi), hi]
  | @call j l hj | @giveUp j l hj | @close j file l result hj =>
      have hne : i ≠ j := by
        rintro rfl
        exact he rfl
      rw [getElem?_set_eq _ hj, if_neg hne, hi]

/-- `safe_close` of a number that names a file of the caller. -/
theorem replay_close (ht : u.files.Sound) (hfile : u.files.table fd = some i) (hown : i ∈ u.own)
    (h : u.replay (.close fd) = some u') :
    ∃ k, u.files.handles[i]? = some k ∧ k.fd = fd ∧ u' = { u with
      files := {
        table := Function.update u.files.table fd none
        handles := u.files.handles.set i
          { k with call := .done, named := some i, closed := [i] } } } := by
  obtain ⟨k, hi, rfl, hempty⟩ := ht.entry fd i hfile
  obtain ⟨hfd, -⟩ := ht.handle i k hi
  simp only [Holder.replay, hfile, if_pos hown] at h
  obtain ⟨t, hboth, rfl⟩ := Option.map_eq_some_iff.mp h
  obtain ⟨v, hcall, hclose⟩ := Option.bind_eq_some_iff.mp hboth
  cases Descriptors.step_cases hcall with
  | call hi' =>
      rw [hi] at hi'
      cases hi'
      have hbegin : k.begin (u.files.table k.fd) =
          { k with call := .closing, named := some i } := by
        rw [OwnedFile.begin, if_neg (by omega), hfile]
      rw [hbegin] at hclose
      cases Descriptors.step_cases hclose with
      | close hi' hclosing hfile' hresult =>
          simp only [getElem?_set_eq _ hi, if_true, Option.some.injEq] at hi'
          subst hi'
          rw [hfile] at hfile'
          cases hfile'
          refine ⟨k, hi, rfl, ?_⟩
          simp [OwnedFile.close, hempty]

theorem strays_le_replay {c : SocketCall} (h : u.replay c = some u') : u.strays ≤ u'.strays := by
  cases c with
  | socket fd =>
      simp only [Holder.replay] at h
      split at h
      next =>
        cases h
        exact Nat.le_refl _
      next =>
        split at h
        next =>
          cases h
          exact Nat.le_refl _
        next => cases h
  | close fd =>
      simp only [Holder.replay] at h
      split at h
      next =>
        split at h
        next =>
          obtain ⟨t, -, rfl⟩ := Option.map_eq_some_iff.mp h
          exact Nat.le_refl _
        next =>
          cases h
          exact Nat.le_succ _
      next =>
        cases h
        exact Nat.le_succ _
  | getFl | setFl | connect | waitFor | getsockopt | setsockopt | bind | listen =>
      cases h
      exact Nat.le_refl _

/-- As long as the caller closes only what is its own, every file keeps its number until it is
closed. -/
theorem sound_replay (ht : u.files.Sound) {c : SocketCall} (h : u.replay c = some u')
    (hstrays : u'.strays = u.strays) : u'.files.Sound := by
  cases c with
  | socket fd =>
      by_cases hneg : fd < 0
      · rw [Holder.replay, if_pos hneg, Option.some.injEq] at h
        subst h
        exact ht
      · have hfd := Int.not_lt.mp hneg
        obtain ⟨hfree, rfl⟩ := Holder.replay_socket hfd h
        exact Descriptors.sound_open ht hfd hfree
  | close fd =>
      cases hfile : u.files.table fd with
      | none =>
          simp only [Holder.replay, hfile] at h
          cases h
          exact absurd hstrays (Nat.succ_ne_self _)
      | some i =>
          by_cases hown : i ∈ u.own
          · obtain ⟨k, hi, rfl, rfl⟩ := replay_close ht hfile hown h
            exact ht.close hi hfile rfl ⟨(ht.handle i k hi).1, rfl, rfl⟩
          · simp only [Holder.replay, hfile, if_neg hown] at h
            cases h
            exact absurd hstrays (Nat.succ_ne_self _)
  | getFl | setFl | connect | waitFor | getsockopt | setsockopt | bind | listen =>
      cases h
      exact ht

theorem strays_le_replayAll {cs : List SocketCall} (h : u.replayAll cs = some u') :
    u.strays ≤ u'.strays := by
  induction cs generalizing u with
  | nil =>
      cases h
      exact Nat.le_refl _
  | cons c cs ih =>
      obtain ⟨v, hv, hrest⟩ := Option.bind_eq_some_iff.mp h
      exact (strays_le_replay hv).trans (ih hrest)

theorem sound_replayAll (ht : u.files.Sound) {cs : List SocketCall}
    (h : u.replayAll cs = some u') (hstrays : u'.strays = u.strays) : u'.files.Sound := by
  induction cs generalizing u with
  | nil =>
      cases h
      exact ht
  | cons c cs ih =>
      obtain ⟨v, hv, hrest⟩ := Option.bind_eq_some_iff.mp h
      have hle := strays_le_replay hv
      have hle' := strays_le_replayAll hrest
      exact ih (sound_replay ht hv (by omega)) hrest (by omega)

/-- Calls that close nothing. -/
theorem replayAll_opens {cs : List SocketCall} (hcs : ∀ fd, .close fd ∉ cs)
    (h : u.replayAll cs = some u') :
    u.files.handles <+: u'.files.handles ∧ (∀ i ∈ u.own, i ∈ u'.own) ∧ u'.strays = u.strays := by
  induction cs generalizing u with
  | nil =>
      cases h
      exact ⟨List.prefix_refl _, fun _ hi => hi, rfl⟩
  | cons c cs ih =>
      obtain ⟨v, hv, hrest⟩ := Option.bind_eq_some_iff.mp h
      obtain ⟨hold, hown, hstrays⟩ := ih (fun fd hmem => hcs fd (List.mem_cons_of_mem _ hmem)) hrest
      cases c with
      | socket fd =>
          by_cases hneg : fd < 0
          · rw [Holder.replay, if_pos hneg, Option.some.injEq] at hv
            subst hv
            exact ⟨hold, hown, hstrays⟩
          · obtain ⟨-, rfl⟩ := Holder.replay_socket (Int.not_lt.mp hneg) hv
            exact ⟨(List.prefix_append _ _).trans hold,
              fun i hi => hown i (List.mem_append_left _ hi), hstrays⟩
      | close fd => exact absurd List.mem_cons_self (hcs fd)
      | getFl | setFl | connect | waitFor | getsockopt | setsockopt | bind | listen =>
          cases hv
          exact ⟨hold, hown, hstrays⟩

/-- The caller closes a file of its own. -/
theorem Owned.close (ht : u.files.Sound) (h : Owned u.files i fd) (hown : i ∈ u.own) :
    ∃ t, u.replay (.close fd) = some { u with files := t } ∧ Done t i ∧
      ∀ j, j ≠ i → t.handles[j]? = u.files.handles[j]? := by
  obtain ⟨hfd, -, hentry⟩ := ht.handle i _ h
  rw [Owned] at h
  have hclose : u.replay (.close fd) = some { u with
      files := {
        table := Function.update u.files.table fd none
        handles := u.files.handles.set i (closedSocket i fd) } } := by
    have hneg : ¬ fd < 0 := Int.not_lt.mpr hfd
    simp [Holder.replay, Descriptors.step, h, hentry, hown, OwnedFile.begin, hneg,
      OwnedFile.close, getElem?_set_eq _ h, closedSocket]
  refine ⟨_, hclose, ⟨_, by rw [getElem?_set_eq _ h, if_pos rfl], rfl, rfl⟩, ?_⟩
  intro j hne
  rw [getElem?_set_eq _ h, if_neg hne]

/-- The files of a list are closed one after the other. -/
theorem Owned.closeAll {files : List (Nat × Int)} (ht : u.files.Sound)
    (hnodup : (files.map Prod.fst).Nodup) (howned : ∀ p ∈ files, Owned u.files p.1 p.2)
    (hown : ∀ p ∈ files, p.1 ∈ u.own) :
    ∃ t, u.replayAll (files.map (fun p => .close p.2)) = some { u with files := t } ∧
      (∀ p ∈ files, Done t p.1) ∧
      ∀ j ∉ files.map Prod.fst, t.handles[j]? = u.files.handles[j]? := by
  induction files generalizing u with
  | nil => exact ⟨u.files, rfl, nofun, fun _ _ => rfl⟩
  | cons p files ih =>
      obtain ⟨hp, hnodup⟩ := List.nodup_cons.mp hnodup
      obtain ⟨t, hu, ⟨k, hk, hdone⟩, hsame⟩ :=
        (howned p List.mem_cons_self).close ht (hown p List.mem_cons_self)
      have howned' : ∀ q ∈ files, Owned t q.1 q.2 := by
        intro q hq
        have hne : q.1 ≠ p.1 := fun heq => hp (heq ▸ List.mem_map_of_mem hq)
        exact (hsame q.1 hne).trans (howned q (List.mem_cons_of_mem _ hq))
      obtain ⟨t', hrest, hclosed, hothers⟩ := ih (u := { u with files := t })
        (sound_replay ht hu rfl) hnodup howned' (fun q hq => hown q (List.mem_cons_of_mem _ hq))
      refine ⟨t', Option.bind_eq_some_iff.mpr ⟨_, hu, hrest⟩, ?_, ?_⟩
      · intro q hq
        rcases List.mem_cons.mp hq with rfl | hq
        · exact ⟨k, (hothers _ hp).trans hk, hdone⟩
        · exact hclosed q hq
      · intro j hj
        obtain ⟨hne, hj⟩ := not_or.mp (mt List.mem_cons.mpr hj)
        exact (hothers j hj).trans (hsame j hne)

end Files

/-! ## What `start` can do -/

/-- `stop` returns at once. -/
def Acceptor.Idle (a : Acceptor) : Prop := a.running = false ∧ a.joinable = false

/-- What `start` has done to the table, the members afterwards, and the end. -/
inductive Start (r : StartCalls) : List SocketCall → Acceptor → StartResult → Prop where
  | unbound {calls : List SocketCall} {fd : Int} {a : Acceptor}
      (hlisten : listenTcp r.addresses = some (calls, fd)) (hfd : fd < 0) (hidle : a.Idle) :
      Start r calls a (.returned false)
  | failed {calls more : List SocketCall} {fd : Int} {a : Acceptor}
      (hlisten : listenTcp r.addresses = some (calls, fd)) (hfd : 0 ≤ fd)
      (hfails : ¬ r.Completes) (hmore : ∀ fd', .close fd' ∉ more) (hidle : a.Idle) :
      Start r (calls ++ more) a (.returned false)
  | running {calls fcntl : List SocketCall} {fd : Int} {wake epoll : Nat} {a : Acceptor}
      {result : StartResult}
      (hlisten : listenTcp r.addresses = some (calls, fd)) (hfd : 0 ≤ fd) (hcompletes : r.Completes)
      (hfcntl : ∀ c ∈ fcntl, c.neutral = true) (hlistenFd : a.listenFd = fd)
      (hwakeFd : a.wakeFd = wake) (hepollFd : a.epollFd = epoll) (hrunning : a.running = true)
      (hresult : result ≠ .returned false) :
      Start r (calls ++ fcntl ++ [.socket wake, .socket epoll]) a result

/-- `start` returns `false` exactly if it finds no address to listen on, or if something after
that fails. -/
theorem Start.returned_false_iff {r : StartCalls} {cs : List SocketCall} {a : Acceptor}
    {result : StartResult} (h : Start r cs a result) :
    result = .returned false ↔ ¬ (r.Listens ∧ r.Completes) := by
  cases h with
  | unbound hlisten hfd =>
      have hnone : ¬ r.Listens := fun hlistens =>
        absurd ((listenTcp_tidy hlisten).succeeds.mpr hlistens) (by omega)
      exact ⟨fun _ hboth => hnone hboth.1, fun _ => rfl⟩
  | failed _ _ hfails => exact ⟨fun _ hboth => hfails hboth.2, fun _ => rfl⟩
  | running hlisten hfd hcompletes _ _ _ _ _ hresult =>
      have hlistens : r.Listens := (listenTcp_tidy hlisten).succeeds.mp hfd
      exact ⟨fun heq => absurd heq hresult, fun hnot => absurd ⟨hlistens, hcompletes⟩ hnot⟩

theorem flatMap_socket (cs : List SocketCall) :
    (cs.map Call.socket).flatMap Call.onTable = cs := by
  simp [List.flatMap_map, Call.onTable]

theorem flatMap_started (listen fcntl : List SocketCall) (fd wake epoll : Int) :
    (listen.map Call.socket ++ fcntl.map Call.socket ++ [Call.eventfd wake] ++
      [Call.epollCreate1 epoll] ++ [Call.epollCtl epoll fd] ++ [Call.epollCtl epoll wake] ++
      [Call.thread]).flatMap Call.onTable =
      listen ++ fcntl ++ [.socket wake, .socket epoll] := by
  simp only [List.flatMap_append, flatMap_socket]
  simp [Call.onTable]

theorem close_notMem_setNonblocking (fd fd' : Int) (r : Fcntl) :
    .close fd' ∉ (setNonblocking fd r).1 :=
  fun hmem => Bool.false_ne_true (setNonblocking_neutral fd r _ hmem)

/-- A failure after `set_nonblocking`. -/
theorem start_failed {r : StartCalls} {listen : List SocketCall} {fd : Int} {a : Acceptor}
    {more : List Call} (hlisten : listenTcp r.addresses = some (listen, fd)) (hfd : 0 ≤ fd)
    (hfails : ¬ r.Completes) (hmore : ∀ fd', .close fd' ∉ more.flatMap Call.onTable)
    (hidle : a.Idle) :
    Start r ((listen.map Call.socket ++ ((setNonblocking fd r.nonblocking).1.map Call.socket ++
      more)).flatMap Call.onTable) a (.returned false) := by
  simp only [List.flatMap_append, flatMap_socket]
  refine .failed hlisten hfd hfails ?_ hidle
  intro fd' hmem
  rcases List.mem_append.mp hmem with hfcntl | hlater
  · exact close_notMem_setNonblocking fd fd' _ hfcntl
  · exact hmore fd' hlater

theorem Acceptor.start_cases {r : StartCalls} {a a' : Acceptor} {calls : List Call}
    {result : StartResult} (hidle : a.Idle) (h : a.start r = some (calls, a', result)) :
    Start r (calls.flatMap Call.onTable) a' result := by
  simp only [Acceptor.start] at h
  split at h
  next => cases h
  next listen fd hlisten =>
    have hneutral := setNonblocking_neutral fd r.nonblocking
    have hiff := setNonblocking_iff fd r.nonblocking
    split at h
    next hfd =>
      cases h
      rw [flatMap_socket]
      exact .unbound hlisten hfd hidle
    next hfd =>
      have hfd := Int.not_lt.mp hfd
      split at h
      next hfcntl =>
        cases h
        simp only [List.flatMap_append, flatMap_socket]
        refine .failed hlisten hfd ?_ (fun fd' => close_notMem_setNonblocking fd fd' _) hidle
        rintro ⟨hset, -⟩
        rw [hiff.mpr hset] at hfcntl
        cases hfcntl
      next hfcntl =>
        have hset := hiff.mp (Bool.eq_true_of_not_eq_false hfcntl)
        cases hwake : r.eventfd with
        | none =>
            simp only [hwake, socketFd] at h
            cases h
            simp only [List.append_assoc]
            exact start_failed hlisten hfd (by simp [StartCalls.Completes, hwake])
              (by simp [Call.onTable]) hidle
        | some wake =>
            have hwakeFd : ¬ (wake : Int) < 0 := by omega
            simp only [hwake, socketFd, hwakeFd, if_false] at h
            cases hepoll : r.epollCreate1 with
            | none =>
                simp only [hepoll] at h
                cases h
                simp only [List.append_assoc]
                exact start_failed hlisten hfd (by simp [StartCalls.Completes, hepoll])
                  (by simp [Call.onTable]) hidle
            | some epoll =>
                have hepollFd : ¬ (epoll : Int) < 0 := by omega
                simp only [hepoll, hepollFd, if_false] at h
                split at h
                next hadd =>
                  cases h
                  simp only [List.append_assoc]
                  exact start_failed hlisten hfd (by simp [StartCalls.Completes, hadd])
                    (by simp [Call.onTable]) hidle
                next haddListen =>
                  split at h
                  next hadd =>
                    cases h
                    simp only [List.append_assoc]
                    exact start_failed hlisten hfd (by simp [StartCalls.Completes, hadd])
                      (by simp [Call.onTable]) hidle
                  next haddWake =>
                    have hcompletes : r.Completes :=
                      ⟨hset, by rw [hwake]; rfl, by rw [hepoll]; rfl,
                        Bool.eq_true_of_not_eq_false haddListen,
                        Bool.eq_true_of_not_eq_false haddWake⟩
                    -- the thread comes after `running_` is set, so `stop` does not need it
                    split at h
                    all_goals
                      cases h
                      rw [flatMap_started]
                      exact .running hlisten hfd hcompletes hneutral rfl rfl rfl rfl (by simp)

/-- Whatever the calls return, `start` comes to an end. -/
theorem Acceptor.start_isSome (r : StartCalls) (a : Acceptor) : (a.start r).isSome = true := by
  obtain ⟨⟨calls, fd⟩, hlisten⟩ := Option.isSome_iff_exists.mp (listenTcp_isSome r.addresses)
  simp only [Acceptor.start, hlisten]
  repeat' split
  all_goals rfl

/-! ## Stages -/

/-- The files of a running acceptor in the order in which `stop` closes them, `l` being that of
the listening socket. -/
def Acceptor.files (l : Nat) (a : Acceptor) : List (Nat × Int) :=
  [(l + 2, a.epollFd), (l, a.listenFd), (l + 1, a.wakeFd)]

/-- Where an acceptor is. -/
inductive Stage (s : State) : Prop where
  | fresh (hstarted : s.started = none) (hidle : s.acceptor.Idle) (hown : s.held.own = [])
  /-- `start` has failed with its socket open, and nobody will close it. -/
  | leaked {r : StartCalls} {i : Nat} {fd : Int} (hstarted : s.started = some r)
      (hidle : s.acceptor.Idle) (hlistens : r.Listens) (hfails : ¬ r.Completes)
      (hopened : i ∈ s.held.own) (howned : Owned s.held.files i fd)
  | running {r : StartCalls} {l : Nat} (hstarted : s.started = some r)
      (halive : s.destroyed = false) (hcompletes : r.Completes)
      (hrunning : s.acceptor.running = true)
      (hopened : ∀ p ∈ s.acceptor.files l, p.1 ∈ s.held.own)
      (howned : ∀ p ∈ s.acceptor.files l, Owned s.held.files p.1 p.2)
      (hdone : ∀ i ∈ s.held.own, i ∉ (s.acceptor.files l).map Prod.fst → Done s.held.files i)
  | released {r : StartCalls} (hstarted : s.started = some r) (hidle : s.acceptor.Idle)
      (hok : r.Listens → r.Completes) (hdone : ∀ i ∈ s.held.own, Done s.held.files i)

/-- Holds along every run. -/
structure Sound (s : State) : Prop where
  table : s.held.files.Sound
  strays : s.held.strays = 0
  stage : Stage s

section Steps

variable {s s' : State} {t : Descriptors} {u : Holder}

/-- The other threads change no file of the acceptor. -/
theorem Stage.other (h : Stage s)
    (ht : ∀ i ∈ s.held.own, ∀ k, s.held.files.handles[i]? = some k → t.handles[i]? = some k) :
    Stage { s with held := { s.held with files := t } } := by
  have hstays : ∀ i ∈ s.held.own, Done s.held.files i → Done t i :=
    fun i hi ⟨k, hk, hdone⟩ => ⟨k, ht i hi k hk, hdone⟩
  cases h with
  | fresh hstarted hidle hown => exact .fresh hstarted hidle hown
  | leaked hstarted hidle hlistens hfails hopened howned =>
      exact .leaked hstarted hidle hlistens hfails hopened (ht _ hopened _ howned)
  | running hstarted halive hcompletes hrunning hopened howned hdone =>
      exact .running hstarted halive hcompletes hrunning hopened
        (fun p hp => ht _ (hopened p hp) _ (howned p hp))
        (fun i hi hothers => hstays i hi (hdone i hi hothers))
  | released hstarted hidle hok hdone =>
      exact .released hstarted hidle hok (fun i hi => hstays i hi (hdone i hi))

theorem Acceptor.stop_idle (a : Acceptor) : a.stop.2.Idle := by
  simp only [Acceptor.stop]
  split
  next hidle => exact hidle
  next => exact ⟨rfl, rfl⟩

theorem Acceptor.stop_files {a : Acceptor} {l : Nat} (hrunning : a.running = true)
    (hfiles : ∀ p ∈ a.files l, 0 ≤ p.2) :
    a.stop.1.flatMap Call.onTable = (a.files l).map (fun p => .close p.2) := by
  obtain ⟨hepoll, hlisten, hwake⟩ : 0 ≤ a.epollFd ∧ 0 ≤ a.listenFd ∧ 0 ≤ a.wakeFd := by
    simpa [Acceptor.files] using hfiles
  simp only [Acceptor.stop, hrunning, Bool.true_eq_false, false_and, if_false, closeMember,
    hepoll, hlisten, hwake, if_true, Acceptor.files]
  split <;> rfl

/-- `stop` of an acceptor at any stage. -/
theorem Sound.stop (h : Sound s) : ∃ s', s.stop = some s' ∧ Sound s' ∧ s'.acceptor.Idle := by
  -- it returns at once unless the acceptor is running
  have hnothing (hidle : s.acceptor.Idle) :
      ∃ s', s.stop = some s' ∧ Sound s' ∧ s'.acceptor.Idle := by
    have hstop : s.acceptor.stop = ([], s.acceptor) := if_pos hidle
    refine ⟨s, ?_, h, hidle⟩
    simp only [State.stop, hstop]
    rfl
  cases h.stage with
  | fresh _ hidle | leaked _ hidle | released _ hidle => exact hnothing hidle
  | @running r l hstarted halive hcompletes hrunning hopened howned hdone =>
      have hfd : ∀ p ∈ s.acceptor.files l, 0 ≤ p.2 :=
        fun p hp => (h.table.handle p.1 _ (howned p hp)).1
      have hnodup : ((s.acceptor.files l).map Prod.fst).Nodup := by
        simp [Acceptor.files]
      obtain ⟨t, ht, hclosed, hothers⟩ := Owned.closeAll h.table hnodup howned hopened
      refine ⟨{ s with acceptor := s.acceptor.stop.2, held := { s.held with files := t } }, ?_,
        ⟨sound_replayAll h.table ht rfl, h.strays, ?_⟩, s.acceptor.stop_idle⟩
      · rw [State.stop, Acceptor.stop_files hrunning hfd, ht]
        rfl
      · refine .released hstarted s.acceptor.stop_idle (fun _ => hcompletes) ?_
        intro i hi
        by_cases hfile : i ∈ (s.acceptor.files l).map Prod.fst
        · obtain ⟨p, hp, rfl⟩ := List.mem_map.mp hfile
          exact hclosed p hp
        · obtain ⟨k, hk, hrest⟩ := hdone i hi hfile
          exact ⟨k, (hothers i hfile).trans hk, hrest⟩

theorem Stage.destroy (h : Stage s) (hidle : s.acceptor.Idle) :
    Stage { s with destroyed := true } := by
  cases h with
  | fresh hstarted _ hown => exact .fresh hstarted hidle hown
  | leaked hstarted _ hlistens hfails hopened howned =>
      exact .leaked hstarted hidle hlistens hfails hopened howned
  | running _ _ _ hrunning => exact absurd (hidle.1.symm.trans hrunning) nofun
  | released hstarted _ hok hdone => exact .released hstarted hidle hok hdone

/-- The table after the two calls that follow `listen_tcp`. -/
theorem files_started {fcntl : List SocketCall} {wake epoll : Nat} {u u' : Holder}
    (hfcntl : ∀ c ∈ fcntl, c.neutral = true)
    (h : u.replayAll (fcntl ++ [.socket wake, .socket epoll]) = some u') :
    u'.files.handles = u.files.handles ++ [{ fd := wake }, { fd := epoll }] ∧
      u'.own = u.own ++ [u.files.handles.length, u.files.handles.length + 1] ∧
      u'.strays = u.strays := by
  rw [Holder.replayAll_append, Holder.replayAll_neutral hfcntl, Option.bind_some] at h
  replace h : u.replayAll ([.socket wake] ++ [.socket epoll]) = some u' := h
  rw [Holder.replayAll_append] at h
  obtain ⟨v, hwake, hepoll⟩ := Option.bind_eq_some_iff.mp h
  have hnone : ∀ c ∈ ([] : List SocketCall), c.neutral = true := List.forall_mem_nil _
  obtain ⟨-, rfl⟩ := Holder.replayAll_open (Int.natCast_nonneg wake) hnone hwake
  obtain ⟨-, rfl⟩ := Holder.replayAll_open (Int.natCast_nonneg epoll) hnone hepoll
  simp [Holder.open]

/-- `start` takes an acceptor from its first stage to one of the others, and closes nothing but
what it has opened. -/
theorem Stage.start {r : StartCalls} {cs : List SocketCall} {a : Acceptor}
    {result : StartResult} (hstart : Start r cs a result) (halive : s.destroyed = false)
    (hown : s.held.own = []) (hu : s.held.replayAll cs = some u) :
    Stage { s with acceptor := a, held := u, started := some r } ∧ u.strays = s.held.strays := by
  cases hstart with
  | unbound hlisten hfd hidle =>
      have htidy := listenTcp_tidy hlisten
      obtain ⟨-, hdropped⟩ := htidy.dropped (by omega)
      have hdropped := hdropped _ _ hu
      refine ⟨.released rfl hidle (fun hlistens => ?_) (fun i hi => ?_), hdropped.strays⟩
      · exact absurd (htidy.succeeds.mpr hlistens) (by omega)
      · obtain ⟨hnew, hlt⟩ := ((hdropped.own i).mp hi).resolve_left (by simp [hown])
        have hi := List.getElem?_eq_getElem hlt
        exact ⟨_, hi, hdropped.closed i _ hnew hi⟩
  | @failed calls more fd _ hlisten hfd hfails hmore hidle =>
      have htidy := listenTcp_tidy hlisten
      rw [Holder.replayAll_append] at hu
      obtain ⟨v, hv, hrest⟩ := Option.bind_eq_some_iff.mp hu
      obtain ⟨w, hdropped, -, rfl⟩ := htidy.kept hfd _ _ hv
      obtain ⟨⟨rest, hhandles⟩, hopened, hstrays⟩ := replayAll_opens hmore hrest
      have howned : Owned u.files w.files.handles.length fd := by
        rw [Owned, ← hhandles]
        simp [Holder.open]
      refine ⟨.leaked rfl hidle (htidy.succeeds.mp hfd) hfails (hopened _ ?_) howned, ?_⟩
      · simp [Holder.open]
      · exact hstrays.trans hdropped.strays
  | running hlisten hfd hcompletes hfcntl hlistenFd hwakeFd hepollFd hrunning =>
      have htidy := listenTcp_tidy hlisten
      rw [List.append_assoc, Holder.replayAll_append] at hu
      obtain ⟨v, hv, hrest⟩ := Option.bind_eq_some_iff.mp hu
      obtain ⟨w, hdropped, -, rfl⟩ := htidy.kept hfd _ _ hv
      obtain ⟨hhandles, hopened, hstrays⟩ := files_started hfcntl hrest
      subst hlistenFd
      -- the listening socket is the last file of `listen_tcp`, and two more follow it
      replace hhandles : u.files.handles = w.files.handles ++
          [{ fd := a.listenFd }, { fd := a.wakeFd }, { fd := a.epollFd }] := by
        rw [hhandles, hwakeFd, hepollFd, Holder.open, List.append_assoc]
        rfl
      replace hopened : u.own = w.own ++ [w.files.handles.length, w.files.handles.length + 1,
          w.files.handles.length + 2] := by
        rw [hopened, Holder.open, List.append_assoc, List.length_append]
        rfl
      refine ⟨.running (l := w.files.handles.length) rfl halive hcompletes hrunning ?_ ?_ ?_,
        hstrays.trans hdropped.strays⟩
      · simp [Acceptor.files, hopened]
      · simp [Acceptor.files, Owned, hhandles]
      · intro i hi hother
        have hold : i ∈ w.own := by
          rw [show u.own = _ from hopened] at hi
          rcases List.mem_append.mp hi with hold | hlast
          · exact hold
          · simp [Acceptor.files] at hother hlast
            omega
        obtain ⟨hnew, hlt⟩ := ((hdropped.own i).mp hold).resolve_left (by simp [hown])
        have hi : u.files.handles[i]? = some w.files.handles[i] := by
          rw [hhandles, List.getElem?_append_left hlt, List.getElem?_eq_getElem hlt]
        exact ⟨_, hi, hdropped.closed i _ hnew (List.getElem?_eq_getElem hlt)⟩

theorem Sound.step {e : Event} (h : Sound s) (hstep : step s e = some s') : Sound s' := by
  cases e with
  | start r =>
      simp only [Lifecycle.step] at hstep
      split at hstep
      next hnew =>
        split at hstep
        next => cases hstep
        next calls a result hstart =>
          obtain ⟨u, hu, rfl⟩ := Option.map_eq_some_iff.mp hstep
          obtain ⟨hidle, hown⟩ : s.acceptor.Idle ∧ s.held.own = [] := by
            cases h.stage with
            | fresh _ hidle hown => exact ⟨hidle, hown⟩
            | leaked hstarted | running hstarted | released hstarted =>
                exact absurd (hstarted.symm.trans hnew.1) nofun
          obtain ⟨hstage, hstrays⟩ :=
            Stage.start (Acceptor.start_cases hidle hstart) hnew.2 hown hu
          exact ⟨sound_replayAll h.table hu hstrays, hstrays.trans h.strays, hstage⟩
      next => cases hstep
  | stop =>
      simp only [Lifecycle.step] at hstep
      split at hstep
      next =>
        obtain ⟨u, hu, hsound, -⟩ := h.stop
        rw [hu] at hstep
        cases hstep
        exact hsound
      next => cases hstep
  | destroy =>
      simp only [Lifecycle.step] at hstep
      split at hstep
      next =>
        obtain ⟨u, hu, hsound, hidle⟩ := h.stop
        rw [hu] at hstep
        cases hstep
        exact ⟨hsound.table, hsound.strays, hsound.stage.destroy hidle⟩
      next => cases hstep
  | other e =>
      simp only [Lifecycle.step] at hstep
      split at hstep
      next hother =>
        obtain ⟨t, ht, rfl⟩ := Option.map_eq_some_iff.mp hstep
        have hcases := Descriptors.step_cases ht
        refine ⟨h.table.step hcases hother.2, h.strays, h.stage.other ?_⟩
        intro i hi k hk
        exact getElem?_step hcases (fun hown => hother.1 i hown hi) hk
      next => cases hstep

theorem sound_run {es : List Event} (h : lifecycle.run es = some s) : Sound s :=
  lifecycle.exec_invariant (fun _ _ _ hs hstep => Sound.step hs hstep)
    ⟨descriptors_init, rfl, .fresh rfl ⟨rfl, rfl⟩ rfl⟩ h

end Steps

/-- After the destructor, which can always run, every file that `start` has opened is closed
unless `start` failed with its listening socket open. -/
theorem released_iff {es : List Event} {s : State} (h : lifecycle.run es = some s)
    {r : StartCalls} (hstarted : s.started = some r) :
    (s.destroyed = false → (lifecycle.step s .destroy).isSome = true) ∧
      (s.destroyed = true → (s.Released ↔ (r.Listens → r.Completes))) := by
  have hsound := sound_run h
  refine ⟨?_, ?_⟩
  · intro halive
    obtain ⟨u, hu, -⟩ := hsound.stop
    change (step s .destroy).isSome = true
    rw [step, if_pos halive, hu]
    rfl
  · intro hdestroyed
    cases hsound.stage with
    | fresh hnone => exact absurd (hnone.symm.trans hstarted) nofun
    | leaked hstarted' _ hlistens hfails hopened howned =>
        cases hstarted.symm.trans hstarted'
        exact ⟨fun hreleased => absurd (hreleased.1 _ hopened) howned.not_closedOnce,
          fun hok => absurd (hok hlistens) hfails⟩
    | running _ halive => exact absurd (halive.symm.trans hdestroyed) nofun
    | released hstarted' _ hok hdone =>
        cases hstarted.symm.trans hstarted'
        exact ⟨fun _ => hok, fun _ =>
          ⟨fun i hi => (hdone i hi).closedOnce hsound.table, hsound.strays⟩⟩

/-- The first address is taken.  Other threads use two of the numbers that `stop` has given back
before the destructor runs. -/
def addressInUse : List Event :=
  [.other (.open 4),
    .start {
      addresses := some [{ socket := some 5, bind := false }, { socket := some 5 }]
      eventfd := some 6
      epollCreate1 := some 7 },
    .stop, .other (.open 5), .other (.open 6), .stop, .destroy, .other (.call 5)]

theorem released_iff_addressInUse : ∃ s, lifecycle.run addressInUse = some s ∧
    s.destroyed = true ∧ s.held.own = [1, 2, 3, 4] ∧ s.Released ∧
      s.held.files.table 5 = some 5 := by
  refine ⟨_, rfl, rfl, rfl, ?_, rfl⟩
  exact ((@released_iff addressInUse _ rfl _ rfl).2 rfl).mpr (fun _ => by decide)

/-- There is no descriptor left for the `eventfd`. -/
def noEventfd : StartCalls :=
  { addresses := some [{ socket := some 5 }], eventfd := none, epollCreate1 := none }

/-- `start` returns `false`, and the listening socket stays open. -/
theorem leaked_noEventfd :
    (∃ calls a, Acceptor.start noEventfd {} = some (calls, a, .returned false)) ∧
    ∃ s, lifecycle.run [.start noEventfd, .stop, .destroy] = some s ∧ s.destroyed = true ∧
      s.acceptor.listenFd = 5 ∧ s.held.own = [0] ∧ s.held.files.handles = [{ fd := 5 }] ∧
      s.held.files.table 5 = some 0 ∧ ¬ s.Released := by
  refine ⟨⟨_, _, rfl⟩, _, rfl, rfl, rfl, rfl, rfl, rfl, ?_⟩
  intro hreleased
  have hclosed := hreleased.1 0 (by decide)
  exact absurd hclosed (Owned.not_closedOnce (show Owned _ 0 5 from rfl))

end InferenceRouter.Lifecycle
