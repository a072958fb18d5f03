import InferenceRouter.Connection.Frame
import InferenceRouter.Interleaving.Prog

/-!
# The request handler

The two overloads of `handle_one` (`handler.cpp`), each with its plaintext and
its TLS body, as programs over the calls they make.  A call is an increment of a
counter, an operation on the client or on a backend connection, a borrow or a
release, or a close; its result is whatever the callee returned.  The bodies are
written out four times, as the source writes them.  Lines that only log are left
out.

`settlement` is the protocol of the counters: a run enters `in_flight` first,
counts itself completed or errored once, and leaves `in_flight` last.
-/

namespace InferenceRouter.Handler

open Interleaving Connection

/-- `HandlerOptions`.  `serverTls` says whether the pointer is set. -/
structure HandlerOptions where
  maxPayload : Nat := 16 * 1024 * 1024
  clientIoTimeoutMs : Int := 5000
  backendIoTimeoutMs : Int := 5000
  serverTls : Bool := false
  tlsHandshakeTimeoutMs : Int := 5000

/-- `BackendSet::Handle`. -/
structure Handle where
  fd : Int := -1
  poolIndex : Nat := 0
  deriving DecidableEq

/-- The other end of a read or a write. -/
inductive Peer where
  /-- `client_fd`. -/
  | client
  /-- The `Stream` over the client's `SSL`. -/
  | clientTls
  | backend (fd : Int)
  deriving DecidableEq

/-- The calls of the handler. -/
inductive Op where
  | incInFlight
  | decInFlight
  | incCompleted
  | incErrored
  | acceptHandshake (timeoutMs : Int)
  | readMessage (peer : Peer) (maxPayload : Nat) (timeoutMs : Int)
  | writeMessage (peer : Peer) (data : List UInt8) (timeoutMs : Int)
  | replyErrorPlain (msg : String) (timeoutMs : Int)
  | replyErrorTls (msg : String) (timeoutMs : Int)
  | poolBorrow
  | poolRelease (fd : Int) (ok : Bool)
  | setBorrow
  | setRelease (h : Handle) (ok : Bool)
  | safeClose
  | closeStream
  deriving DecidableEq

/-- What a call returns.  A handshake returns whether there is an `SSL`, a read
its status and the buffer. -/
@[reducible] def Op.Ret : Op → Type
  | .acceptHandshake _ => Bool
  | .readMessage .. => IoStatus × List UInt8
  | .writeMessage .. => IoStatus
  | .poolBorrow => Int
  | .setBorrow => Handle
  | _ => Unit

abbrev Code : Type → Type := Prog Op Op.Ret

/-! ## The calls under the names of the source -/

def incInFlight : Code Unit := Prog.perform Op.incInFlight

def decInFlight : Code Unit := Prog.perform Op.decInFlight

def incCompleted : Code Unit := Prog.perform Op.incCompleted

def incErrored : Code Unit := Prog.perform Op.incErrored

def acceptHandshake (timeoutMs : Int) : Code Bool := Prog.perform (Op.acceptHandshake timeoutMs)

def readMessage (peer : Peer) (maxPayload : Nat) (timeoutMs : Int) :
    Code (IoStatus × List UInt8) :=
  Prog.perform (Op.readMessage peer maxPayload timeoutMs)

def writeMessage (peer : Peer) (data : List UInt8) (timeoutMs : Int) : Code IoStatus :=
  Prog.perform (Op.writeMessage peer data timeoutMs)

def replyErrorPlain (msg : String) (timeoutMs : Int) : Code Unit :=
  Prog.perform (Op.replyErrorPlain msg timeoutMs)

def replyErrorTls (msg : String) (timeoutMs : Int) : Code Unit :=
  Prog.perform (Op.replyErrorTls msg timeoutMs)

def poolBorrow : Code Int := Prog.perform Op.poolBorrow

def poolRelease (fd : Int) (ok : Bool) : Code Unit := Prog.perform (Op.poolRelease fd ok)

def setBorrow : Code Handle := Prog.perform Op.setBorrow

def setRelease (h : Handle) (ok : Bool) : Code Unit := Prog.perform (Op.setRelease h ok)

def safeClose : Code Unit := Prog.perform Op.safeClose

def closeStream : Code Unit := Prog.perform Op.closeStream

-- a protocol is checked call by call
attribute [simp] incInFlight decInFlight incCompleted incErrored acceptHandshake readMessage
  writeMessage replyErrorPlain replyErrorTls poolBorrow poolRelease setBorrow setRelease safeClose
  closeStream

/-! ## `handle_one` -/

/-- `handle_one(int, BackendPool&, Metrics&, const HandlerOptions&)`. -/
def handleOnePool (opts : HandlerOptions) : Code Unit := do
  incInFlight
  if !opts.serverTls then
    let (r, req) ← readMessage .client opts.maxPayload opts.clientIoTimeoutMs
    if r ≠ .kOk then
      incErrored
      safeClose
      decInFlight
      return
    let backendFd ← poolBorrow
    if backendFd < 0 then
      replyErrorPlain "ERR backend unavailable" opts.clientIoTimeoutMs
      incErrored
      safeClose
      decInFlight
      return
    let connOk := true
    let wr ← writeMessage (.backend backendFd) req opts.backendIoTimeoutMs
    if wr ≠ .kOk then
      replyErrorPlain "ERR backend write" opts.clientIoTimeoutMs
      poolRelease backendFd false
      incErrored
      safeClose
      decInFlight
      return
    let (rr, resp) ← readMessage (.backend backendFd) opts.maxPayload opts.backendIoTimeoutMs
    if rr ≠ .kOk then
      replyErrorPlain "ERR backend read" opts.clientIoTimeoutMs
      poolRelease backendFd false
      incErrored
      safeClose
      decInFlight
      return
    let cw ← writeMessage .client resp opts.clientIoTimeoutMs
    poolRelease backendFd connOk
    if cw ≠ .kOk then
      incErrored
      safeClose
      decInFlight
      return
    incCompleted
    safeClose
    decInFlight
    return
  -- a failed handshake has closed the descriptor
  let ssl ← acceptHandshake opts.tlsHandshakeTimeoutMs
  if !ssl then
    incErrored
    decInFlight
    return
  let (r, req) ← readMessage .clientTls opts.maxPayload opts.clientIoTimeoutMs
  if r ≠ .kOk then
    incErrored
    closeStream
    decInFlight
    return
  let backendFd ← poolBorrow
  if backendFd < 0 then
    replyErrorTls "ERR backend unavailable" opts.clientIoTimeoutMs
    incErrored
    closeStream
    decInFlight
    return
  let connOk := true
  let wr ← writeMessage (.backend backendFd) req opts.backendIoTimeoutMs
  if wr ≠ .kOk then
    replyErrorTls "ERR backend write" opts.clientIoTimeoutMs
    poolRelease backendFd false
    incErrored
    closeStream
    decInFlight
    return
  let (rr, resp) ← readMessage (.backend backendFd) opts.maxPayload opts.backendIoTimeoutMs
  if rr ≠ .kOk then
    replyErrorTls "ERR backend read" opts.clientIoTimeoutMs
    poolRelease backendFd false
    incErrored
    closeStream
    decInFlight
    return
  let cw ← writeMessage .clientTls resp opts.clientIoTimeoutMs
  poolRelease backendFd connOk
  if cw ≠ .kOk then
    incErrored
    closeStream
    decInFlight
    return
  incCompleted
  closeStream
  decInFlight

/-- `handle_one(int, BackendSet&, Metrics&, const HandlerOptions&)`. -/
def handleOneSet (opts : HandlerOptions) : Code Unit := do
  incInFlight
  if !opts.serverTls then
    let (r, req) ← readMessage .client opts.maxPayload opts.clientIoTimeoutMs
    if r ≠ .kOk then
      incErrored
      safeClose
      decInFlight
      return
    let handle ← setBorrow
    if handle.fd < 0 then
      replyErrorPlain "ERR backend unavailable" opts.clientIoTimeoutMs
      incErrored
      safeClose
      decInFlight
      return
    let connOk := true
    let wr ← writeMessage (.backend handle.fd) req opts.backendIoTimeoutMs
    if wr ≠ .kOk then
      replyErrorPlain "ERR backend write" opts.clientIoTimeoutMs
      setRelease handle false
      incErrored
      safeClose
      decInFlight
      return
    let (rr, resp) ← readMessage (.backend handle.fd) opts.maxPayload opts.backendIoTimeoutMs
    if rr ≠ .kOk then
      replyErrorPlain "ERR backend read" opts.clientIoTimeoutMs
      setRelease handle false
      incErrored
      safeClose
      decInFlight
      return
    let cw ← writeMessage .client resp opts.clientIoTimeoutMs
    setRelease handle connOk
    if cw ≠ .kOk then
      incErrored
      safeClose
      decInFlight
      return
    incCompleted
    safeClose
    decInFlight
    return
  let ssl ← acceptHandshake opts.tlsHandshakeTimeoutMs
  if !ssl then
    incErrored
    decInFlight
    return
  let (r, req) ← readMessage .clientTls opts.maxPayload opts.clientIoTimeoutMs
  if r ≠ .kOk then
    incErrored
    closeStream
    decInFlight
    return
  let handle ← setBorrow
  if handle.fd < 0 then
    replyErrorTls "ERR backend unavailable" opts.clientIoTimeoutMs
    incErrored
    closeStream
    decInFlight
    return
  let connOk := true
  let wr ← writeMessage (.backend handle.fd) req opts.backendIoTimeoutMs
  if wr ≠ .kOk then
    replyErrorTls "ERR backend write" opts.clientIoTimeoutMs
    setRelease handle false
    incErrored
    closeStream
    decInFlight
    return
  let (rr, resp) ← readMessage (.backend handle.fd) opts.maxPayload opts.backendIoTimeoutMs
  if rr ≠ .kOk then
    replyErrorTls "ERR backend read" opts.clientIoTimeoutMs
    setRelease handle false
    incErrored
    closeStream
    decInFlight
    return
  let cw ← writeMessage .clientTls resp opts.clientIoTimeoutMs
  setRelease handle connOk
  if cw ≠ .kOk then
    incErrored
    closeStream
    decInFlight
    return
  incCompleted
  closeStream
  decInFlight

/-! ## The protocol of the counters -/

/-- How often a run has executed each of its counter updates. -/
structure Tally where
  entered : Nat := 0
  left : Nat := 0
  completed : Nat := 0
  errored : Nat := 0
  deriving DecidableEq, Repr

/-- The tally after one more call. -/
def Tally.count (g : Tally) : Op → Tally
  | .incInFlight => { g with entered := g.entered + 1 }
  | .decInFlight => { g with left := g.left + 1 }
  | .incCompleted => { g with completed := g.completed + 1 }
  | .incErrored => { g with errored := g.errored + 1 }
  | _ => g

/-- What a run adds to `in_flight` until it leaves. -/
def Tally.present (g : Tally) : Int := g.entered - g.left

/-- Whether a call keeps the order: enter first; settle once; leave last, after
settling. -/
def Tally.allows (g : Tally) : Op → Prop
  | .incInFlight => g = {}
  | .incCompleted | .incErrored => g = { entered := 1 }
  | .decInFlight => g.entered = 1 ∧ g.left = 0 ∧ g.completed + g.errored = 1
  | _ => g.entered = 1 ∧ g.left = 0

/-- A run that has returned: entered, settled and left once each. -/
def Tally.settled (g : Tally) : Prop :=
  g.entered = 1 ∧ g.left = 1 ∧ g.completed + g.errored = 1

/-- What holds of a run that keeps the order, whether or not it has returned. -/
structure Tally.Sound (g : Tally) : Prop where
  entered_le : g.entered ≤ 1
  settled_le : g.completed + g.errored ≤ g.entered
  left_le : g.left ≤ g.completed + g.errored

theorem Tally.Sound.count {g : Tally} {o : Op} (h : g.Sound) (ha : g.allows o) :
    (g.count o).Sound := by
  obtain ⟨hentered, hsettled, hleft⟩ := h
  cases o with
  | incInFlight =>
      have hg : g = {} := ha
      subst hg
      exact ⟨by simp [Tally.count], by simp [Tally.count], by simp [Tally.count]⟩
  | decInFlight =>
      obtain ⟨-, hzero, hone⟩ : g.entered = 1 ∧ g.left = 0 ∧ g.completed + g.errored = 1 := ha
      exact ⟨hentered, hsettled, by simp only [Tally.count]; omega⟩
  | incCompleted =>
      have hg : g = { entered := 1 } := ha
      subst hg
      exact ⟨by simp [Tally.count], by simp [Tally.count], by simp [Tally.count]⟩
  | incErrored =>
      have hg : g = { entered := 1 } := ha
      subst hg
      exact ⟨by simp [Tally.count], by simp [Tally.count], by simp [Tally.count]⟩
  | acceptHandshake | readMessage | writeMessage | replyErrorPlain | replyErrorTls | poolBorrow
  | poolRelease | setBorrow | setRelease | safeClose | closeStream =>
      exact ⟨hentered, hsettled, hleft⟩

/-- The protocol of the counters. -/
def settlement : Protocol Op Op.Ret Tally where
  allowed := Tally.allows
  next g o _ := g.count o
  final := Tally.settled

@[simp] theorem settlement_allowed (g : Tally) (o : Op) :
    settlement.allowed g o = g.allows o := rfl

@[simp] theorem settlement_next (g : Tally) (o : Op) (r : o.Ret) :
    settlement.next g o r = g.count o := rfl

@[simp] theorem settlement_final (g : Tally) : settlement.final g = g.settled := rfl

theorem handleOnePool_settles (opts : HandlerOptions) :
    (handleOnePool opts).Follows settlement {} := by
  simp [handleOnePool, Tally.allows, Tally.count, Tally.settled]

theorem handleOneSet_settles (opts : HandlerOptions) :
    (handleOneSet opts).Follows settlement {} := by
  simp [handleOneSet, Tally.allows, Tally.count, Tally.settled]

end InferenceRouter.Handler
