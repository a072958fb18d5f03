import InferenceRouter.Handler
import InferenceRouter.Connection.Tls
import InferenceRouter.Interleaving.Trace

/-!
# Running the handler

What a run of `handle_one` does, act by act: the counter updates, the calls on the
client's descriptor, the bytes that go each way, the lease, and the close.  A `World` has
an answer for every call that the run makes, down to the turns of each loop of
`connection.cpp` and `tls.cpp`.  It has them in separate lists, so that the answers to the
client and those of the backend do not depend on one another.  The backends are behind a
`Lender`.

The four bodies of `handle_one` are the same text over different calls.  `serve` is that
text, with the transport and the lending as parameters, and `handleOnePool_eq` and
`handleOneSet_eq` say that the four bodies are instances of it.
-/

namespace InferenceRouter.Handler

open Interleaving Connection

/-! ## Acts -/

/-- The other end of a connection. -/
inductive End where
  | client
  | backend (fd : Int)
  deriving DecidableEq

/-- The end that a peer of the source stands for. -/
def Peer.end : Peer → End
  | .client | .clientTls => .client
  | .backend fd => .backend fd

/-- What a run does. -/
inductive Act where
  /-- An update of a counter. -/
  | counted (o : Op)
  /-- A call on the client's descriptor that only a TLS connection makes. -/
  | tls (call : TlsCall)
  /-- A call of `read_message`, the pieces it receives, and its return. -/
  | reading (e : End)
  | received (e : End) (piece : List UInt8)
  | read (e : End) (status : IoStatus) (payload : List UInt8)
  /-- A call of `write_message`, the pieces it hands over, and its return. -/
  | writing (e : End) (data : List UInt8)
  | handed (e : End) (piece : List UInt8)
  | wrote (e : End) (status : IoStatus)
  | borrowed (h : Handle)
  | released (h : Handle) (ok : Bool)
  /-- `safe_close` of the client's descriptor. -/
  | closed
  deriving DecidableEq

def readActs (e : End) (result : IoStatus × List UInt8) (pieces : List (List UInt8)) : List Act :=
  .reading e :: (pieces.map (.received e) ++ [.read e result.1 result.2])

def writeActs (e : End) (data : List UInt8) (status : IoStatus) (pieces : List (List UInt8)) :
    List Act :=
  .writing e data :: (pieces.map (.handed e) ++ [.wrote e status])

/-! ## Worlds -/

/-- Lends connections: a `BackendPool`, or a `BackendSet`. -/
structure Lender (β : Type) where
  borrow : β → Option (Handle × β)
  release : β → Handle → Bool → Option β

/-- The turns of a call of `read_message` on the client, in the clear or through TLS. -/
inductive ClientRead where
  | plain (turns : List ReadTurn)
  | tls (turns : List (List (SslTry (List UInt8))))

inductive ClientWrite where
  | plain (turns : List WriteTurn)
  | tls (turns : List (List (SslTry Nat)))

/-- The function that is called: the one for descriptors, or the one for streams. -/
def ClientRead.peer : ClientRead → Peer
  | .plain _ => .client
  | .tls _ => .clientTls

def ClientRead.outcomes (timeoutMs : Int) : ClientRead → List (Option (Outcome (List UInt8)))
  | .plain turns => turns.map (ReadTurn.outcome timeoutMs)
  | .tls turns => turns.map (pumpSsl timeoutMs)

def ClientWrite.peer : ClientWrite → Peer
  | .plain _ => .client
  | .tls _ => .clientTls

def ClientWrite.outcomes (timeoutMs : Int) : ClientWrite → List (Option (Outcome Nat))
  | .plain turns => turns.map (WriteTurn.outcome timeoutMs)
  | .tls turns => turns.map (pumpSsl timeoutMs)

/-- The answers to the calls that are still to come. -/
structure World (β : Type) where
  handshakes : List Handshake := []
  reads : List ClientRead
  writes : List ClientWrite
  backendReads : List (List ReadTurn)
  backendWrites : List (List WriteTurn)
  lender : β

variable {β : Type}

/-- `read_message` on the client's descriptor, on its `Stream`, or on a backend
connection. -/
def World.readMessage (w : World β) (peer : Peer) (maxPayload : Nat) (timeoutMs : Int) :
    Option ((IoStatus × List UInt8) × List Act × World β) :=
  match peer, w.reads, w.backendReads with
  | .client, .plain turns :: rest, _ =>
      match Reading.start.loop maxPayload (turns.map (ReadTurn.outcome timeoutMs)) with
      | some (result, pieces) =>
          some (result, readActs .client result pieces, { w with reads := rest })
      | none => none
  | .clientTls, .tls turns :: rest, _ =>
      match Reading.start.loop maxPayload (turns.map (pumpSsl timeoutMs)) with
      | some (result, pieces) =>
          some (result, readActs .client result pieces, { w with reads := rest })
      | none => none
  | .backend fd, _, turns :: rest =>
      match Reading.start.loop maxPayload (turns.map (ReadTurn.outcome timeoutMs)) with
      | some (result, pieces) =>
          some (result, readActs (.backend fd) result pieces, { w with backendReads := rest })
      | none => none
  | _, _, _ => none

/-- `write_message`, likewise. -/
def World.writeMessage (w : World β) (peer : Peer) (data : List UInt8) (timeoutMs : Int) :
    Option (IoStatus × List Act × World β) :=
  match peer, w.writes, w.backendWrites with
  | .client, .plain turns :: rest, _ =>
      match writeCall data (turns.map (WriteTurn.outcome timeoutMs)) with
      | some (status, pieces) =>
          some (status, writeActs .client data status pieces, { w with writes := rest })
      | none => none
  | .clientTls, .tls turns :: rest, _ =>
      match writeCall data (turns.map (pumpSsl timeoutMs)) with
      | some (status, pieces) =>
          some (status, writeActs .client data status pieces, { w with writes := rest })
      | none => none
  | .backend fd, _, turns :: rest =>
      match writeCall data (turns.map (WriteTurn.outcome timeoutMs)) with
      | some (status, pieces) =>
          some (status, writeActs (.backend fd) data status pieces,
            { w with backendWrites := rest })
      | none => none
  | _, _, _ => none

/-- `reply_error_plain` and `reply_error_tls`. -/
def World.replyError (w : World β) (peer : Peer) (msg : String) (timeoutMs : Int) :
    Option (Unit × List Act × World β) :=
  match w.writeMessage peer msg.toUTF8.toList timeoutMs with
  | some (_, acts, w') => some ((), acts, w')
  | none => none

/-- `accept_handshake`, which closes the descriptor if it fails. -/
def World.acceptHandshake (w : World β) (timeoutMs : Int) : Option (Bool × List Act × World β) :=
  match w.handshakes with
  | [] => none
  | h :: rest =>
      match h.calls timeoutMs with
      | none => none
      | some (calls, ok) =>
          some (ok, calls.map .tls ++ (if ok = true then [] else [.closed]),
            { w with handshakes := rest })

/-- `BackendPool::borrow`: a handle is its descriptor. -/
def World.poolBorrow (L : Lender β) (w : World β) : Option (Int × List Act × World β) :=
  match L.borrow w.lender with
  | some (h, lender) =>
      some (h.fd, [.borrowed { fd := h.fd }], { w with lender := lender })
  | none => none

/-- `BackendSet::borrow`. -/
def World.setBorrow (L : Lender β) (w : World β) : Option (Handle × List Act × World β) :=
  match L.borrow w.lender with
  | some (h, lender) => some (h, [.borrowed h], { w with lender := lender })
  | none => none

def World.release (L : Lender β) (w : World β) (h : Handle) (ok : Bool) :
    Option (Unit × List Act × World β) :=
  match L.release w.lender h ok with
  | some lender => some ((), [.released h ok], { w with lender := lender })
  | none => none

/-- The answers to the calls of the handler. -/
def World.answer (L : Lender β) : Env Op Op.Ret Act (World β)
  | .incInFlight, w => some ((), [.counted .incInFlight], w)
  | .decInFlight, w => some ((), [.counted .decInFlight], w)
  | .incCompleted, w => some ((), [.counted .incCompleted], w)
  | .incErrored, w => some ((), [.counted .incErrored], w)
  | .acceptHandshake timeoutMs, w => w.acceptHandshake timeoutMs
  | .readMessage peer maxPayload timeoutMs, w => w.readMessage peer maxPayload timeoutMs
  | .writeMessage peer data timeoutMs, w => w.writeMessage peer data timeoutMs
  | .replyErrorPlain msg timeoutMs, w => w.replyError .client msg timeoutMs
  | .replyErrorTls msg timeoutMs, w => w.replyError .clientTls msg timeoutMs
  | .poolBorrow, w => w.poolBorrow L
  | .poolRelease fd ok, w => w.release L { fd := fd } ok
  | .setBorrow, w => w.setBorrow L
  | .setRelease h ok, w => w.release L h ok
  | .safeClose, w => some ((), [.closed], w)
  | .closeStream, w => some ((), [.tls .shutdown, .tls .free, .closed], w)

/-! ## One text for four bodies -/

/-- The calls on the client that the plaintext and the TLS bodies make differently. -/
structure Transport where
  peer : Peer
  reply : String → Int → Code Unit
  close : Code Unit

def Transport.plain : Transport := ⟨.client, replyErrorPlain, safeClose⟩

def Transport.tls : Transport := ⟨.clientTls, replyErrorTls, closeStream⟩

/-- The calls with which the two overloads get and return a connection. -/
structure Lending where
  borrow : Code Handle
  release : Handle → Bool → Code Unit

def Lending.pool : Lending where
  borrow := do
    let fd ← poolBorrow
    return { fd := fd }
  release h ok := poolRelease h.fd ok

def Lending.set : Lending := ⟨setBorrow, setRelease⟩

/-- The end of every body that fails. -/
def fail (t : Transport) : Code Unit := do
  incErrored
  t.close
  decInFlight

/-- The exchange with a backend, over the connection that was lent. -/
def exchange (t : Transport) (l : Lending) (opts : HandlerOptions) (handle : Handle)
    (req : List UInt8) : Code Unit := do
  let wr ← writeMessage (.backend handle.fd) req opts.backendIoTimeoutMs
  if wr ≠ .kOk then
    t.reply "ERR backend write" opts.clientIoTimeoutMs
    l.release handle false
    fail t
  else
    let (rr, resp) ← readMessage (.backend handle.fd) opts.maxPayload opts.backendIoTimeoutMs
    if rr ≠ .kOk then
      t.reply "ERR backend read" opts.clientIoTimeoutMs
      l.release handle false
      fail t
    else
      let cw ← writeMessage t.peer resp opts.clientIoTimeoutMs
      l.release handle true
      if cw ≠ .kOk then fail t
      else
        incCompleted
        t.close
        decInFlight

/-- The text of the bodies, from the request on. -/
def serve (t : Transport) (l : Lending) (opts : HandlerOptions) : Code Unit := do
  let (r, req) ← readMessage t.peer opts.maxPayload opts.clientIoTimeoutMs
  if r ≠ .kOk then fail t
  else
    let handle ← l.borrow
    if handle.fd < 0 then
      t.reply "ERR backend unavailable" opts.clientIoTimeoutMs
      fail t
    else exchange t l opts handle req

/-- The two paths of `handle_one`. -/
def handleOne (l : Lending) (opts : HandlerOptions) : Code Unit := do
  incInFlight
  if !opts.serverTls then serve .plain l opts
  else
    let ssl ← acceptHandshake opts.tlsHandshakeTimeoutMs
    if !ssl then
      incErrored
      decInFlight
    else serve .tls l opts

theorem handleOnePool_eq (opts : HandlerOptions) : handleOnePool opts = handleOne .pool opts := rfl

theorem handleOneSet_eq (opts : HandlerOptions) : handleOneSet opts = handleOne .set opts := rfl

end InferenceRouter.Handler
