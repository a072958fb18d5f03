import InferenceRouter.BackendPool.Standing
import InferenceRouter.Relay.Conversation
import InferenceRouter.Relay.Protocol

/-!
# Handlers, pools and the bytes between them

The handler runs of a process with the backend pools they share, down to the
bytes of every connection.  A run executes the text of `handle_one`; its calls of
`read_message` and `write_message` go turn by turn, each turn moving as many
bytes as the system call returned, and may give up at any turn.  `borrow` and
`release` are calls into `BackendPool.Model`, so a run waits while its entry among
the callers of the pool moves by the pool's own steps.  The health pings of each
reaper are reads and writes of the same kind.

Every system call goes through the descriptor table: it reaches the file that the
number names at that moment.  All pools see the one table, in which the files of
the others are `other` to them.  `State.closeFd` is `safe_close` as long as no
retry of its loop finds the number in use (`Connection.safe_close_exact_iff`,
`Connection.files_run`).

`BackendSet::borrow` may pick any pool here, whatever the load; its counters are
left out.  The bytes of a TLS handshake are left out too, and so is what brings a
client to a run: a run may begin at any time after its client was accepted.

The files `client j` and the list `clients` say what went over the connection of
the `j`-th client, and `runs` has the run that was started for it.
-/

namespace InferenceRouter.Relay

open Interleaving Connection Handler

/-! ## State -/

/-- An open file. -/
inductive File where
  /-- The `n`-th connection that the pool dialled. -/
  | conn (pool n : Nat)
  | client (j : Nat)
  | other
  deriving DecidableEq

/-- `health_ping_`, in its `write_message` or in its `read_message`. -/
inductive Ping where
  | writing (w : Writing)
  | reading (r : Reading)

/-- A ping starts with the header of an empty message. -/
def Ping.start : Ping := .writing (.header 0)

/-- A `BackendPool` with its connections, and the ping that its reaper is in. -/
structure Backend where
  opts : BackendPool.Options
  pool : BackendPool.Pool := {}
  ping : Ping := .start
  conns : Nat → Stream := fun _ => {}

/-- A client's connection: the bytes read from it, and the bytes written to it by
`write_message` of an answer and by the error replies. -/
structure Client where
  received : List UInt8 := []
  response : List UInt8 := []
  errors : List UInt8 := []

/-- What a run is doing about its next call. -/
inductive Activity where
  /-- It has not been made. -/
  | idle
  | reading (r : Reading)
  | writing (w : Writing)
  /-- In `borrow`, as a caller of a pool. -/
  | borrowing (pool caller : Nat)
  | releasing (pool caller : Nat)

/-- A run of `handle_one`: the client's descriptor, the pool of the overload that
has one, what is left of the text, and the entry among the callers of a pool under
which it has a connection. -/
structure Run where
  fd : Nat
  pool : Nat
  rest : Code Unit
  act : Activity := .idle
  ticket : Option (Nat × Nat) := none
  tally : Tally := {}

structure State where
  now : Int := 0
  table : Nat → Option File := fun _ => none
  backends : List Backend := []
  clients : List Client := []
  runs : List Run := []

/-! ## Pools -/

/-- What a file is to pool `i`. -/
def viewFile (i : Nat) : File → BackendPool.File
  | .conn k n => if k = i then .backend n else .other
  | .client _ | .other => .other

/-- The state as pool `i` sees it. -/
def State.view (s : State) (i : Nat) (b : Backend) : BackendPool.State where
  now := s.now
  table fd := (s.table fd).map (viewFile i)
  toPool := b.pool

/-- The state after a step of pool `i`.  A new connection has carried nothing. -/
def State.putPool (s : State) (i : Nat) (b : Backend) (v : BackendPool.State) : State :=
  { s with
    table := fun fd =>
      match v.table fd with
      | some (.backend n) => some (.conn i n)
      | some .other => s.table fd
      | none => none
    backends := s.backends.set i { b with
      pool := v.toPool
      conns := fun n => if n < b.pool.dials then b.conns n else {} } }

def State.poolStep (s : State) (i : Nat) (e : BackendPool.Event) : Option State :=
  match s.backends[i]? with
  | some b => (BackendPool.step b.opts.normalise (s.view i b) e).map (s.putPool i b)
  | none => none

/-- A thread's entry among the callers of a pool. -/
def State.caller (s : State) (i c : Nat) : Option BackendPool.Caller :=
  (s.backends[i]?).bind (fun b => b.pool.callers[c]?)

def State.setPing (s : State) (i : Nat) (p : Ping) : State :=
  match s.backends[i]? with
  | some b => { s with backends := s.backends.set i { b with ping := p } }
  | none => s

/-! ## Descriptors -/

def State.closeFd (s : State) (fd : Nat) : State :=
  { s with table := Function.update s.table fd none }

/-- The `n`-th connection of pool `i` becomes `c`. -/
def State.setConn (s : State) (i : Nat) (b : Backend) (n : Nat) (c : Stream) : State :=
  { s with backends := s.backends.set i { b with conns := Function.update b.conns n c } }

def Client.write (c : Client) (asResponse : Bool) (bytes : List UInt8) : Client :=
  if asResponse = true then { c with response := c.response ++ bytes }
  else { c with errors := c.errors ++ bytes }

/-- Bytes are sent to a file. -/
def State.sendTo (s : State) (asResponse : Bool) (bytes : List UInt8) : File → State
  | .conn i n =>
      match s.backends[i]? with
      | some b => s.setConn i b n ((b.conns n).send bytes)
      | none => s
  | .client j =>
      match s.clients[j]? with
      | some c => { s with clients := s.clients.set j (c.write asResponse bytes) }
      | none => s
  | .other => s

/-- Bytes are received from a file, if they are the next ones there.  A client may
send anything. -/
def State.recvFrom (s : State) (bytes : List UInt8) : File → Option State
  | .conn i n =>
      match s.backends[i]? with
      | some b =>
          if bytes <+: (b.conns n).unread then
            some (s.setConn i b n ((b.conns n).recv bytes.length))
          else none
      | none => none
  | .client j =>
      match s.clients[j]? with
      | some c =>
          some { s with clients := s.clients.set j { c with received := c.received ++ bytes } }
      | none => none
  | .other => some s

/-! ## Calls -/

def State.setRun (s : State) (j : Nat) (run : Run) : State := { s with runs := s.runs.set j run }

/-- The call `o` has returned, and `rest` is left. -/
def Run.goOn (run : Run) (o : Op) (rest : Code Unit) : Run :=
  { run with rest := rest, act := .idle, tally := run.tally.count o }

/-- The file behind the other end of a read or a write. -/
def State.peerFile (s : State) (run : Run) : Peer → Option File
  | .client | .clientTls => s.table run.fd
  | .backend fd => if fd < 0 then none else s.table fd.toNat

/-- What a call writes. -/
structure Message where
  peer : Peer
  data : List UInt8
  isResponse : Bool

def message : Op → Option Message
  | .writeMessage peer data _ => some ⟨peer, data, true⟩
  | .replyErrorPlain msg _ => some ⟨.client, msg.toUTF8.toList, false⟩
  | .replyErrorTls msg _ => some ⟨.clientTls, msg.toUTF8.toList, false⟩
  | _ => none

/-- What a call returns after its `write_message` returned the status. -/
def wrote : (o : Op) → IoStatus → Option o.Ret
  | .writeMessage _ _ _, status => some status
  | .replyErrorPlain _ _, _ | .replyErrorTls _ _, _ => some ()
  | _, _ => none

/-- What a call returns after `borrow` of pool `i` returned a descriptor, or `-1`. -/
def borrowed (i : Nat) : (o : Op) → Option Nat → Option o.Ret
  | .poolBorrow, some fd => some (fd : Int)
  | .poolBorrow, none => some (-1 : Int)
  | .setBorrow, some fd => some { fd := fd, poolIndex := i }
  | .setBorrow, none => some { fd := -1, poolIndex := 0 }
  | _, _ => none

/-- What a call returns after `release` of a pool has returned. -/
def released : (o : Op) → Option o.Ret
  | .poolRelease _ _ | .setRelease _ _ => some ()
  | _ => none

/-- `write_message` begins. -/
def State.startWrite (s : State) (j : Nat) (run : Run) (o : Op) (k : o.Ret → Code Unit) :
    Option State :=
  match message o with
  | some m =>
      match Writing.start m.data with
      | .inl w => some (s.setRun j { run with act := .writing w })
      | .inr status => (wrote o status).map (fun r => s.setRun j (run.goOn o (k r)))
  | none => none

/-- `borrow` of pool `i` begins. -/
def State.borrow (s : State) (j : Nat) (run : Run) (i : Nat) : Option State :=
  match s.backends[i]? with
  | some b =>
      (s.poolStep i .borrow).map (fun s' =>
        s'.setRun j { run with act := .borrowing i b.pool.callers.length })
  | none => none

/-- `release` of pool `i` begins, under the entry of the run's `borrow`. -/
def State.release (s : State) (j : Nat) (run : Run) (i : Nat) (fd : Int) (ok : Bool) :
    Option State :=
  match s.backends[i]?, run.ticket with
  | some b, some (i', c) =>
      if i' = i then
        some { s with
          backends := s.backends.set i { b with
            pool := { b.pool with callers := b.pool.callers.set c (.releasing fd.toNat ok) } }
          runs := s.runs.set j { run with act := .releasing i c, ticket := none } }
      else none
  | _, _ => none

/-- A run makes its next call. -/
def State.call (s : State) (j : Nat) (run : Run) : (o : Op) → (o.Ret → Code Unit) → Option State
  | .incInFlight, k => some (s.setRun j (run.goOn .incInFlight (k ())))
  | .decInFlight, k => some (s.setRun j (run.goOn .decInFlight (k ())))
  | .incCompleted, k => some (s.setRun j (run.goOn .incCompleted (k ())))
  | .incErrored, k => some (s.setRun j (run.goOn .incErrored (k ())))
  | .safeClose, k => some ((s.closeFd run.fd).setRun j (run.goOn .safeClose (k ())))
  | .closeStream, k => some ((s.closeFd run.fd).setRun j (run.goOn .closeStream (k ())))
  | .readMessage _ _ _, _ => some (s.setRun j { run with act := .reading .start })
  | .writeMessage peer data t, k => s.startWrite j run (.writeMessage peer data t) k
  | .replyErrorPlain msg t, k => s.startWrite j run (.replyErrorPlain msg t) k
  | .replyErrorTls msg t, k => s.startWrite j run (.replyErrorTls msg t) k
  | .poolBorrow, _ => s.borrow j run run.pool
  -- with a pool to pick, the call is the event of the pick
  | .setBorrow, k =>
      if s.backends.length = 0 then
        some (s.setRun j (run.goOn .setBorrow (k { fd := -1, poolIndex := 0 })))
      else none
  | .poolRelease fd ok, k =>
      if fd < 0 then some (s.setRun j (run.goOn (.poolRelease fd ok) (k ())))
      else s.release j run run.pool fd ok
  | .setRelease h ok, k =>
      if h.fd < 0 ∨ s.backends.length ≤ h.poolIndex then
        some (s.setRun j (run.goOn (.setRelease h ok) (k ())))
      else s.release j run h.poolIndex h.fd ok
  | .acceptHandshake _, _ => none

/-- `accept_handshake` returns.  A failed one has closed the descriptor. -/
def State.handshake (s : State) (j : Nat) (run : Run) (ok : Bool) :
    (o : Op) → (o.Ret → Code Unit) → Option State
  | .acceptHandshake t, k =>
      let s := if ok = true then s else s.closeFd run.fd
      some (s.setRun j (run.goOn (.acceptHandshake t) (k ok)))
  | _, _ => none

/-- `BackendSet::borrow` picks pool `i`. -/
def State.pick (s : State) (j : Nat) (run : Run) (i : Nat) : Op → Option State
  | .setBorrow => s.borrow j run i
  | _ => none

/-- A `recv` of a run returns. -/
def State.recv (s : State) (j : Nat) (run : Run) (r : Reading) (bytes : List UInt8) :
    (o : Op) → (o.Ret → Code Unit) → Option State
  | .readMessage peer maxPayload t, k =>
      match s.peerFile run peer with
      | some file =>
          if bytes ≠ [] ∧ bytes.length ≤ r.need then
            (s.recvFrom bytes file).map (fun s' =>
              match r.recv maxPayload bytes with
              | .inl r' => s'.setRun j { run with act := .reading r' }
              | .inr out => s'.setRun j (run.goOn (.readMessage peer maxPayload t) (k out)))
          else none
      | none => none
  | _, _ => none

/-- A `send` of a run returns. -/
def State.send (s : State) (j : Nat) (run : Run) (w : Writing) (n : Nat) (o : Op)
    (k : o.Ret → Code Unit) : Option State :=
  match message o with
  | some m =>
      match s.peerFile run m.peer with
      | some file =>
          if n ≤ w.need m.data then
            let s' := s.sendTo m.isResponse (w.chunk m.data n) file
            match w.send m.data n with
            | .inl w' => some (s'.setRun j { run with act := .writing w' })
            | .inr status => (wrote o status).map (fun r => s'.setRun j (run.goOn o (k r)))
          else none
      | none => none
  | none => none

/-- `read_exact` or `write_exact` of a run gives up. -/
def State.stop (s : State) (j : Nat) (run : Run) (status : IoStatus) :
    (o : Op) → (o.Ret → Code Unit) → Option State
  | .readMessage peer maxPayload t, k =>
      match run.act with
      | .reading r =>
          some (s.setRun j (run.goOn (.readMessage peer maxPayload t) (k (r.stop status))))
      | _ => none
  | o, k =>
      match run.act with
      | .writing _ => (wrote o status).map (fun r => s.setRun j (run.goOn o (k r)))
      | _ => none

/-- `borrow` or `release` of a pool returns to a run. -/
def State.resume (s : State) (j : Nat) (run : Run) (o : Op) (k : o.Ret → Code Unit) :
    Option State :=
  match run.act with
  | .borrowing i c =>
      match s.caller i c with
      | some (.held fd) =>
          (borrowed i o (some fd)).map (fun r =>
            s.setRun j { run.goOn o (k r) with ticket := some (i, c) })
      | some (.failed _) => (borrowed i o none).map (fun r => s.setRun j (run.goOn o (k r)))
      | _ => none
  | .releasing i c =>
      match s.caller i c with
      | some .released => (released o).map (fun r => s.setRun j (run.goOn o (k r)))
      | _ => none
  | _ => none

/-! ## Pings -/

/-- `health_ping_` returns. -/
def State.pingDone (s : State) (i : Nat) (ok : Bool) : Option State :=
  (s.poolStep i (.ping ok)).map (fun s' => s'.setPing i .start)

/-- The connection that the reaper of a pool is pinging. -/
def Backend.pinged (b : Backend) : Option Nat :=
  match b.pool.reaper with
  | .pinging (slot :: _) _ _ => some slot.fd
  | _ => none

/-- A `send` of a ping returns. -/
def State.pingSend (s : State) (i n : Nat) : Option State :=
  match s.backends[i]? with
  | some b =>
      match b.ping, b.pinged.bind s.table with
      | .writing w, some file =>
          if n ≤ w.need [] then
            let s' := s.sendTo false (w.chunk [] n) file
            match w.send [] n with
            | .inl w' => some (s'.setPing i (.writing w'))
            | .inr _ => some (s'.setPing i (.reading .start))
          else none
      | _, _ => none
  | none => none

/-- A `recv` of a ping returns. -/
def State.pingRecv (s : State) (i : Nat) (bytes : List UInt8) : Option State :=
  match s.backends[i]? with
  | some b =>
      match b.ping, b.pinged.bind s.table with
      | .reading r, some file =>
          if bytes ≠ [] ∧ bytes.length ≤ r.need then
            (s.recvFrom bytes file).bind (fun s' =>
              match r.recv kDefaultMaxPayload bytes with
              | .inl r' => some (s'.setPing i (.reading r'))
              | .inr (status, reply) => s'.pingDone i (status = .kOk && reply.isEmpty))
          else none
      | _, _ => none
  | none => none

/-! ## The machine -/

/-- Which `handle_one`. -/
inductive Overload where
  | pool (i : Nat)
  | set

def Overload.run (opts : HandlerOptions) (fd : Nat) : Overload → Run
  | .pool i => { fd := fd, pool := i, rest := handleOnePool opts }
  | .set => { fd := fd, pool := 0, rest := handleOneSet opts }

inductive Event where
  | clock (ms : Nat)
  /-- Another part of the process opens a file, or closes one of its own. -/
  | foreignOpen (fd : Nat)
  | foreignClose (fd : Nat)
  /-- The backend of pool `i` sends bytes on a connection. -/
  | answer (i n : Nat) (bytes : List UInt8)
  /-- A step of the threads of pool `i`. -/
  | pool (i : Nat) (e : BackendPool.Event)
  | pingSend (i n : Nat)
  | pingRecv (i : Nat) (bytes : List UInt8)
  | pingStop (i : Nat) (status : IoStatus)
  /-- A client is accepted and given to a run. -/
  | accept (fd : Nat) (overload : Overload) (opts : HandlerOptions)
  | call (j : Nat)
  | handshake (j : Nat) (ok : Bool)
  | pick (j i : Nat)
  | recv (j : Nat) (bytes : List UInt8)
  | send (j n : Nat)
  | stop (j : Nat) (status : IoStatus)
  | resume (j : Nat)

/-- The steps that the threads of a pool take by themselves. -/
def isInternal : BackendPool.Event → Bool
  | .borrow => false
  | e => e.tame

/-- A step of run `j`, which is about to make a call or in the middle of it. -/
def State.runStep (s : State) (j : Nat)
    (f : Run → (o : Op) → (o.Ret → Code Unit) → Option State) : Option State :=
  match s.runs[j]? with
  | some run =>
      match run.rest with
      | .call o k => f run o k
      | .pure _ => none
  | none => none

def step (R : Service) (s : State) : Event → Option State
  | .clock ms => some { s with now := s.now + ms }
  | .foreignOpen fd =>
      match s.table fd with
      | none => some { s with table := Function.update s.table fd (some .other) }
      | some _ => none
  | .foreignClose fd =>
      match s.table fd with
      | some .other => some (s.closeFd fd)
      | _ => none
  | .answer i n bytes =>
      match s.backends[i]? with
      | some b => ((b.conns n).answer R bytes).map (s.setConn i b n)
      | none => none
  | .pool i e => if isInternal e = true then s.poolStep i e else none
  | .pingSend i n => s.pingSend i n
  | .pingRecv i bytes => s.pingRecv i bytes
  | .pingStop i status => if status.givesUp = true then s.pingDone i false else none
  | .accept fd overload opts =>
      match s.table fd with
      | none =>
          some { s with
            table := Function.update s.table fd (some (.client s.clients.length))
            clients := s.clients ++ [{}]
            runs := s.runs ++ [overload.run opts fd] }
      | some _ => none
  | .call j =>
      s.runStep j (fun run o k =>
        match run.act with
        | .idle => s.call j run o k
        | _ => none)
  | .handshake j ok =>
      s.runStep j (fun run o k =>
        match run.act with
        | .idle => s.handshake j run ok o k
        | _ => none)
  | .pick j i =>
      s.runStep j (fun run o _ =>
        match run.act with
        | .idle => s.pick j run i o
        | _ => none)
  | .recv j bytes =>
      s.runStep j (fun run o k =>
        match run.act with
        | .reading r => s.recv j run r bytes o k
        | _ => none)
  | .send j n =>
      s.runStep j (fun run o k =>
        match run.act with
        | .writing w => s.send j run w n o k
        | _ => none)
  | .stop j status =>
      s.runStep j (fun run o k => if status.givesUp = true then s.stop j run status o k else none)
  | .resume j => s.runStep j (fun run o k => s.resume j run o k)

/-- A process with a pool for each of the given options. -/
def machine (R : Service) (opts : List BackendPool.Options) : Machine State Event where
  init := { backends := opts.map (fun o => { opts := o }) }
  step := step R

/-! ## What a step can do -/

/-- The calls that only count. -/
def isCounter : Op → Bool
  | .incInFlight | .decInFlight | .incCompleted | .incErrored => true
  | _ => false

/-- The calls that close the client's descriptor. -/
def closesClient : Op → Bool
  | .safeClose | .closeStream => true
  | _ => false

/-- The pool that a call borrows from: the overload's own, or any. -/
def BorrowsFrom (run : Run) (i : Nat) : Op → Prop
  | .poolBorrow => i = run.pool
  | .setBorrow => True
  | _ => False

/-- What a call releases: the pool, the descriptor and `ok`. -/
def releases (run : Run) : Op → Option (Nat × Int × Bool)
  | .poolRelease fd ok => some (run.pool, fd, ok)
  | .setRelease h ok => some (h.poolIndex, h.fd, ok)
  | _ => none

/-- The state after `release` of pool `i` has begun. -/
def State.giveBack (s : State) (j : Nat) (run : Run) (i : Nat) (b : Backend) (c : Nat) (fd : Int)
    (ok : Bool) : State :=
  { s with
    backends := s.backends.set i { b with
      pool := { b.pool with callers := b.pool.callers.set c (.releasing fd.toNat ok) } }
    runs := s.runs.set j { run with act := .releasing i c, ticket := none } }

/-- Every way in which the state changes, with the guard of the step. -/
inductive Step (R : Service) (s : State) : State → Prop where
  | clock (ms : Nat) : Step R s { s with now := s.now + ms }
  | foreignOpen {fd : Nat} : s.table fd = none →
      Step R s { s with table := Function.update s.table fd (some .other) }
  | foreignClose {fd : Nat} : s.table fd = some .other → Step R s (s.closeFd fd)
  | answer {i n : Nat} {b : Backend} {bytes : List UInt8} {c : Stream} :
      s.backends[i]? = some b → (b.conns n).answer R bytes = some c →
      Step R s (s.setConn i b n c)
  | pool {i : Nat} {b : Backend} {e : BackendPool.Event} {v : BackendPool.State} :
      s.backends[i]? = some b → e.tame = true →
      BackendPool.Step b.opts.normalise (s.view i b) e v → Step R s (s.putPool i b v)
  | pingSendMore {i n fd : Nat} {b : Backend} {w w' : Writing} {file : File} :
      s.backends[i]? = some b → b.ping = .writing w → b.pinged = some fd →
      s.table fd = some file → n ≤ w.need [] → w.send [] n = .inl w' →
      Step R s ((s.sendTo false (w.chunk [] n) file).setPing i (.writing w'))
  | pingSendDone {i n fd : Nat} {b : Backend} {w : Writing} {file : File} {status : IoStatus} :
      s.backends[i]? = some b → b.ping = .writing w → b.pinged = some fd →
      s.table fd = some file → n ≤ w.need [] → w.send [] n = .inr status →
      Step R s ((s.sendTo false (w.chunk [] n) file).setPing i (.reading .start))
  | pingRecvMore {i fd : Nat} {b : Backend} {r r' : Reading} {file : File} {bytes : List UInt8}
      {s₁ : State} : s.backends[i]? = some b → b.ping = .reading r → b.pinged = some fd →
      s.table fd = some file → bytes.length ≤ r.need → s.recvFrom bytes file = some s₁ →
      r.recv kDefaultMaxPayload bytes = .inl r' → Step R s (s₁.setPing i (.reading r'))
  | pingRecvDone {i fd : Nat} {b : Backend} {r : Reading} {file : File} {bytes reply : List UInt8}
      {status : IoStatus} {s₁ s₂ : State} : s.backends[i]? = some b → b.ping = .reading r →
      b.pinged = some fd → s.table fd = some file → bytes.length ≤ r.need →
      s.recvFrom bytes file = some s₁ → r.recv kDefaultMaxPayload bytes = .inr (status, reply) →
      s₁.poolStep i (.ping (status = .kOk && reply.isEmpty)) = some s₂ →
      Step R s (s₂.setPing i .start)
  | pingStop {i : Nat} {s₁ : State} : s.poolStep i (.ping false) = some s₁ →
      Step R s (s₁.setPing i .start)
  | accept {fd : Nat} (overload : Overload) (opts : HandlerOptions) : s.table fd = none →
      Step R s { s with
        table := Function.update s.table fd (some (.client s.clients.length))
        clients := s.clients ++ [{}], runs := s.runs ++ [overload.run opts fd] }
  | count {j : Nat} {run : Run} {o : Op} {k : o.Ret → Code Unit} (r : o.Ret) :
      s.runs[j]? = some run → run.rest = .call o k → run.act = .idle → isCounter o = true →
      Step R s (s.setRun j (run.goOn o (k r)))
  | close {j : Nat} {run : Run} {o : Op} {k : o.Ret → Code Unit} (r : o.Ret) :
      s.runs[j]? = some run → run.rest = .call o k → run.act = .idle → closesClient o = true →
      Step R s ((s.closeFd run.fd).setRun j (run.goOn o (k r)))
  | handshake {j : Nat} {run : Run} {t : Int} {k : Bool → Code Unit} : s.runs[j]? = some run →
      run.rest = .call (.acceptHandshake t) k → run.act = .idle →
      Step R s (s.setRun j (run.goOn (.acceptHandshake t) (k true)))
  | handshakeFailed {j : Nat} {run : Run} {t : Int} {k : Bool → Code Unit} :
      s.runs[j]? = some run → run.rest = .call (.acceptHandshake t) k → run.act = .idle →
      Step R s ((s.closeFd run.fd).setRun j (run.goOn (.acceptHandshake t) (k false)))
  | startRead {j maxPayload : Nat} {run : Run} {peer : Peer} {t : Int}
      {k : IoStatus × List UInt8 → Code Unit} : s.runs[j]? = some run →
      run.rest = .call (.readMessage peer maxPayload t) k → run.act = .idle →
      Step R s (s.setRun j { run with act := .reading .start })
  | startWrite {j : Nat} {run : Run} {o : Op} {k : o.Ret → Code Unit} {m : Message} {w : Writing} :
      s.runs[j]? = some run → run.rest = .call o k → run.act = .idle → message o = some m →
      Writing.start m.data = .inl w → Step R s (s.setRun j { run with act := .writing w })
  | oversize {j : Nat} {run : Run} {o : Op} {k : o.Ret → Code Unit} {m : Message}
      {status : IoStatus} {r : o.Ret} : s.runs[j]? = some run → run.rest = .call o k →
      run.act = .idle → message o = some m → Writing.start m.data = .inr status →
      wrote o status = some r → Step R s (s.setRun j (run.goOn o (k r)))
  | borrow {i j : Nat} {run : Run} {o : Op} {k : o.Ret → Code Unit} {b : Backend} {s₁ : State} :
      s.runs[j]? = some run → run.rest = .call o k → run.act = .idle → BorrowsFrom run i o →
      s.backends[i]? = some b → s.poolStep i .borrow = some s₁ →
      Step R s (s₁.setRun j { run with act := .borrowing i b.pool.callers.length })
  | noPools {j : Nat} {run : Run} {k : Handle → Code Unit} : s.runs[j]? = some run →
      run.rest = .call .setBorrow k → run.act = .idle →
      Step R s (s.setRun j (run.goOn .setBorrow (k { fd := -1, poolIndex := 0 })))
  | releaseNothing {i j : Nat} {run : Run} {o : Op} {k : o.Ret → Code Unit} {fd : Int} {ok : Bool}
      (r : o.Ret) : s.runs[j]? = some run → run.rest = .call o k → run.act = .idle →
      releases run o = some (i, fd, ok) → fd < 0 ∨ s.backends.length ≤ i →
      Step R s (s.setRun j (run.goOn o (k r)))
  | release {i j c : Nat} {run : Run} {o : Op} {k : o.Ret → Code Unit} {b : Backend} {fd : Int}
      {ok : Bool} : s.runs[j]? = some run → run.rest = .call o k → run.act = .idle →
      releases run o = some (i, fd, ok) → s.backends[i]? = some b → run.ticket = some (i, c) →
      Step R s (s.giveBack j run i b c fd ok)
  | recvMore {j maxPayload : Nat} {run : Run} {peer : Peer} {t : Int} {r r' : Reading}
      {k : IoStatus × List UInt8 → Code Unit} {file : File} {bytes : List UInt8} {s₁ : State} :
      s.runs[j]? = some run → run.rest = .call (.readMessage peer maxPayload t) k →
      run.act = .reading r → s.peerFile run peer = some file → bytes.length ≤ r.need →
      s.recvFrom bytes file = some s₁ → r.recv maxPayload bytes = .inl r' →
      Step R s (s₁.setRun j { run with act := .reading r' })
  | recvDone {j maxPayload : Nat} {run : Run} {peer : Peer} {t : Int} {r : Reading}
      {k : IoStatus × List UInt8 → Code Unit} {file : File} {bytes : List UInt8} {s₁ : State}
      {out : IoStatus × List UInt8} : s.runs[j]? = some run →
      run.rest = .call (.readMessage peer maxPayload t) k → run.act = .reading r →
      s.peerFile run peer = some file → bytes.length ≤ r.need → s.recvFrom bytes file = some s₁ →
      r.recv maxPayload bytes = .inr out →
      Step R s (s₁.setRun j (run.goOn (.readMessage peer maxPayload t) (k out)))
  | sendMore {j n : Nat} {run : Run} {o : Op} {k : o.Ret → Code Unit} {m : Message}
      {w w' : Writing} {file : File} : s.runs[j]? = some run → run.rest = .call o k →
      run.act = .writing w → message o = some m → s.peerFile run m.peer = some file →
      n ≤ w.need m.data → w.send m.data n = .inl w' →
      Step R s ((s.sendTo m.isResponse (w.chunk m.data n) file).setRun j
        { run with act := .writing w' })
  | sendDone {j n : Nat} {run : Run} {o : Op} {k : o.Ret → Code Unit} {m : Message} {w : Writing}
      {file : File} {status : IoStatus} {r : o.Ret} : s.runs[j]? = some run →
      run.rest = .call o k → run.act = .writing w → message o = some m →
      s.peerFile run m.peer = some file → n ≤ w.need m.data → w.send m.data n = .inr status →
      wrote o status = some r →
      Step R s ((s.sendTo m.isResponse (w.chunk m.data n) file).setRun j (run.goOn o (k r)))
  | stopRead {j maxPayload : Nat} {run : Run} {peer : Peer} {t : Int} {r : Reading}
      {k : IoStatus × List UInt8 → Code Unit} {status : IoStatus} : s.runs[j]? = some run →
      run.rest = .call (.readMessage peer maxPayload t) k → run.act = .reading r →
      status.givesUp = true →
      Step R s (s.setRun j (run.goOn (.readMessage peer maxPayload t) (k (r.stop status))))
  | stopWrite {j : Nat} {run : Run} {o : Op} {k : o.Ret → Code Unit} {w : Writing}
      {status : IoStatus} {r : o.Ret} : s.runs[j]? = some run → run.rest = .call o k →
      run.act = .writing w → status.givesUp = true → wrote o status = some r →
      Step R s (s.setRun j (run.goOn o (k r)))
  | borrowed {i j c fd : Nat} {run : Run} {o : Op} {k : o.Ret → Code Unit} {r : o.Ret} :
      s.runs[j]? = some run → run.rest = .call o k → run.act = .borrowing i c →
      s.caller i c = some (.held fd) → borrowed i o (some fd) = some r →
      Step R s (s.setRun j { run.goOn o (k r) with ticket := some (i, c) })
  | borrowFailed {i j c : Nat} {run : Run} {o : Op} {k : o.Ret → Code Unit} {r : o.Ret} :
      s.runs[j]? = some run → run.rest = .call o k → run.act = .borrowing i c →
      borrowed i o none = some r → Step R s (s.setRun j (run.goOn o (k r)))
  | released {i j c : Nat} {run : Run} {o : Op} {k : o.Ret → Code Unit} {r : o.Ret} :
      s.runs[j]? = some run → run.rest = .call o k → run.act = .releasing i c →
      released o = some r → Step R s (s.setRun j (run.goOn o (k r)))

variable {R : Service} {s s' : State} {j : Nat} {run : Run} {o : Op} {k : o.Ret → Code Unit}

theorem runStep_cases {f : Run → (o : Op) → (o.Ret → Code Unit) → Option State}
    (h : s.runStep j f = some s') :
    ∃ run o k, s.runs[j]? = some run ∧ run.rest = .call o k ∧ f run o k = some s' := by
  simp only [State.runStep] at h
  split at h
  next run hj =>
    split at h
    next o k hrest => exact ⟨run, o, k, hj, hrest, h⟩
    next => cases h
  next => cases h

theorem startWrite_cases (hj : s.runs[j]? = some run) (hrest : run.rest = .call o k)
    (hact : run.act = .idle) (h : s.startWrite j run o k = some s') : Step R s s' := by
  simp only [State.startWrite] at h
  split at h
  next m hm =>
    split at h
    next w hw =>
      cases h
      exact .startWrite hj hrest hact hm hw
    next status hw =>
      obtain ⟨r, hr, rfl⟩ := Option.map_eq_some_iff.mp h
      exact .oversize hj hrest hact hm hw hr
  next => cases h

theorem borrow_cases {i : Nat} (hj : s.runs[j]? = some run) (hrest : run.rest = .call o k)
    (hact : run.act = .idle) (ho : BorrowsFrom run i o) (h : s.borrow j run i = some s') :
    Step R s s' := by
  simp only [State.borrow] at h
  split at h
  next b hb =>
    obtain ⟨s₁, hs₁, rfl⟩ := Option.map_eq_some_iff.mp h
    exact .borrow hj hrest hact ho hb hs₁
  next => cases h

theorem release_cases {i : Nat} {fd : Int} {ok : Bool} (hj : s.runs[j]? = some run)
    (hrest : run.rest = .call o k) (hact : run.act = .idle)
    (ho : releases run o = some (i, fd, ok)) (h : s.release j run i fd ok = some s') :
    Step R s s' := by
  simp only [State.release] at h
  split at h
  next b i' c hb hticket =>
    split at h
    next heq =>
      subst heq
      cases h
      exact .release hj hrest hact ho hb hticket
    next => cases h
  next => cases h

theorem call_cases (hj : s.runs[j]? = some run) (hrest : run.rest = .call o k)
    (hact : run.act = .idle) (h : s.call j run o k = some s') : Step R s s' := by
  cases o with
  | incInFlight | decInFlight | incCompleted | incErrored =>
      cases h
      exact .count () hj hrest hact rfl
  | safeClose | closeStream =>
      cases h
      exact .close () hj hrest hact rfl
  | readMessage peer maxPayload t =>
      cases h
      exact .startRead hj hrest hact
  | writeMessage | replyErrorPlain | replyErrorTls => exact startWrite_cases hj hrest hact h
  | poolBorrow => exact borrow_cases hj hrest hact rfl h
  | setBorrow =>
      simp only [State.call] at h
      split at h
      next =>
        cases h
        exact .noPools hj hrest hact
      next => cases h
  | poolRelease fd ok =>
      simp only [State.call] at h
      split at h
      next hfd =>
        cases h
        exact .releaseNothing () hj hrest hact rfl (.inl hfd)
      next => exact release_cases hj hrest hact rfl h
  | setRelease handle ok =>
      simp only [State.call] at h
      split at h
      next hfd =>
        cases h
        exact .releaseNothing () hj hrest hact rfl hfd
      next => exact release_cases hj hrest hact rfl h
  | acceptHandshake => cases h

theorem handshake_cases {ok : Bool} (hj : s.runs[j]? = some run) (hrest : run.rest = .call o k)
    (hact : run.act = .idle) (h : s.handshake j run ok o k = some s') : Step R s s' := by
  cases o with
  | acceptHandshake t =>
      cases ok with
      | true =>
          cases h
          exact .handshake hj hrest hact
      | false =>
          cases h
          exact .handshakeFailed hj hrest hact
  | _ => cases h

theorem recv_cases {r : Reading} {bytes : List UInt8} (hj : s.runs[j]? = some run)
    (hrest : run.rest = .call o k) (hact : run.act = .reading r)
    (h : s.recv j run r bytes o k = some s') : Step R s s' := by
  cases o with
  | readMessage peer maxPayload t =>
      simp only [State.recv] at h
      split at h
      next file hfile =>
        split at h
        next hguard =>
          obtain ⟨s₁, hs₁, rfl⟩ := Option.map_eq_some_iff.mp h
          split
          next r' hr => exact .recvMore hj hrest hact hfile hguard.2 hs₁ hr
          next out hr => exact .recvDone hj hrest hact hfile hguard.2 hs₁ hr
        next => cases h
      next => cases h
  | _ => cases h

theorem send_cases {w : Writing} {n : Nat} (hj : s.runs[j]? = some run)
    (hrest : run.rest = .call o k) (hact : run.act = .writing w)
    (h : s.send j run w n o k = some s') : Step R s s' := by
  simp only [State.send] at h
  split at h
  next m hm =>
    split at h
    next file hfile =>
      split at h
      next hn =>
        split at h
        next w' hw =>
          cases h
          exact .sendMore hj hrest hact hm hfile hn hw
        next status hw =>
          obtain ⟨r, hr, rfl⟩ := Option.map_eq_some_iff.mp h
          exact .sendDone hj hrest hact hm hfile hn hw hr
      next => cases h
    next => cases h
  next => cases h

theorem stop_cases {status : IoStatus} (hj : s.runs[j]? = some run)
    (hrest : run.rest = .call o k) (hstatus : status.givesUp = true)
    (h : s.stop j run status o k = some s') : Step R s s' := by
  simp only [State.stop] at h
  split at h
  next peer maxPayload t k =>
    split at h
    next r hact =>
      cases h
      exact .stopRead hj hrest hact hstatus
    next => cases h
  next =>
    split at h
    next w hact =>
      obtain ⟨r, hr, rfl⟩ := Option.map_eq_some_iff.mp h
      exact .stopWrite hj hrest hact hstatus hr
    next => cases h

theorem resume_cases (hj : s.runs[j]? = some run) (hrest : run.rest = .call o k)
    (h : s.resume j run o k = some s') : Step R s s' := by
  simp only [State.resume] at h
  split at h
  next i c hact =>
    split at h
    next fd hc =>
      obtain ⟨r, hr, rfl⟩ := Option.map_eq_some_iff.mp h
      exact .borrowed hj hrest hact hc hr
    next =>
      obtain ⟨r, hr, rfl⟩ := Option.map_eq_some_iff.mp h
      exact .borrowFailed hj hrest hact hr
    next => cases h
  next i c hact =>
    split at h
    next =>
      obtain ⟨r, hr, rfl⟩ := Option.map_eq_some_iff.mp h
      exact .released hj hrest hact hr
    next => cases h
  next => cases h

theorem pingSend_cases {i n : Nat} (h : s.pingSend i n = some s') : Step R s s' := by
  simp only [State.pingSend] at h
  split at h
  next b hb =>
    split at h
    next w file hw hfile =>
      obtain ⟨fd, hfd, htable⟩ := Option.bind_eq_some_iff.mp hfile
      split at h
      next hn =>
        split at h
        next w' hsend =>
          cases h
          exact .pingSendMore hb hw hfd htable hn hsend
        next status hsend =>
          cases h
          exact .pingSendDone hb hw hfd htable hn hsend
      next => cases h
    next => cases h
  next => cases h

theorem pingRecv_cases {i : Nat} {bytes : List UInt8} (h : s.pingRecv i bytes = some s') :
    Step R s s' := by
  simp only [State.pingRecv] at h
  split at h
  next b hb =>
    split at h
    next r file hr hfile =>
      obtain ⟨fd, hfd, htable⟩ := Option.bind_eq_some_iff.mp hfile
      split at h
      next hguard =>
        obtain ⟨s₁, hs₁, hrest⟩ := Option.bind_eq_some_iff.mp h
        split at hrest
        next r' hrecv =>
          cases hrest
          exact .pingRecvMore hb hr hfd htable hguard.2 hs₁ hrecv
        next status reply hrecv =>
          obtain ⟨s₂, hs₂, rfl⟩ := Option.map_eq_some_iff.mp hrest
          exact .pingRecvDone hb hr hfd htable hguard.2 hs₁ hrecv hs₂
      next => cases h
    next => cases h
  next => cases h

theorem poolStep_cases {i : Nat} {e : BackendPool.Event} (h : s.poolStep i e = some s') :
    ∃ b v, s.backends[i]? = some b ∧ BackendPool.Step b.opts.normalise (s.view i b) e v ∧
      s' = s.putPool i b v := by
  simp only [State.poolStep] at h
  split at h
  next b hb =>
    obtain ⟨v, hv, rfl⟩ := Option.map_eq_some_iff.mp h
    exact ⟨b, v, hb, BackendPool.step_cases hv, rfl⟩
  next => cases h

/-- The inversion of a step. -/
theorem step_cases {e : Event} (h : step R s e = some s') : Step R s s' := by
  cases e with
  | clock ms =>
      cases h
      exact .clock ms
  | foreignOpen fd =>
      simp only [step] at h
      split at h
      next hfree =>
        cases h
        exact .foreignOpen hfree
      next => cases h
  | foreignClose fd =>
      simp only [step] at h
      split at h
      next hother =>
        cases h
        exact .foreignClose hother
      next => cases h
  | answer i n bytes =>
      simp only [step] at h
      split at h
      next b hb =>
        obtain ⟨c, hc, rfl⟩ := Option.map_eq_some_iff.mp h
        exact .answer hb hc
      next => cases h
  | pool i e =>
      simp only [step] at h
      split at h
      next hinternal =>
        obtain ⟨b, v, hb, hv, rfl⟩ := poolStep_cases h
        refine .pool hb ?_ hv
        cases e <;> first | exact hinternal | rfl
      next => cases h
  | pingSend i n => exact pingSend_cases h
  | pingRecv i bytes => exact pingRecv_cases h
  | pingStop i status =>
      simp only [step] at h
      split at h
      next =>
        obtain ⟨s₁, hs₁, rfl⟩ := Option.map_eq_some_iff.mp h
        exact .pingStop hs₁
      next => cases h
  | accept fd overload opts =>
      simp only [step] at h
      split at h
      next hfree =>
        cases h
        exact .accept overload opts hfree
      next => cases h
  | call j =>
      obtain ⟨run, o, k, hj, hrest, hf⟩ := runStep_cases h
      split at hf
      next hact => exact call_cases hj hrest hact hf
      next => cases hf
  | handshake j ok =>
      obtain ⟨run, o, k, hj, hrest, hf⟩ := runStep_cases h
      split at hf
      next hact => exact handshake_cases hj hrest hact hf
      next => cases hf
  | pick j i =>
      obtain ⟨run, o, k, hj, hrest, hf⟩ := runStep_cases h
      split at hf
      next hact =>
        cases o with
        | setBorrow => exact borrow_cases hj hrest hact trivial hf
        | _ => cases hf
      next => cases hf
  | recv j bytes =>
      obtain ⟨run, o, k, hj, hrest, hf⟩ := runStep_cases h
      split at hf
      next r hact => exact recv_cases hj hrest hact hf
      next => cases hf
  | send j n =>
      obtain ⟨run, o, k, hj, hrest, hf⟩ := runStep_cases h
      split at hf
      next w hact => exact send_cases hj hrest hact hf
      next => cases hf
  | stop j status =>
      obtain ⟨run, o, k, hj, hrest, hf⟩ := runStep_cases h
      split at hf
      next hstatus => exact stop_cases hj hrest hstatus hf
      next => cases hf
  | resume j =>
      obtain ⟨run, o, k, hj, hrest, hf⟩ := runStep_cases h
      exact resume_cases hj hrest hf

end InferenceRouter.Relay
