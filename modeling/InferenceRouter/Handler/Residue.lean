import InferenceRouter.Handler.Overloads
import InferenceRouter.Interleaving.Throwing

/-!
# A request whose buffer cannot be allocated

`read_message` resizes its buffer to the length that the peer declares, and `resize` may
throw.  `handle_one` catches nothing, and its clean-up is written before each `return`, so
none of it runs.  `worker_main` catches everything and takes the next task.

A run is *booked* along the calls it makes: the counters, the descriptor of the client and
the loan.  `duties` is the protocol of these calls.  It lets a run return only when it is
through with all of them, and read only when it is through with none.  So every run that
returns leaves nothing behind, and every run that throws does.

The loan shows in `in_use_` of the pool and in `in_flight_` of the set.  `in_use_` is the
number of the pool's callers that hold a lease, and the caller of a run that has ended
should not be among them.
-/

namespace InferenceRouter.Connection

/-! ## Reading into a buffer that may not be there -/

/-- The argument of the `resize` between two turns of a call of `read_message`. -/
def Reading.resized : Reading → Reading → Option Nat
  | .header _, .payload len _ => some len
  | _, _ => none

/-- `Reading.loop` where `resize(len)` throws unless `alloc len`.  A call that throws has
no result, and what it received is lost with its buffer. -/
def Reading.attempt (maxPayload : Nat) (alloc : Nat → Bool) :
    Reading → List (Option (Outcome (List UInt8))) →
      Option (Option (IoStatus × List UInt8) × List (List UInt8))
  | _, [] | _, none :: _ => none
  | r, some o :: turns =>
      let piece := if o.chunk = [] then [] else [o.chunk]
      match r.turn maxPayload o with
      | none => none
      | some (.inr result) => some (some result, piece)
      | some (.inl r') =>
          if (r.resized r').all alloc = true then
            match r'.attempt maxPayload alloc turns with
            | none => none
            | some (result, pieces) => some (result, piece ++ pieces)
          else some (none, piece)

section Attempt

variable {maxPayload : Nat} {alloc : Nat → Bool} {r : Reading}
  {turns : List (Option (Outcome (List UInt8)))} {pieces : List (List UInt8)}

theorem Reading.attempt_returned {result : IoStatus × List UInt8}
    (h : r.attempt maxPayload alloc turns = some (some result, pieces)) :
    r.loop maxPayload turns = some (result, pieces) := by
  induction turns generalizing r pieces with
  | nil => cases h
  | cons turn turns ih =>
      cases turn with
      | none => cases h
      | some o =>
          simp only [Reading.attempt] at h
          split at h
          next => cases h
          next result' hturn =>
            cases h
            simp only [Reading.loop, hturn]
          next r' hturn =>
            split at h
            next =>
              split at h
              next => cases h
              next result' pieces' hrest =>
                cases h
                simp only [Reading.loop, hturn, ih hrest]
            next => cases h

/-- Only an allocation throws. -/
theorem Reading.attempt_threw (h : r.attempt maxPayload alloc turns = some (none, pieces)) :
    ∃ len, alloc len = false := by
  induction turns generalizing r pieces with
  | nil => cases h
  | cons turn turns ih =>
      cases turn with
      | none => cases h
      | some o =>
          simp only [Reading.attempt] at h
          split at h
          next => cases h
          next => cases h
          next r' hturn =>
            split at h
            next =>
              split at h
              next => cases h
              next result pieces' hrest =>
                cases h
                exact ih hrest
            next hall =>
              cases hlen : r.resized r' with
              | none => simp [hlen] at hall
              | some len => exact ⟨len, by simpa [hlen] using hall⟩

end Attempt

end InferenceRouter.Connection

namespace InferenceRouter.Handler

open Interleaving Connection Router

variable {β : Type}

/-- The turns of the next `read_message`. -/
def World.nextRead (w : World β) (timeoutMs : Int) :
    Peer → Option (List (Option (Outcome (List UInt8))) × World β)
  | .client =>
      match w.reads with
      | .plain turns :: rest =>
          some (turns.map (ReadTurn.outcome timeoutMs), { w with reads := rest })
      | _ => none
  | .clientTls =>
      match w.reads with
      | .tls turns :: rest => some (turns.map (pumpSsl timeoutMs), { w with reads := rest })
      | _ => none
  | .backend _ =>
      match w.backendReads with
      | turns :: rest =>
          some (turns.map (ReadTurn.outcome timeoutMs), { w with backendReads := rest })
      | [] => none

/-- `World.readMessage`, with allocations that may throw. -/
def World.attemptRead (alloc : Peer → Nat → Bool) (w : World β) (peer : Peer) (maxPayload : Nat)
    (timeoutMs : Int) : Option (Ending (IoStatus × List UInt8) Act (World β)) :=
  match w.nextRead timeoutMs peer with
  | none => none
  | some (turns, w') =>
      match Reading.start.attempt maxPayload (alloc peer) turns with
      | none => none
      | some (some result, pieces) =>
          some (.returned result (readActs peer.end result pieces) w')
      | some (none, pieces) =>
          some (.threw (.reading peer.end :: pieces.map (.received peer.end)) w')

/-- The answers to the calls of the handler, with allocations that may throw. -/
def World.attempt (alloc : Peer → Nat → Bool) (L : Lender β) :
    ThrowingEnv Op Op.Ret Act (World β)
  | .readMessage peer maxPayload timeoutMs, w => w.attemptRead alloc peer maxPayload timeoutMs
  | o, w => (World.answer L o w).map (fun x => .returned x.1 x.2.1 x.2.2)

section Attempt

variable {alloc : Peer → Nat → Bool} {L : Lender β} {w w' : World β} {acts : List Act}

theorem World.nextRead_returned {peer : Peer} {timeoutMs : Int}
    {turns : List (Option (Outcome (List UInt8)))} {maxPayload : Nat}
    {result : IoStatus × List UInt8} {pieces : List (List UInt8)}
    (h : w.nextRead timeoutMs peer = some (turns, w'))
    (hloop : Reading.start.loop maxPayload turns = some (result, pieces)) :
    w.readMessage peer maxPayload timeoutMs =
      some (result, readActs peer.end result pieces, w') := by
  cases peer with
  | client | clientTls | backend =>
      simp only [World.nextRead] at h
      split at h
      next hreads =>
        cases h
        simp only [World.readMessage, hreads, hloop, Peer.end]
      next => cases h

theorem World.nextRead_lender {peer : Peer} {timeoutMs : Int}
    {turns : List (Option (Outcome (List UInt8)))}
    (h : w.nextRead timeoutMs peer = some (turns, w')) : w'.lender = w.lender := by
  simp only [World.nextRead] at h
  repeat' split at h
  all_goals cases h
  all_goals rfl

theorem World.attemptRead_cases {peer : Peer} {maxPayload : Nat} {timeoutMs : Int}
    {e : Ending (IoStatus × List UInt8) Act (World β)}
    (h : w.attemptRead alloc peer maxPayload timeoutMs = some e) :
    ∃ turns w' pieces, w.nextRead timeoutMs peer = some (turns, w') ∧
      ((∃ result, Reading.start.attempt maxPayload (alloc peer) turns = some (some result, pieces) ∧
          e = .returned result (readActs peer.end result pieces) w') ∨
        Reading.start.attempt maxPayload (alloc peer) turns = some (none, pieces) ∧
          e = .threw (.reading peer.end :: List.map (.received peer.end) pieces) w') := by
  simp only [World.attemptRead] at h
  split at h
  next => cases h
  next turns w₁ hnext =>
    split at h
    next => cases h
    next result pieces hread =>
      cases h
      exact ⟨turns, w₁, pieces, hnext, .inl ⟨result, hread, rfl⟩⟩
    next pieces hread =>
      cases h
      exact ⟨turns, w₁, pieces, hnext, .inr ⟨hread, rfl⟩⟩

/-- A call that returns is answered as if allocations did not throw. -/
theorem World.attempt_answer {o : Op} {r : o.Ret}
    (h : World.attempt alloc L o w = some (.returned r acts w')) :
    World.answer L o w = some (r, acts, w') := by
  cases o with
  | readMessage peer maxPayload timeoutMs =>
      obtain ⟨turns, w₁, pieces, hnext, ⟨result, hread, heq⟩ | ⟨-, heq⟩⟩ :=
        World.attemptRead_cases h
      · cases heq
        exact World.nextRead_returned hnext (Reading.attempt_returned hread)
      · cases heq
  | _ =>
      simp only [World.attempt, Option.map_eq_some_iff] at h
      obtain ⟨x, hx, heq⟩ := h
      cases heq
      exact hx

/-- What there is when a call throws. -/
theorem World.attempt_threw {o : Op} (h : World.attempt alloc L o w = some (.threw acts w')) :
    ∃ peer maxPayload timeoutMs pieces len, o = .readMessage peer maxPayload timeoutMs ∧
      alloc peer len = false ∧ w'.lender = w.lender ∧
      acts = .reading peer.end :: List.map (.received peer.end) pieces := by
  cases o with
  | readMessage peer maxPayload timeoutMs =>
      obtain ⟨turns, w₁, pieces, hnext, ⟨result, -, heq⟩ | ⟨hread, heq⟩⟩ :=
        World.attemptRead_cases h
      · cases heq
      · cases heq
        obtain ⟨len, hlen⟩ := Reading.attempt_threw hread
        have hlender := World.nextRead_lender hnext
        exact ⟨peer, maxPayload, timeoutMs, pieces, len, rfl, hlen, hlender, rfl⟩
  | _ =>
      simp only [World.attempt, Option.map_eq_some_iff] at h
      obtain ⟨x, -, heq⟩ := h
      cases heq

/-- A run that returns is a run of the handler without exceptions. -/
theorem attempt_run {p : Code Unit} {tr : List Act}
    (h : p.attempt (World.attempt alloc L) w = some (.returned () tr w')) :
    p.run (World.answer L) w = some ((), tr, w') :=
  Prog.attempt_returned (World.answer L) (fun _ _ _ _ _ => World.attempt_answer) h

end Attempt

/-! ## What a run has to see to -/

/-- The overloads of `handle_one`. -/
inductive Overload where
  | pool
  | set

def Overload.handleOne : Overload → HandlerOptions → Code Unit
  | .pool => handleOnePool
  | .set => handleOneSet

/-- What the overload keeps of a handle. -/
def Overload.keep : Overload → Handle → Handle
  | .pool, h => { fd := h.fd }
  | .set, h => h

/-- The connection of a run. -/
inductive Loan where
  | unasked
  | lent (h : Handle)
  /-- It was given back, or there was none to be had. -/
  | ended

/-- What a borrow makes of it. -/
def Loan.of (h : Handle) : Loan := if h.fd < 0 then .ended else .lent h

@[simp] theorem Loan.of_natCast (fd i : Nat) :
    Loan.of { fd := fd, poolIndex := i } = .lent { fd := fd, poolIndex := i } :=
  if_neg (Int.not_lt.mpr (Int.natCast_nonneg fd))

/-- What a run has seen to so far. -/
structure Account where
  tally : Tally := {}
  closed : Bool := false
  loan : Loan := .unasked

def Account.next (g : Account) : (o : Op) → o.Ret → Account
  | .acceptHandshake _, ok => { g with closed := g.closed || !ok }
  | .safeClose, _ | .closeStream, _ => { g with closed := true }
  | .poolBorrow, fd => { g with loan := .of { fd := fd } }
  | .setBorrow, h => { g with loan := .of h }
  | .poolRelease _ _, _ | .setRelease _ _, _ => { g with loan := .ended }
  | o, _ => { g with tally := g.tally.count o }

/-- A run reads only when it has entered, and before it counts itself, closes, or gives
the connection back. -/
def Account.allows (g : Account) : Overload → Op → Prop
  | _, .readMessage .. => g.tally = { entered := 1 } ∧ g.closed = false ∧ g.loan ≠ .ended
  | .pool, .poolBorrow | .set, .setBorrow => g.loan = .unasked
  | .pool, .poolRelease fd _ => g.loan = .lent { fd := fd }
  | .set, .setRelease h _ => g.loan = .lent h
  | _, .poolBorrow | _, .setBorrow | _, .poolRelease _ _ | _, .setRelease _ _ => False
  | _, _ => True

/-- The run is through with everything. -/
def Account.cleared (g : Account) : Prop :=
  g.tally.settled ∧ g.closed = true ∧ ∀ h, g.loan ≠ .lent h

def duties (v : Overload) : Protocol Op Op.Ret Account where
  allowed g := g.allows v
  next := Account.next
  final := Account.cleared

theorem handleOne_duties (v : Overload) (opts : HandlerOptions) :
    (v.handleOne opts).Follows (duties v) {} := by
  cases v with
  | pool =>
      simp +contextual [Overload.handleOne, handleOnePool, duties, Account.allows, Account.next,
        Account.cleared, Loan.of, Tally.count, Tally.settled]
  | set =>
      simp +contextual [Overload.handleOne, handleOneSet, duties, Account.allows, Account.next,
        Account.cleared, Loan.of, Tally.count, Tally.settled]

/-! ## Booking a run -/

/-- The counters after the updates of a tally. -/
def Tally.applied (g : Tally) (m : Metrics) : Metrics :=
  { m with
    inFlight := m.inFlight + g.present
    completed := m.completed + g.completed
    errored := m.errored + g.errored }

theorem Tally.applied_count (g : Tally) (m : Metrics) (o : Op) :
    (g.count o).applied m = (g.applied m).record o := by
  cases o with
  | incInFlight | decInFlight =>
      simp only [Tally.count, Tally.applied, Tally.present, Metrics.record, Metrics.mk.injEq,
        true_and]
      push_cast
      omega
  | incCompleted | incErrored => rfl
  | acceptHandshake | readMessage | writeMessage | replyErrorPlain | replyErrorTls | poolBorrow
  | poolRelease | setBorrow | setRelease | safeClose | closeStream => rfl

/-- What a trace shows of a loan. -/
def Loan.ShownBy (tr : List Act) : Loan → Prop
  | .unasked => borrows tr = [] ∧ releases tr = []
  | .lent h => borrows tr = [h] ∧ releases tr = [] ∧ 0 ≤ h.fd
  | .ended => ∀ h ∈ borrows tr, 0 ≤ h.fd → ∃ ok, (h, ok) ∈ releases tr

/-- The trace and the world of a run with the account `g`.  `K` is what the lender says of
the loan. -/
structure Booked (m : Metrics) (K : Loan → β → Prop) (g : Account) (tr : List Act) (w : World β) :
    Prop where
  metrics : metricsAfter m tr = g.tally.applied m
  closed : .closed ∈ tr ↔ g.closed = true
  loan : g.loan.ShownBy tr
  lender : K g.loan w.lender

/-- The lender keeps `K`, for a run that returns what the overload keeps of its handle. -/
structure Lender.Keeps (L : Lender β) (v : Overload) (K : Loan → β → Prop) : Prop where
  borrow : ∀ {b h b'}, K .unasked b → L.borrow b = some (h, b') → K (.of (v.keep h)) b'
  release : ∀ {b h ok b'}, K (.lent h) b → L.release b h ok = some b' → K .ended b'

/-- The acts concern neither the counters nor the close nor the loan. -/
structure Quiet (acts : List Act) : Prop where
  uncounted : ∀ o, Act.counted o ∉ acts
  unclosed : Act.closed ∉ acts
  borrows : borrows acts = []
  releases : releases acts = []

theorem quiet_readActs (e : End) (result : IoStatus × List UInt8) (pieces : List (List UInt8)) :
    Quiet (readActs e result pieces) := by
  constructor <;> simp

theorem quiet_writeActs (e : End) (data : List UInt8) (status : IoStatus)
    (pieces : List (List UInt8)) : Quiet (writeActs e data status pieces) := by
  constructor <;> simp

/-- A `read_message` that throws. -/
theorem quiet_reading (e : End) (pieces : List (List UInt8)) :
    Quiet (.reading e :: pieces.map (.received e)) := by
  constructor <;> simp [Handler.borrows, Handler.releases, List.filterMap_map]

theorem quiet_tls (calls : List TlsCall) : Quiet (calls.map .tls) := by
  constructor <;> simp

section Booked

variable {v : Overload} {m : Metrics} {K : Loan → β → Prop} {g : Account} {tr acts : List Act}
  {L : Lender β} {w w' : World β}

theorem Loan.ShownBy.quiet {loan : Loan} (h : loan.ShownBy tr) (hacts : Quiet acts) :
    loan.ShownBy (tr ++ acts) := by
  cases loan with
  | unasked => simpa [Loan.ShownBy, hacts.borrows, hacts.releases] using h
  | lent => simpa [Loan.ShownBy, hacts.borrows, hacts.releases] using h
  | ended => simpa [Loan.ShownBy, hacts.borrows, hacts.releases] using h

theorem Booked.quiet (h : Booked m K g tr w) (hacts : Quiet acts) (hw : w'.lender = w.lender) :
    Booked m K g (tr ++ acts) w' where
  metrics := by rw [metricsAfter_append, metricsAfter_eq _ hacts.uncounted, h.metrics]
  closed := by simpa [hacts.unclosed] using h.closed
  loan := h.loan.quiet hacts
  lender := by
    rw [hw]
    exact h.lender

theorem Booked.count (h : Booked m K g tr w) (o : Op) :
    Booked m K { g with tally := g.tally.count o } (tr ++ [.counted o]) w where
  metrics := by
    rw [metricsAfter_append, h.metrics, Tally.applied_count]
    rfl
  closed := by simpa using h.closed
  loan := by
    have hloan := h.loan
    cases hg : g.loan <;> simpa [Loan.ShownBy, hg] using hloan
  lender := h.lender

theorem Booked.close (h : Booked m K g tr w) :
    Booked m K { g with closed := true } (tr ++ [.closed]) w where
  metrics := by rw [metricsAfter_append, h.metrics]; rfl
  closed := by simp
  loan := by
    have hloan := h.loan
    cases hg : g.loan <;> simpa [Loan.ShownBy, hg] using hloan
  lender := h.lender

theorem Booked.borrow (h : Booked m K g tr w) (hL : L.Keeps v K) (hg : g.loan = .unasked)
    {handle : Handle} {b : β} (hborrow : L.borrow w.lender = some (handle, b)) :
    Booked m K { g with loan := .of (v.keep handle) } (tr ++ [.borrowed (v.keep handle)])
      { w with lender := b } where
  metrics := by rw [metricsAfter_append, h.metrics]; rfl
  closed := by simpa using h.closed
  loan := by
    obtain ⟨hb, hr⟩ : borrows tr = [] ∧ releases tr = [] := by simpa [hg, Loan.ShownBy] using h.loan
    by_cases hfd : (v.keep handle).fd < 0
    · simp [Loan.of, hfd, Loan.ShownBy, hb, hr]
    · simp [Loan.of, hfd, Loan.ShownBy, hb, hr, Int.not_lt.mp hfd]
  lender := by
    have hK := h.lender
    rw [hg] at hK
    exact hL.borrow hK hborrow

theorem Booked.release (h : Booked m K g tr w) (hL : L.Keeps v K) {handle : Handle} {ok : Bool}
    (hg : g.loan = .lent handle) {r : Unit} (hcall : w.release L handle ok = some (r, acts, w')) :
    Booked m K { g with loan := .ended } (tr ++ acts) w' := by
  simp only [World.release] at hcall
  split at hcall
  next b hrelease =>
    cases hcall
    constructor
    case metrics =>
      rw [metricsAfter_append, h.metrics]
      rfl
    case closed => simpa using h.closed
    case loan =>
      obtain ⟨hb, hr, -⟩ : borrows tr = [handle] ∧ releases tr = [] ∧ 0 ≤ handle.fd := by
        simpa [hg, Loan.ShownBy] using h.loan
      simp [Loan.ShownBy, hb, hr]
    case lender =>
      have hK := h.lender
      rw [hg] at hK
      exact hL.release hK hrelease
  next => cases hcall

/-- One call. -/
theorem Booked.step (h : Booked m K g tr w) (hL : L.Keeps v K) {o : Op} {r : o.Ret}
    (hallowed : g.allows v o) (hcall : World.answer L o w = some (r, acts, w')) :
    Booked m K (g.next o r) (tr ++ acts) w' := by
  cases o with
  | incInFlight | decInFlight | incCompleted | incErrored =>
      cases hcall
      exact h.count _
  | readMessage peer maxPayload timeoutMs =>
      obtain ⟨pieces, rfl⟩ := World.readMessage_acts hcall
      exact h.quiet (quiet_readActs ..) (World.readMessage_lender hcall)
  | writeMessage peer data timeoutMs =>
      obtain ⟨pieces, rfl, -, -⟩ := World.writeMessage_acts hcall
      exact h.quiet (quiet_writeActs ..) (World.writeMessage_lender hcall)
  | replyErrorPlain msg timeoutMs | replyErrorTls msg timeoutMs =>
      obtain ⟨status, pieces, rfl, -⟩ := World.replyError_acts hcall
      exact h.quiet (quiet_writeActs ..) (World.replyError_lender hcall)
  | acceptHandshake timeoutMs =>
      simp only [World.answer, World.acceptHandshake] at hcall
      split at hcall
      next => cases hcall
      next hs rest hshakes =>
        split at hcall
        next => cases hcall
        next calls ok hcalls =>
          cases hcall
          have hquiet : Booked m K g (tr ++ calls.map .tls) { w with handshakes := rest } :=
            h.quiet (quiet_tls calls) rfl
          cases r with
          | true => simpa [Account.next] using hquiet
          | false => simpa [Account.next] using hquiet.close
  | safeClose =>
      cases hcall
      exact h.close
  | closeStream =>
      cases hcall
      have hquiet : Booked m K g (tr ++ List.map .tls [.shutdown, .free]) w :=
        h.quiet (quiet_tls _) rfl
      simpa [Account.next] using hquiet.close
  | poolBorrow =>
      cases v with
      | set => exact hallowed.elim
      | pool =>
          simp only [World.answer, World.poolBorrow] at hcall
          split at hcall
          next handle b hborrow =>
            cases hcall
            exact h.borrow hL hallowed hborrow
          next => cases hcall
  | setBorrow =>
      cases v with
      | pool => exact hallowed.elim
      | set =>
          simp only [World.answer, World.setBorrow] at hcall
          split at hcall
          next handle b hborrow =>
            cases hcall
            exact h.borrow hL hallowed hborrow
          next => cases hcall
  | poolRelease fd ok =>
      cases v with
      | set => exact hallowed.elim
      | pool => exact h.release hL hallowed hcall
  | setRelease handle ok =>
      cases v with
      | pool => exact hallowed.elim
      | set => exact h.release hL hallowed hcall

end Booked

/-! ## What a run leaves behind -/

/-- Nothing is left of the request. -/
structure NoResidue (m : Metrics) (tr : List Act) : Prop where
  inFlight : (metricsAfter m tr).inFlight = m.inFlight
  /-- One of `completed` and `errored` has grown by one, and the other has not changed. -/
  counted : ((metricsAfter m tr).completed = m.completed + 1 ∧
      (metricsAfter m tr).errored = m.errored) ∨
    ((metricsAfter m tr).completed = m.completed ∧ (metricsAfter m tr).errored = m.errored + 1)
  closed : .closed ∈ tr
  released : ∀ h ∈ borrows tr, 0 ≤ h.fd → ∃ ok, (h, ok) ∈ releases tr

/-- Everything is left of it.  `cleared` says that the lender counts no lease for the
run any more. -/
structure Residue (alloc : Peer → Nat → Bool) (m : Metrics) (cleared : Prop) (tr : List Act) :
    Prop where
  failed : ∃ peer len, alloc peer len = false
  metrics : metricsAfter m tr = { m with inFlight := m.inFlight + 1 }
  unclosed : .closed ∉ tr
  unreleased : releases tr = []
  lent : borrows tr = [] ∨ ∃ h, borrows tr = [h] ∧ 0 ≤ h.fd
  cleared_iff : cleared ↔ borrows tr = []

/-- The two ways in which a run ends. -/
structure Ends (alloc : Peer → Nat → Bool) (m : Metrics) (cleared : Prop)
    (e : Ending Unit Act (World β)) : Prop where
  clean_iff : NoResidue m e.acts ∧ cleared ↔ e.isThrow = false
  residue : e.isThrow = true → Residue alloc m cleared e.acts

section Ends

variable {v : Overload} {m : Metrics} {K : Loan → β → Prop} {g : Account} {tr acts : List Act}
  {L : Lender β} {w w' : World β} {alloc : Peer → Nat → Bool} {opts : HandlerOptions}

theorem Booked.noResidue (h : Booked m K g tr w) (hg : g.cleared) : NoResidue m tr := by
  obtain ⟨⟨hentered, hleft, hone⟩, hclosed, hloan⟩ := hg
  have hmetrics := h.metrics
  constructor
  case inFlight =>
    rw [hmetrics]
    simp [Tally.applied, Tally.present, hentered, hleft]
  case counted =>
    rw [hmetrics]
    simp only [Tally.applied]
    omega
  case closed => exact h.closed.mpr hclosed
  case released =>
    have hshown := h.loan
    cases hl : g.loan with
    | lent handle => exact absurd hl (hloan handle)
    | unasked =>
        rw [hl] at hshown
        simp [hshown.1]
    | ended =>
        rw [hl] at hshown
        exact hshown

/-- A call that throws, in the middle of a read. -/
theorem Booked.residue (h : Booked m K g tr w) {cleared : β → Prop}
    (hcleared : ∀ loan b, K loan b → (cleared b ↔ ∀ h, loan ≠ .lent h)) {o : Op}
    (hallowed : g.allows v o) (hcall : World.attempt alloc L o w = some (.threw acts w')) :
    Residue alloc m (cleared w'.lender) (tr ++ acts) := by
  obtain ⟨peer, maxPayload, timeoutMs, pieces, len, rfl, hlen, hlender, rfl⟩ :=
    World.attempt_threw hcall
  obtain ⟨htally, hclosed, hloan⟩ : g.tally = { entered := 1 } ∧ g.closed = false ∧
      g.loan ≠ .ended := by
    cases v <;> exact hallowed
  have hbooked : Booked m K g (tr ++ (.reading peer.end :: pieces.map (.received peer.end))) w' :=
    h.quiet (quiet_reading ..) hlender
  have hmetrics := hbooked.metrics
  rw [htally] at hmetrics
  have hunclosed : Act.closed ∉ tr ++ (.reading peer.end :: pieces.map (.received peer.end)) := by
    simp [hbooked.closed, hclosed]
  have hiff := hcleared _ _ hbooked.lender
  have hshown := hbooked.loan
  cases hl : g.loan with
  | ended => exact absurd hl hloan
  | unasked =>
      rw [hl] at hshown hiff
      exact ⟨⟨peer, len, hlen⟩, hmetrics, hunclosed, hshown.2, .inl hshown.1,
        by simp [hiff, hshown.1]⟩
  | lent handle =>
      rw [hl] at hshown hiff
      exact ⟨⟨peer, len, hlen⟩, hmetrics, hunclosed, hshown.2.1,
        .inr ⟨handle, hshown.1, hshown.2.2⟩, by simp [hiff, hshown.1]⟩

/-- Both overloads, for a lender that can tell whether it has lent a connection. -/
theorem handleOne_ends (hL : L.Keeps v K) {cleared : β → Prop}
    (hcleared : ∀ loan b, K loan b → (cleared b ↔ ∀ h, loan ≠ .lent h))
    (hK : K .unasked w.lender) {e : Ending Unit Act (World β)}
    (h : (v.handleOne opts).attempt (World.attempt alloc L) w = some e) :
    Ends alloc m (cleared e.state.lender) e := by
  have hstep : ∀ {g tr w o r acts w'}, (duties v).allowed g o → Booked m K g tr w →
      World.attempt alloc L o w = some (.returned r acts w') →
      Booked m K ((duties v).next g o r) (tr ++ acts) w' := by
    intro g tr w o r acts w' hallowed hI hcall
    exact hI.step hL hallowed (World.attempt_answer hcall)
  have hthrow : ∀ {g tr w o acts w'}, (duties v).allowed g o → Booked m K g tr w →
      World.attempt alloc L o w = some (.threw acts w') →
      Residue alloc m (cleared w'.lender) (tr ++ acts) := by
    intro g tr w o acts w' hallowed hI hcall
    exact hI.residue hcleared hallowed hcall
  have hstart : Booked m K {} [] w := ⟨by simp [Tally.applied, Tally.present], by simp,
    ⟨rfl, rfl⟩, hK⟩
  obtain ⟨hreturned, hthrew⟩ := (handleOne_duties v opts).attempt
    (Q := fun tr w => Residue alloc m (cleared w.lender) tr) hstep hthrow hstart h
  rw [List.nil_append] at hreturned hthrew
  refine ⟨⟨?_, ?_⟩, hthrew⟩
  · rintro ⟨hnone, -⟩
    by_contra hthrow
    exact (hthrew (by simpa using hthrow)).unclosed hnone.closed
  · intro hthrow
    obtain ⟨g, hg, hI⟩ := hreturned hthrow
    exact ⟨hI.noResidue hg, (hcleared _ _ hI.lender).mpr hg.2.2⟩

end Ends

/-! ## The counts of the lenders -/

section Counts

open BackendSet (PoolCalls Members Scripted scripted)
open BackendPool (Caller)

/-- `in_use_` is the number of leases of the callers other than this run, which is the one
after those that `p` has. -/
def PoolCleared (p p' : Scripted) : Prop :=
  p'.pool.inUse = total Caller.leases (p'.pool.callers.eraseIdx p.pool.callers.length)

/-- `in_flight_` is as before the run, and so is what the pools count for it. -/
def SetCleared (s s' : Members Scripted) : Prop :=
  s'.inFlight = s.inFlight ∧
    ∀ (i : Nat) p p', s.pools[i]? = some p → s'.pools[i]? = some p' → PoolCleared p p'

/-- The pool, and how the caller of the run stands in it. -/
def PoolLoan (o : BackendPool.Options) (p₀ : Scripted) (loan : Loan) (p : Scripted) : Prop :=
  (BackendPool.machine o).Reachable p.pool ∧
    match loan with
    | .unasked => p = p₀
    | .lent h => p.mine = p₀.pool.callers.length ∧
        ∃ fd : Nat, h.fd = fd ∧ p.pool.callers[p₀.pool.callers.length]? = some (.held fd)
    | .ended => ∃ c, p.pool.callers[p₀.pool.callers.length]? = some c ∧ c.leases = 0

theorem PoolLoan.cleared_iff {o : BackendPool.Options} {p₀ p : Scripted} {loan : Loan}
    (h : PoolLoan o p₀ loan p) : PoolCleared p₀ p ↔ ∀ h, loan ≠ .lent h := by
  obtain ⟨hreach, hloan⟩ := h
  have hinUse := BackendPool.reachable_inUse hreach
  cases loan with
  | unasked =>
      have hp : p = p₀ := hloan
      subst hp
      simp [PoolCleared, hinUse, List.eraseIdx_of_length_le]
  | lent h =>
      obtain ⟨-, fd, -, hheld⟩ := hloan
      have hsum := total_eraseIdx Caller.leases hheld
      have hone : Caller.leases (.held fd) = 1 := rfl
      simp only [PoolCleared, ne_eq, Loan.lent.injEq, forall_eq', iff_false]
      omega
  | ended =>
      obtain ⟨c, hc, hnone⟩ := hloan
      have hsum := total_eraseIdx Caller.leases hc
      simp only [PoolCleared, ne_eq, reduceCtorEq, not_false_eq_true, implies_true, iff_true]
      omega

theorem poolLender_keeps (o : BackendPool.Options) (p₀ : Scripted) :
    (poolLender (scripted o)).Keeps .pool (PoolLoan o p₀) where
  borrow {p h p'} hp hborrow := by
    obtain ⟨hreach, rfl⟩ := hp
    simp only [poolLender] at hborrow
    split at hborrow
    next => cases hborrow
    next q hcall =>
      cases hborrow
      obtain ⟨events, hexec, hmine, ⟨n, hn, -⟩ | ⟨errno, -, hfailed⟩⟩ :=
        BackendSet.scripted_borrow hcall
      · cases hn
      · rw [hmine] at hfailed
        exact ⟨hreach.exec hexec, _, hfailed, rfl⟩
    next fd q hcall =>
      cases hborrow
      obtain ⟨events, hexec, hmine, ⟨n, hn, hheld⟩ | ⟨errno, hn, -⟩⟩ :=
        BackendSet.scripted_borrow hcall
      · cases hn
        rw [hmine] at hheld
        rw [Overload.keep, Loan.of_natCast]
        exact ⟨hreach.exec hexec, hmine, fd, rfl, hheld⟩
      · cases hn
  release {p h ok p'} hp hrelease := by
    obtain ⟨hreach, hmine, fd, hfd, hheld⟩ := hp
    obtain ⟨events, hexec, -, hreleased⟩ := BackendSet.scripted_release hrelease
    rw [hmine] at hreleased
    exact ⟨hreach.exec hexec, _, hreleased, rfl⟩

variable {π : Type} {P : PoolCalls π} {J : π → Loan → π → Prop}

/-- The set, and how the run stands with the pool it picked.  `J` is what holds of a pool,
from what it was before the run. -/
def SetLoan (J : π → Loan → π → Prop) (s₀ : Members π) (loan : Loan) (s : Members π) : Prop :=
  (∀ p ∈ s₀.pools, J p .unasked p) ∧
    match loan with
    | .unasked => s = s₀
    | .lent h =>
        0 ≤ h.fd ∧
        s.inFlight = Function.update s₀.inFlight h.poolIndex (s₀.inFlight h.poolIndex + 1) ∧
        ∃ p₀ p, s₀.pools[h.poolIndex]? = some p₀ ∧ s.pools = s₀.pools.set h.poolIndex p ∧
          J p₀ (.lent { fd := h.fd }) p
    | .ended =>
        s.inFlight = s₀.inFlight ∧ (s.pools = s₀.pools ∨
          ∃ i p₀ p, s₀.pools[i]? = some p₀ ∧ s.pools = s₀.pools.set i p ∧ J p₀ .ended p)

theorem setLender_keeps (hP : ∀ p₀, (poolLender P).Keeps .pool (J p₀)) (cfg : BackendSet.Config)
    (s₀ : Members π) : (setLender P cfg).Keeps .set (SetLoan J s₀) where
  borrow {s h s'} hs hborrow := by
    obtain ⟨hpools, rfl⟩ := hs
    simp only [setLender, Members.borrow] at hborrow
    split at hborrow
    next =>
      cases hborrow
      exact ⟨hpools, rfl, .inl rfl⟩
    next =>
      split at hborrow
      next => cases hborrow
      next p hp =>
        have hJ := hpools p (List.mem_of_getElem? hp)
        split at hborrow
        next => cases hborrow
        next p' hcall =>
          -- the pick is compensated
          cases hborrow
          have hlender : (poolLender P).borrow p = some ({ fd := -1 }, p') := by
            simp only [poolLender, hcall]
          exact ⟨hpools, by simp, .inr ⟨_, p, p', hp, rfl, (hP p).borrow hJ hlender⟩⟩
        next fd p' hcall =>
          cases hborrow
          have hlender : (poolLender P).borrow p = some ({ fd := fd }, p') := by
            simp only [poolLender, hcall]
          have hlent := (hP p).borrow hJ hlender
          simp only [Overload.keep, Loan.of_natCast] at hlent ⊢
          exact ⟨hpools, Int.natCast_nonneg fd, rfl, p, p', hp, rfl, hlent⟩
  release {s h ok s'} hs hrelease := by
    obtain ⟨hpools, hfd, hinFlight, p₀, p, hp₀, hset, hJ⟩ := hs
    simp only [setLender, Members.release, if_neg (Int.not_lt.mpr hfd), hset,
      getElem?_set_eq _ hp₀, if_true] at hrelease
    split at hrelease
    next => cases hrelease
    next p' hcall =>
      cases hrelease
      refine ⟨hpools, ?_, .inr ⟨h.poolIndex, p₀, p', hp₀, ?_, (hP p₀).release hJ hcall⟩⟩
      · simp [hinFlight]
      · simp

theorem SetLoan.cleared_iff {o : BackendPool.Options} {s₀ s : Members Scripted} {loan : Loan}
    (h : SetLoan (PoolLoan o) s₀ loan s) : SetCleared s₀ s ↔ ∀ h, loan ≠ .lent h := by
  obtain ⟨hpools, hloan⟩ := h
  have hsame : ∀ {i : Nat} {p : Scripted}, s₀.pools[i]? = some p → PoolCleared p p :=
    fun hp => (hpools _ (List.mem_of_getElem? hp)).cleared_iff.mpr nofun
  cases loan with
  | unasked =>
      have hs : s = s₀ := hloan
      subst hs
      refine iff_of_true ⟨rfl, ?_⟩ nofun
      intro i p p' hp hp'
      cases hp.symm.trans hp'
      exact hsame hp
  | lent h =>
      obtain ⟨-, hinFlight, -⟩ := hloan
      refine iff_of_false ?_ (fun hnone => hnone h rfl)
      rintro ⟨hsame, -⟩
      have hload := congrFun (hsame.symm.trans hinFlight) h.poolIndex
      rw [Function.update_self] at hload
      grind
  | ended =>
      obtain ⟨hinFlight, hset⟩ := hloan
      refine iff_of_true ⟨hinFlight, ?_⟩ nofun
      intro i p p' hp hp'
      rcases hset with hset | ⟨j, p₀, q, hp₀, hset, hJ⟩
      · rw [hset] at hp'
        cases hp.symm.trans hp'
        exact hsame hp
      · rw [hset, getElem?_set_eq _ hp₀] at hp'
        split at hp'
        next hij =>
          subst hij
          cases hp'
          cases hp.symm.trans hp₀
          exact hJ.cleared_iff.mpr nofun
        next =>
          cases hp.symm.trans hp'
          exact hsame hp

/-- Both overloads, in the clear and over TLS, whatever the peers send and whichever
allocation throws: nothing is left of a request exactly if no allocation throws. -/
theorem no_residue_iff_no_throw (alloc : Peer → Nat → Bool) (opts : HandlerOptions) (m : Metrics)
    (o : BackendPool.Options) :
    (∀ (w : World Scripted) (e : Ending Unit Act (World Scripted)),
      (BackendPool.machine o).Reachable w.lender.pool →
      (handleOnePool opts).attempt (World.attempt alloc (poolLender (scripted o))) w = some e →
      Ends alloc m (PoolCleared w.lender e.state.lender) e) ∧
    (∀ (cfg : BackendSet.Config) (w : World (Members Scripted))
      (e : Ending Unit Act (World (Members Scripted))),
      (∀ p ∈ w.lender.pools, (BackendPool.machine o).Reachable p.pool) →
      (handleOneSet opts).attempt (World.attempt alloc (setLender (scripted o) cfg)) w = some e →
      Ends alloc m (SetCleared w.lender e.state.lender) e) := by
  constructor
  · intro w e hreach h
    exact handleOne_ends (v := .pool) (poolLender_keeps o w.lender)
      (fun _ _ hK => hK.cleared_iff) ⟨hreach, rfl⟩ h
  · intro cfg w e hreach h
    exact handleOne_ends (v := .set) (setLender_keeps (poolLender_keeps o) cfg w.lender)
      (fun _ _ hK => hK.cleared_iff) ⟨fun p hp => ⟨hreach p hp, rfl⟩, rfl⟩ h

/-- A message of one byte each way. -/
def byteExchange : World Scripted where
  reads := [.plain [{ recv := .bytes [0, 0, 0, 1] }, { recv := .bytes [5] }]]
  writes := [.plain [{ send := .sent 4 }, { send := .sent 1 }]]
  backendReads := [[{ recv := .bytes [0, 0, 0, 1] }, { recv := .bytes [6] }]]
  backendWrites := [[{ send := .sent 4 }, { send := .sent 1 }]]
  lender := dialAndKeep

theorem no_residue_iff_no_throw_byteExchange :
    ∃ e, (handleOnePool {}).attempt
        (World.attempt (fun _ _ => true) (poolLender (scripted {}))) byteExchange = some e ∧
      e.isThrow = false ∧ clientBytes e.acts = [0, 0, 0, 1, 6] ∧
      Ends (fun _ _ => true) {} (PoolCleared dialAndKeep e.state.lender) e := by
  refine ⟨_, rfl, rfl, rfl, ?_⟩
  exact (no_residue_iff_no_throw _ {} {} {}).1 byteExchange _ .init rfl

/-- The same messages over TLS, to a set of one backend. -/
def byteExchangeTls : World (Members Scripted) where
  handshakes := tlsExchange.handshakes
  reads := [.tls [[{ result := .done [0, 0, 0, 1] }], [{ result := .done [5] }]]]
  writes := [.tls [[{ result := .done 4 }], [{ result := .done 1 }]]]
  backendReads := byteExchange.backendReads
  backendWrites := byteExchange.backendWrites
  lender := { pools := [dialAndKeep] }

/-- The request cannot be allocated; and the response cannot, when the connection is
lent. -/
theorem residue_unallocated :
    (∃ e, (handleOnePool {}).attempt (World.attempt (fun peer _ => decide (peer ≠ .client))
        (poolLender (scripted {}))) byteExchange = some e ∧
      ¬ NoResidue {} e.acts ∧ (metricsAfter {} e.acts).inFlight = 1 ∧ .closed ∉ e.acts) ∧
    (∃ e, (handleOneSet { serverTls := true }).attempt
        (World.attempt (fun peer _ => decide (peer = .clientTls)) (setLender (scripted {})
          { specs := [{ host := "127.0.0.1", port := 9090 }] })) byteExchangeTls = some e ∧
      ¬ NoResidue {} e.acts ∧ (metricsAfter {} e.acts).inFlight = 1 ∧ .closed ∉ e.acts ∧
      borrows e.acts = [{ fd := 7 }] ∧ releases e.acts = [] ∧
      e.state.lender.inFlight 0 = 1 ∧ e.state.lender.pools.map (fun p => p.pool.inUse) = [1]) := by
  constructor
  · exact ⟨_, rfl, fun h => absurd h.closed (by decide), rfl, by decide⟩
  · exact ⟨_, rfl, fun h => absurd h.closed (by decide), rfl, by decide, rfl, rfl, rfl, rfl⟩

end Counts

end InferenceRouter.Handler
