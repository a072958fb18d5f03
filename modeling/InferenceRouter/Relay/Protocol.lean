import InferenceRouter.Handler

/-!
# The order of a handler's calls on its connections

What `handle_one` may do with its client and with the connection it borrows, as a
protocol over its calls.  It reads one request from the client, borrows, writes
that request to the connection, reads one answer from it, and writes that answer
to the client.  The first failure ends the exchange.  A connection goes back with
`ok` only after the answer was read, and the client is not used once it is closed.
Both overloads of `handle_one` follow the protocol, with and without TLS.
-/

namespace InferenceRouter.Relay

open Interleaving Connection Handler

/-- What a borrow returned. -/
inductive Lease where
  | pool (fd : Int)
  | set (h : Handle)

def Lease.fd : Lease → Int
  | .pool fd => fd
  | .set h => h.fd

/-- How far the exchange has come. -/
inductive Stage where
  | start
  /-- The request has been read. -/
  | request (q : List UInt8)
  /-- A connection has been borrowed for it. -/
  | lent (l : Lease) (q : List UInt8)
  /-- The request has been written to the connection. -/
  | sent (l : Lease) (q : List UInt8)
  /-- The answer has been read from the connection. -/
  | answered (l : Lease) (q p : List UInt8)
  /-- The write of the answer to the client has returned; `whole` says whether with
  `kOk`. -/
  | replied (l : Lease) (whole : Bool)
  /-- The write to the connection or the read from it failed. -/
  | spoilt (l : Lease)
  /-- The connection is released, or there was none. -/
  | ended (whole : Bool)

/-- The connection that the run has in hand. -/
def Stage.lease : Stage → Option Lease
  | .lent l _ | .sent l _ | .answered l _ _ | .replied l _ | .spoilt l => some l
  | .start | .request _ | .ended _ => none

/-- With which `ok` the connection goes back. -/
def Stage.Releases (st : Stage) (l : Lease) (ok : Bool) : Prop :=
  (ok = true ∧ ∃ whole, st = .replied l whole) ∨ (ok = false ∧ st = .spoilt l)

/-- A read returned. -/
def Stage.read : Stage → IoStatus × List UInt8 → Stage
  | .start, (.kOk, q) => .request q
  | .start, _ => .ended false
  | .sent l q, (.kOk, p) => .answered l q p
  | .sent l _, _ => .spoilt l
  | st, _ => st

/-- A write returned. -/
def Stage.write : Stage → IoStatus → Stage
  | .lent l q, .kOk => .sent l q
  | .lent l _, _ => .spoilt l
  | .answered l _ _, .kOk => .replied l true
  | .answered l _ _, _ => .replied l false
  | st, _ => st

/-- A borrow returned. -/
def Stage.borrow : Stage → Lease → Stage
  | .request q, l => if l.fd < 0 then .ended false else .lent l q
  | st, _ => st

/-- The release returned. -/
def Stage.release : Stage → Stage
  | .replied _ whole => .ended whole
  | _ => .ended false

/-- The exchange, and whether the client is open. -/
structure Phase where
  isOpen : Bool := true
  stage : Stage := .start

def Phase.allows (g : Phase) : Op → Prop
  | .incInFlight | .decInFlight | .incErrored => True
  | .incCompleted => g.stage = .ended true
  | .acceptHandshake _ => g.isOpen = true ∧ g.stage = .start
  | .readMessage .client _ _ | .readMessage .clientTls _ _ => g.isOpen = true ∧ g.stage = .start
  | .readMessage (.backend fd) _ _ => ∃ l q, g.stage = .sent l q ∧ l.fd = fd
  | .writeMessage .client p _ | .writeMessage .clientTls p _ =>
      g.isOpen = true ∧ ∃ l q, g.stage = .answered l q p
  | .writeMessage (.backend fd) q _ => ∃ l, g.stage = .lent l q ∧ l.fd = fd
  | .replyErrorPlain _ _ | .replyErrorTls _ _ =>
      g.isOpen = true ∧ (g.stage = .ended false ∨ ∃ l, g.stage = .spoilt l)
  | .poolBorrow | .setBorrow => ∃ q, g.stage = .request q
  | .poolRelease fd ok => g.stage.Releases (.pool fd) ok
  | .setRelease h ok => g.stage.Releases (.set h) ok
  | .safeClose | .closeStream => g.isOpen = true

def Phase.next (g : Phase) : (o : Op) → o.Ret → Phase
  | .acceptHandshake _, ssl => if ssl = true then g else ⟨false, .ended false⟩
  | .readMessage _ _ _, r => { g with stage := g.stage.read r }
  | .writeMessage _ _ _, status => { g with stage := g.stage.write status }
  | .poolBorrow, fd => { g with stage := g.stage.borrow (.pool fd) }
  | .setBorrow, h => { g with stage := g.stage.borrow (.set h) }
  | .poolRelease _ _, _ | .setRelease _ _, _ => { g with stage := g.stage.release }
  | .safeClose, _ | .closeStream, _ => { g with isOpen := false }
  | _, _ => g

/-- The protocol of the exchange. -/
def relay : Protocol Op Op.Ret Phase where
  allowed := Phase.allows
  next := Phase.next
  final g := ∃ whole, g.stage = .ended whole

@[simp] theorem relay_allowed (g : Phase) (o : Op) : relay.allowed g o = g.allows o := rfl

@[simp] theorem relay_next (g : Phase) (o : Op) (r : o.Ret) : relay.next g o r = g.next o r := rfl

@[simp] theorem relay_final (g : Phase) : relay.final g ↔ ∃ whole, g.stage = .ended whole := Iff.rfl

/-! ## Rules for the calls that can fail -/

/-- The status decides what a failed read or write leads to. -/
theorem Stage.read_start_fail {r : IoStatus × List UInt8} (h : r.1 ≠ .kOk) :
    Stage.read .start r = .ended false := by
  obtain ⟨status, bytes⟩ := r
  cases status with
  | kOk => exact absurd rfl h
  | kPeerClosed | kTimeout | kProtocolError | kIoError => rfl

theorem Stage.read_sent_fail {r : IoStatus × List UInt8} (h : r.1 ≠ .kOk) (l : Lease)
    (q : List UInt8) : Stage.read (.sent l q) r = .spoilt l := by
  obtain ⟨status, bytes⟩ := r
  cases status with
  | kOk => exact absurd rfl h
  | kPeerClosed | kTimeout | kProtocolError | kIoError => rfl

theorem Stage.write_lent_fail {status : IoStatus} (h : status ≠ .kOk) (l : Lease)
    (q : List UInt8) : Stage.write (.lent l q) status = .spoilt l := by
  cases status with
  | kOk => exact absurd rfl h
  | kPeerClosed | kTimeout | kProtocolError | kIoError => rfl

theorem Stage.write_answered (status : IoStatus) (l : Lease) (q p : List UInt8) :
    Stage.write (.answered l q p) status = .replied l (decide (status = .kOk)) := by
  cases status <;> rfl

/-- A read neither takes a connection nor gives one away. -/
theorem Stage.lease_read (st : Stage) (r : IoStatus × List UInt8) :
    (st.read r).lease = st.lease := by
  obtain ⟨status, bytes⟩ := r
  cases st <;> cases status <;> rfl

section Rules

variable {peer : Peer} {isOpen : Bool} {l : Lease} {q : List UInt8} {maxPayload : Nat}

theorem follows_readRequest (hpeer : peer = .client ∨ peer = .clientTls) {t : Int}
    {k : IoStatus × List UInt8 → Code Unit}
    (hfail : ∀ r, r.1 ≠ .kOk → (k r).Follows relay ⟨true, .ended false⟩)
    (hok : ∀ q, (k (.kOk, q)).Follows relay ⟨true, .request q⟩) :
    (Prog.call (.readMessage peer maxPayload t) k).Follows relay ⟨true, .start⟩ := by
  constructor
  · rcases hpeer with rfl | rfl <;> exact ⟨rfl, rfl⟩
  · intro r
    by_cases hr : r.1 = .kOk
    · obtain ⟨status, q⟩ := r
      cases hr
      exact hok q
    · have hnext := hfail r hr
      rwa [← Stage.read_start_fail hr] at hnext

theorem follows_borrow {isOpen : Bool} {st st' : Stage} {c : Prop} [Decidable c] {p : Code Unit}
    (hfail : c → p.Follows relay ⟨isOpen, st⟩) (hok : ¬ c → p.Follows relay ⟨isOpen, st'⟩) :
    p.Follows relay ⟨isOpen, if c then st else st'⟩ := by
  split
  next h => exact hfail h
  next h => exact hok h

theorem follows_poolBorrow {k : Int → Code Unit}
    (hfail : ∀ fd, fd < 0 → (k fd).Follows relay ⟨isOpen, .ended false⟩)
    (hok : ∀ fd, ¬ fd < 0 → (k fd).Follows relay ⟨isOpen, .lent (.pool fd) q⟩) :
    (Prog.call .poolBorrow k).Follows relay ⟨isOpen, .request q⟩ :=
  ⟨⟨q, rfl⟩, fun fd => follows_borrow (hfail fd) (hok fd)⟩

theorem follows_setBorrow {k : Handle → Code Unit}
    (hfail : ∀ h, h.fd < 0 → (k h).Follows relay ⟨isOpen, .ended false⟩)
    (hok : ∀ h, ¬ h.fd < 0 → (k h).Follows relay ⟨isOpen, .lent (.set h) q⟩) :
    (Prog.call .setBorrow k).Follows relay ⟨isOpen, .request q⟩ :=
  ⟨⟨q, rfl⟩, fun h => follows_borrow (hfail h) (hok h)⟩

/-- The exchange with the backend: forward the request, collect the answer, and
pass it on to the client. -/
theorem follows_exchange (hpeer : peer = .client ∨ peer = .clientTls) {fd : Int} (hfd : l.fd = fd)
    {writeFailed readFailed : Code Unit} {done : IoStatus → Code Unit} {t t' : Int}
    (hwrite : writeFailed.Follows relay ⟨true, .spoilt l⟩)
    (hread : readFailed.Follows relay ⟨true, .spoilt l⟩)
    (hdone : ∀ cw, (done cw).Follows relay ⟨true, .replied l (decide (cw = .kOk))⟩) :
    (Prog.call (.writeMessage (.backend fd) q t) fun wr =>
      if wr ≠ .kOk then writeFailed
      else Prog.call (.readMessage (.backend fd) maxPayload t) fun rr =>
        if rr.1 ≠ .kOk then readFailed
        else Prog.call (.writeMessage peer rr.2 t') done).Follows relay ⟨true, .lent l q⟩ := by
  refine ⟨⟨l, rfl, hfd⟩, fun wr => ?_⟩
  beta_reduce
  by_cases hwr : wr = .kOk
  · cases hwr
    rw [if_neg (by simp)]
    refine ⟨⟨l, q, rfl, hfd⟩, fun rr => ?_⟩
    beta_reduce
    by_cases hrr : rr.1 = .kOk
    · obtain ⟨status, p⟩ := rr
      cases hrr
      rw [if_neg (by simp)]
      constructor
      · rcases hpeer with rfl | rfl <;> exact ⟨rfl, l, q, rfl⟩
      · intro cw
        have hnext := hdone cw
        rwa [← Stage.write_answered cw l q p] at hnext
    · rw [if_pos hrr]
      rwa [← Stage.read_sent_fail hrr l q] at hread
  · rw [if_pos hwr]
    rwa [← Stage.write_lent_fail hwr l q] at hwrite

end Rules

/-! ## The handler -/

theorem handleOnePool_relays (opts : HandlerOptions) : (handleOnePool opts).Follows relay {} := by
  simp only [handleOnePool, incInFlight, decInFlight, incCompleted, incErrored, acceptHandshake,
    readMessage, writeMessage, replyErrorPlain, replyErrorTls, poolBorrow, poolRelease, safeClose,
    closeStream, Prog.perform_bind, Prog.pure_eq]
  refine ⟨trivial, fun _ => ?_⟩
  rw [Prog.follows_ite]
  constructor
  · intro _
    refine follows_readRequest (.inl rfl) (fun r hr => ?_) (fun q => ?_)
    · simp [hr, Phase.allows, Phase.next]
    rw [if_neg (by simp)]
    refine follows_poolBorrow (fun fd hfd => ?_) (fun fd hfd => ?_)
    · simp [hfd, Phase.allows, Phase.next]
    rw [if_neg hfd]
    refine follows_exchange (.inl rfl) rfl ?_ ?_ ?_ <;>
      simp [Phase.allows, Phase.next, Stage.Releases, Stage.release]
  · intro _
    refine ⟨⟨rfl, rfl⟩, fun ssl => ?_⟩
    beta_reduce
    cases ssl with
    | false => simp [Phase.allows, Phase.next]
    | true =>
        rw [if_neg (by simp)]
        refine follows_readRequest (.inr rfl) (fun r hr => ?_) (fun q => ?_)
        · simp [hr, Phase.allows, Phase.next]
        rw [if_neg (by simp)]
        refine follows_poolBorrow (fun fd hfd => ?_) (fun fd hfd => ?_)
        · simp [hfd, Phase.allows, Phase.next]
        rw [if_neg hfd]
        refine follows_exchange (.inr rfl) rfl ?_ ?_ ?_ <;>
          simp [Phase.allows, Phase.next, Stage.Releases, Stage.release]

theorem handleOneSet_relays (opts : HandlerOptions) : (handleOneSet opts).Follows relay {} := by
  simp only [handleOneSet, incInFlight, decInFlight, incCompleted, incErrored, acceptHandshake,
    readMessage, writeMessage, replyErrorPlain, replyErrorTls, setBorrow, setRelease, safeClose,
    closeStream, Prog.perform_bind, Prog.pure_eq]
  refine ⟨trivial, fun _ => ?_⟩
  rw [Prog.follows_ite]
  constructor
  · intro _
    refine follows_readRequest (.inl rfl) (fun r hr => ?_) (fun q => ?_)
    · simp [hr, Phase.allows, Phase.next]
    rw [if_neg (by simp)]
    refine follows_setBorrow (fun h hfd => ?_) (fun h hfd => ?_)
    · simp [hfd, Phase.allows, Phase.next]
    rw [if_neg hfd]
    refine follows_exchange (.inl rfl) rfl ?_ ?_ ?_ <;>
      simp [Phase.allows, Phase.next, Stage.Releases, Stage.release]
  · intro _
    refine ⟨⟨rfl, rfl⟩, fun ssl => ?_⟩
    beta_reduce
    cases ssl with
    | false => simp [Phase.allows, Phase.next]
    | true =>
        rw [if_neg (by simp)]
        refine follows_readRequest (.inr rfl) (fun r hr => ?_) (fun q => ?_)
        · simp [hr, Phase.allows, Phase.next]
        rw [if_neg (by simp)]
        refine follows_setBorrow (fun h hfd => ?_) (fun h hfd => ?_)
        · simp [hfd, Phase.allows, Phase.next]
        rw [if_neg hfd]
        refine follows_exchange (.inr rfl) rfl ?_ ?_ ?_ <;>
          simp [Phase.allows, Phase.next, Stage.Releases, Stage.release]

end InferenceRouter.Relay
